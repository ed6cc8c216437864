import LoreDB.Query.Cypher.UndirectedPatterns

/-! What a query sees of the label and the properties of an edge. The label is kept as a hash that nothing
reads; a pattern looks for the type among the properties instead. No property of an edge has a value. -/
namespace LoreDB.Query.Cypher
open LoreDB.Storage GraphStore GraphHistory GraphRefinement Outlines EdgeTips Wiring LoreDB.Library
  LoreDB.Library.History LoreDB.Transaction

/-- The type that a pattern takes an edge with these properties to have. -/
def typeText (properties : List Property) : Option Bytes :=
  (properties.find? fun prop => prop.key == ascii "type").map fun prop =>
    match prop.value with
    | .string text => text
    | _ => ascii "unknown"

/-- The label that an edge was created with plays no part. -/
theorem typed_edge (label : Bytes) (properties : List Property) :
    matchesEdgePattern {types := [label]} properties = true ↔ typeText properties = some label := by
  have free : matchesPropertyConstraints ∅ properties = true := rfl
  rw [matchesEdgePattern,free,Bool.and_true,typeText]
  cases properties.find? fun prop => prop.key == ascii "type" with
  | none => simp
  | some prop =>
    cases value : prop.value <;> simp [value,eq_comm]

theorem edge_access (bindings : VariableMap) (view : View) (name key : Bytes) (edgeId : EdgeId)
    (bound : bindings name = some (.edge edgeId)) :
    evaluateExpression bindings view (.propertyAccess name key) =
      .error ⟨.invalidArgument,"Property not found: " ++ shown name ++ "." ++ shown key⟩ := by
  rw [evaluateExpression,bound]

/-- The pattern of an edge with a label between two nodes. -/
def labelled (fromName edgeName toName label : Bytes) : Pattern where
  nodes := [{variableName := fromName},{variableName := toName}]
  edges := [{variableName := edgeName, types := [label]}]
  shape := .inr (by simp)

def firstValue (properties : List Property) (key : Bytes) : Option Storage.PropertyValue :=
  (properties.find? fun prop => prop.key == key).map Property.value

def HoldsBytes (properties : List Property) (key : Bytes) : Prop :=
  ∃ content, firstValue properties key = some (.bytes content)

/-- The pattern has a row for the edge in which the property holds of the names. -/
def RowWith (view : View) (edgeId : EdgeId) (fromName edgeName toName label : Bytes)
    (property : VariableMap → Prop) : Prop :=
  ∃ rows, matchPattern (labelled fromName edgeName toName label) view = .value rows ∧
    ∃ row ∈ rows, row.bindings edgeName = some (.edge edgeId) ∧ property row.bindings

/-- The name and the key give the first value of the property, unless that is a byte value. -/
def GivesFirst (view : View) (edgeName key : Bytes) (properties : List Property) (bindings : VariableMap) : Prop :=
  ∃ value, firstValue properties key = some value ∧ ((∃ content, value = .bytes content) ∨
    evaluateExpression bindings view (.propertyAccess edgeName key) = .ok (fromStorage value))

section Rows

variable {view : View} {fromName edgeName toName : Bytes}

theorem labelled_fixed (label : Bytes) (distinct : [fromName,edgeName,toName].Nodup) :
    FixedLength (labelled fromName edgeName toName label) := by
  obtain ⟨⟨first,-⟩,second⟩ : (fromName ≠ edgeName ∧ fromName ≠ toName) ∧ edgeName ≠ toName := by
    simpa using distinct
  refine ⟨by simp [labelled],rfl,by simp [labelled],by simp [labelled],⟨by simp [labelled],?_⟩⟩
  simp [labelled,Ne.symm first,second]

/-- The edge is followed from a node that the scan finds to one that the query reads. -/
structure Walked (view : View) (label : Bytes) (edgeId : EdgeId) (fromNode toNode : NodeId) : Prop where
  counted : 1 ≤ fromNode.toNat ∧ fromNode.toNat ≤ view.nodeCount.toNat
  begins : view.node fromNode ≠ none
  step : Step view {types := [label]} fromNode edgeId toNode
  ends : view.node toNode ≠ none

theorem matches_any (name : Option Bytes) (nodeId : NodeId) :
    matchesNodePattern {variableName := name} nodeId view = true ↔ view.node nodeId ≠ none := by
  rw [matchesNode_iff,Fulfils]
  simp [matchesPropertyConstraints,Option.ne_none_iff_exists']

theorem related_right {α β : Type} {relation : α → β → Prop} {front : List α} {back : List β}
    (related : List.Forall₂ relation front back) (b : β) (member : b ∈ back) :
    ∃ a ∈ front, relation a b := by
  induction related with
  | nil => cases member
  | cons here _ ih =>
    cases member with
    | head => exact ⟨_,.head _,here⟩
    | tail _ later =>
      obtain ⟨a,inside,there⟩ := ih later
      exact ⟨a,.tail _ inside,there⟩

/-- A trail along one edge binds the edge's name to it. -/
theorem trail_binds (label : Bytes) (row : ResultRow) (fromNode toNode : NodeId) (edgeId other : EdgeId)
    (rowOf : RowOf (labelled fromName edgeName toName label).nodes (labelled fromName edgeName toName label).edges
      ⟨fromNode,[(edgeId,toNode)]⟩ row) :
    row.bindings edgeName = some (.edge other) ↔ other = edgeId := by
  refine (rowOf edgeName (.edge other)).trans ?_
  simp [labelled,Trail.nodes,Trail.edges,eq_comm]

theorem labelled_satisfied (label : Bytes) (distinct : [fromName,edgeName,toName].Nodup)
    (passes : view.nodeCount.toNat + 1 ≠ 2 ^ 64) (trail : Trail NodeId EdgeId) :
    Satisfies view (labelled fromName edgeName toName label).nodes
        (labelled fromName edgeName toName label).edges trail ↔
      ∃ edgeId toNode, trail = ⟨trail.start,[(edgeId,toNode)]⟩ ∧ Walked view label edgeId trail.start toNode := by
  obtain ⟨start,steps⟩ := trail
  constructor
  · rintro ⟨⟨first,ids,same,found,inside⟩,follows,-⟩
    obtain rfl := Option.some.inj same
    obtain ⟨-,rfl⟩ := (scan_value _ ids).mp found
    obtain ⟨counted,reads⟩ := (mem_scannedIds _ start).mp inside
    cases steps with
    | nil => exact follows.elim
    | cons crossed more =>
      obtain rfl := List.length_eq_zero_iff.mp (Trail.leadsBy_length follows.2)
      obtain ⟨step,reaches⟩ := follows.1
      exact ⟨crossed.1,crossed.2,rfl,counted,(matches_any _ start).mp reads,step,(matches_any _ _).mp reaches⟩
  · rintro ⟨edgeId,toNode,same,counted,begins,step,ends⟩
    obtain rfl : steps = [(edgeId,toNode)] := congrArg Trail.steps same
    refine ⟨⟨_,_,rfl,scan_ends _ passes,?_⟩,⟨⟨step,(matches_any _ toNode).mpr ends⟩,trivial⟩,?_⟩
    · exact (mem_scannedIds _ start).mpr ⟨counted,(matches_any _ start).mpr begins⟩
    · have apart : fromName ≠ toName := by
        rintro rfl
        simp at distinct
      have apart' : toName ≠ fromName := apart.symm
      simp [Joins,labelled,Trail.nodes,apart,apart']

theorem row_walked (label : Bytes) (distinct : [fromName,edgeName,toName].Nodup)
    (listed : ∀ node, (view.outgoingEdges node).Nodup) (edgeId : EdgeId) (property : VariableMap → Prop)
    (holds : ∀ bindings : VariableMap, bindings edgeName = some (.edge edgeId) → property bindings) :
    RowWith view edgeId fromName edgeName toName label property ↔
      view.nodeCount.toNat + 1 ≠ 2 ^ 64 ∧ ∃ fromNode toNode, Walked view label edgeId fromNode toNode := by
  have fixed := labelled_fixed label distinct
  have exact := matchPattern_exact (labelled fromName edgeName toName label) fixed listed
  constructor
  · rintro ⟨rows,returned,row,among,bound,-⟩
    have passes : view.nodeCount.toNat + 1 ≠ 2 ^ 64 := by
      intro largest
      rw [matchPattern_path _ fixed _ _ rfl,matchNode,scan_endless _ largest] at returned
      cases returned
    obtain ⟨trails,others,again,matched⟩ := exact.mpr passes
    obtain rfl := Outcome.value.inj (returned.symm.trans again)
    obtain ⟨trail,inside,rowOf⟩ := related_right matched.rows row among
    obtain ⟨other,toNode,same,walked⟩ := (labelled_satisfied label distinct passes trail).mp
      ((matched.exact trail).mp inside)
    rw [same] at rowOf
    obtain rfl := (trail_binds label row trail.start toNode other edgeId rowOf).mp bound
    exact ⟨passes,trail.start,toNode,walked⟩
  · rintro ⟨passes,fromNode,toNode,walked⟩
    obtain ⟨trails,rows,returned,matched⟩ := exact.mpr passes
    have inside : ⟨fromNode,[(edgeId,toNode)]⟩ ∈ trails := (matched.exact _).mpr
      ((labelled_satisfied label distinct passes _).mpr ⟨edgeId,toNode,rfl,walked⟩)
    obtain ⟨row,among,rowOf⟩ := related_right matched.rows.flip _ inside
    have bound := (trail_binds label row fromNode toNode edgeId edgeId rowOf).mpr rfl
    exact ⟨rows,returned,row,among,bound,holds row.bindings bound⟩

/-- No property of an edge has a value, so only byte values are as they should be. -/
theorem gives_bytes (key : Bytes) (properties : List Property) (bindings : VariableMap) (edgeId : EdgeId)
    (bound : bindings edgeName = some (.edge edgeId)) :
    GivesFirst view edgeName key properties bindings ↔ HoldsBytes properties key := by
  constructor
  · rintro ⟨value,first,⟨content,rfl⟩ | evaluated⟩
    · exact ⟨content,first⟩
    · rw [edge_access bindings view edgeName key edgeId bound] at evaluated
      cases evaluated
  · rintro ⟨content,first⟩
    exact ⟨_,first,.inl ⟨content,rfl⟩⟩

end Rows

/-! The edge that has just been created. -/

section Created

variable {store : GraphStore FilePageStore} {reader : Nat}

/-- Where versions are kept, the reader sees one under the id. -/
def Shown (reader : Nat) (store : GraphStore FilePageStore) (id : UInt64) : Prop :=
  ∀ manager, store.mvccManager = some manager →
    VersionChain.newest (isVersionVisible manager.txnManager reader) (manager.chain id) ≠ none

theorem same_nodes (created : GraphStore FilePageStore) (versions : created.mvccManager = store.mvccManager)
    (pages : ∀ id, (getNode id created).1 = (getNode id store).1) :
    (ExecutionContext.view reader created).node = (ExecutionContext.view reader store).node := by
  funext id
  change (ExecutionContext.getNode reader id created).toOption = (ExecutionContext.getNode reader id store).toOption
  unfold ExecutionContext.getNode ExecutionContext.hasMvcc
  rw [versions]
  cases enabled : store.mvccManager with
  | none => exact congrArg Except.toOption (pages id)
  | some manager =>
    have kept : mvcc created = mvcc store := by rw [mvcc,mvcc,versions]
    have before := (getTx_spec .node reader id store (by rw [mvcc,enabled]; rfl)).1
    have later := (getTx_spec .node reader id created (by rw [mvcc,versions,enabled]; rfl)).1
    rw [kept,show (GraphHistory.get .node id created).1 = _ from pages id] at later
    exact congrArg Except.toOption (later.trans before.symm)

/-- No version under an id that has not been issued is one of an edge. -/
theorem created_shown (created : GraphStore FilePageStore) (id : EdgeId) (record : EdgeRecord)
    (properties : List Property) (versions : created.mvccManager = store.mvccManager)
    (read : (getEdge id created).1 = .ok (record,properties)) (untold : ∀ record, ¬Told store id record)
    (found : EdgeRecord × List Property) : (ExecutionContext.view reader created).edge id = some found ↔
      Shown reader store id ∧ found = (record,properties) := by
  change (ExecutionContext.getEdge reader id created).toOption = _ ↔ _
  unfold ExecutionContext.getEdge ExecutionContext.hasMvcc Shown
  rw [versions]
  cases enabled : store.mvccManager with
  | none => simp [read,Except.toOption,eq_comm]
  | some manager =>
    have kept : mvcc created = manager := by rw [mvcc,versions,enabled]; rfl
    have told := (getTx_spec .edge reader id created (by rw [kept,versions,enabled])).1
    rw [kept,show (GraphHistory.get .edge id created).1 = _ from read] at told
    rw [Option.isSome_some,if_pos rfl,show (getEdgeTx reader id created).1 = _ from told]
    cases newest : VersionChain.newest (isVersionVisible manager.txnManager reader) (manager.chain id) with
    | none => simp [GraphHistory.told,Except.toOption,newest]
    | some version =>
      have other : asEdge version.data = none := by
        by_contra edge
        obtain ⟨record,edge⟩ := Option.ne_none_iff_exists'.mp edge
        refine untold record ⟨version,?_,edge⟩
        rw [mvcc,enabled]
        exact (VersionChain.newest_mem _ _ _ newest).1
      simp [GraphHistory.told,GraphHistory.Kind.pick,other,Except.toOption,newest,eq_comm]

variable (hash : Bytes → UInt64) (clock : UInt64) (fromNode toNode : NodeId) (label : Bytes)
  (properties : List Property)

/-- When the row of a new edge is there. The record's label is not asked for. -/
structure Matchable (reader : Nat) (store : GraphStore FilePageStore) (fromNode : NodeId) (label : Bytes)
    (properties : List Property) : Prop where
  passes : store.nodeCount.toNat + 1 ≠ 2 ^ 64
  counted : fromNode.toNat ≤ store.nodeCount.toNat
  shown : Shown reader store store.nextEdgeId
  typed : typeText properties = some label

theorem created_walked (agreed : Agreed store)
    (fits : Fits hash store (.createEdge clock fromNode toNode label properties))
    (begins : (ExecutionContext.view reader store).node fromNode ≠ none)
    (ends : (ExecutionContext.view reader store).node toNode ≠ none) :
    let view := ExecutionContext.view reader (createEdge hash clock fromNode toNode label properties store).2
    (view.nodeCount.toNat + 1 ≠ 2 ^ 64 ∧ ∃ one other, Walked view label store.nextEdgeId one other) ↔
      Matchable reader store fromNode label properties := by
  intro view
  obtain ⟨⟨tips,wired⟩,tipped,noZero⟩ := agreed
  have touched := (createEdge_touches hash clock fromNode toNode label properties store).1
  have joins := (createEdge_wired hash clock fromNode toNode label properties fits.1 wired).joins
    store.nextEdgeId
  rw [Function.update_self] at joins
  have untold (record : EdgeRecord) : ¬Told store store.nextEdgeId record := fun told =>
    UInt64.lt_irrefl _ (tipped.issued store.nextEdgeId record told)
  obtain ⟨edge,filled⟩ : ∃ edge : EdgeRecord, edge = {
    id := store.nextEdgeId
    fromNode := fromNode
    toNode := toNode
    labelId := (hash label).toUInt32
    propertyCount := UInt32.ofNat properties.length
    timestamp := clock} := ⟨_,rfl⟩
  have read := createEdge_reads hash clock fromNode toNode label properties wired.isOpen edge filled
    (fits.2 _ (by rw [filled]; rfl))
  have told := @created_shown store reader _ store.nextEdgeId edge properties touched.versions read untold
  have nodes : view.node = _ := same_nodes (createEdge hash clock fromNode toNode label properties store).2
    touched.versions fun id => get_congr .node id store _ wired.placed touched.pages
      (touched.index .node id (by simp))
  have count : view.nodeCount = store.nodeCount :=
    createEdge_counts hash clock fromNode toNode label properties store
  have leaves (node : NodeId) : store.nextEdgeId ∈ view.outgoingEdges node ↔ fromNode = node :=
    (joins.outgoing node).trans (and_iff_right (get_placed .edge store.nextEdgeId _ _ read))
  rw [count]
  constructor
  · rintro ⟨passes,one,other,counted,-,⟨listed,found,seen,-,typed⟩,-⟩
    obtain rfl := (leaves one).mp listed
    obtain ⟨shown,rfl⟩ := (told found).mp seen
    exact ⟨passes,count ▸ counted.2,shown,(typed_edge label properties).mp typed⟩
  · rintro ⟨passes,counted,shown,typed⟩
    have positive : 1 ≤ fromNode.toNat := by
      by_contra zero
      have zero : fromNode = 0 := UInt64.toNat_inj.mp (by simpa using zero)
      rw [zero] at begins
      obtain ⟨found,seen⟩ := Option.ne_none_iff_exists'.mp begins
      exact (seen_kept reader store 0 found seen).elim (fun placed => placed noZero.unplaced)
        noZero.unversioned
    refine ⟨passes,fromNode,toNode,⟨positive,count ▸ counted⟩,nodes ▸ begins,⟨(leaves fromNode).mpr rfl,
      (edge,properties),(told _).mpr ⟨shown,rfl⟩,?_,(typed_edge label properties).mpr typed⟩,nodes ▸ ends⟩
    rw [filled]

theorem created_queryable (agreed : Agreed store) (listed : (outline store).Listed) (fromName edgeName toName : Bytes)
    (distinct : [fromName,edgeName,toName].Nodup)
    (fits : Fits hash store (.createEdge clock fromNode toNode label properties))
    (begins : (ExecutionContext.view reader store).node fromNode ≠ none)
    (ends : (ExecutionContext.view reader store).node toNode ≠ none) :
    let view := ExecutionContext.view reader (createEdge hash clock fromNode toNode label properties store).2
    (RowWith view store.nextEdgeId fromName edgeName toName label (fun _ => True) ↔
        Matchable reader store fromNode label properties) ∧
      ∀ key, RowWith view store.nextEdgeId fromName edgeName toName label
          (GivesFirst view edgeName key properties) ↔
        Matchable reader store fromNode label properties ∧ HoldsBytes properties key := by
  intro view
  have later : (outline (plain hash store (.createEdge clock fromNode toNode label properties))).Listed :=
    plain_listed hash store _ listed fits.1
  have walked := created_walked hash clock fromNode toNode label properties agreed fits begins ends
  have due := @row_walked view _ _ _ label distinct later.outgoing store.nextEdgeId
  refine ⟨(due _ fun _ _ => trivial).trans walked,fun key => ?_⟩
  by_cases content : HoldsBytes properties key
  · rw [and_iff_left content]
    exact (due _ fun bindings bound => (gives_bytes key properties bindings _ bound).mpr content).trans walked
  · refine iff_of_false ?_ fun both => content both.2
    rintro ⟨rows,-,row,-,bound,gives⟩
    exact content ((gives_bytes key properties row.bindings _ bound).mp gives)

end Created

/-- In every state, the pattern of a new edge's label has a row for the edge exactly if the edge has the
label as its type too, and then of its properties exactly those are right that have byte values. -/
theorem labels_queryable (hash : Bytes → UInt64) (file : Bytes) (versions : Bool) (wal : Option WALManager)
    (calls : List Call)
    (last : Guarded (GraphHistory.step hash) CountersLast
      (startedWith (FilePageStore.openFile file) versions wal) calls)
    (clock : UInt64) (fromNode toNode : NodeId) (label : Bytes) (properties : List Property) (reader : Nat)
    (fromName edgeName toName : Bytes) (distinct : [fromName,edgeName,toName].Nodup) :
    let store := after hash (startedWith (FilePageStore.openFile file) versions wal) calls
    let view := ExecutionContext.view reader (createEdge hash clock fromNode toNode label properties store).2
    Fits hash store (.createEdge clock fromNode toNode label properties) →
      (ExecutionContext.view reader store).node fromNode ≠ none →
      (ExecutionContext.view reader store).node toNode ≠ none →
      (RowWith view store.nextEdgeId fromName edgeName toName label (fun _ => True) ↔
        Matchable reader store fromNode label properties) ∧
      ∀ key, RowWith view store.nextEdgeId fromName edgeName toName label
          (GivesFirst view edgeName key properties) ↔
        Matchable reader store fromNode label properties ∧ HoldsBytes properties key :=
  created_queryable hash clock fromNode toNode label properties
    (after_agreed hash _ calls last (started_agreed file versions wal))
    (after_listed hash _ calls (started_listed _ _ wal) last) fromName edgeName toName distinct

def people : List GraphHistory.Operation := [
  .createNode [⟨ascii "name",.string (ascii "Alice")⟩,⟨ascii "age",.integer 30⟩],
  .createNode [⟨ascii "name",.string (ascii "Bob")⟩,⟨ascii "age",.integer 25⟩]]

/-- Two nodes on a new file. -/
def acquainted : GraphStore FilePageStore :=
  after (fun _ => 0) (startedWith (FilePageStore.openFile []) false none) (people.map Call.plain)

def acquaintance : CountedGraph := run (CountedGraph.step fun _ => 0) {} people

theorem acquainted_holds : Holds acquainted acquaintance ∧ acquainted.nodeCount = 2 := by
  have empty : Holds (fresh none none) {} := ⟨fresh_represents none none,rfl⟩
  have short : Guarded (CountedGraph.step fun _ => 0) Short {} people := by decide +kernel
  have one := plain_holds (fun _ => 0) _ empty short.1
  refine ⟨run_holds (fun _ => 0) people empty short,?_⟩
  change (run (plain fun _ => 0) (fresh none none) people).nodeCount = 2
  rw [people,run_cons,run_cons,run_nil,createNode_counts _ _ one,createNode_counts _ _ empty]
  rfl

theorem acquainted_last : Guarded (GraphHistory.step fun _ => 0) CountersLast
    (startedWith (FilePageStore.openFile []) false none) (people.map Call.plain) :=
  short_last (fun _ => 0) people (fresh_represents none none) (by decide +kernel)

theorem acquainted_live :
    (ExecutionContext.view 1 acquainted).node 1 ≠ none ∧ (ExecutionContext.view 1 acquainted).node 2 ≠ none := by
  rw [view_holds 1 acquainted_holds.1]
  decide +kernel

def weight : Property := ⟨ascii "weight",.float 0x3FE999999999999A⟩

/-- An edge with the label alone has no row, and the weight has no value. -/
theorem knows_unqueryable :
    let view := ExecutionContext.view 1 (createEdge (fun _ => 0) 0 1 2 (ascii "KNOWS") [weight] acquainted).2
    (ExecutionContext.view 1 acquainted).node 1 ≠ none ∧ (ExecutionContext.view 1 acquainted).node 2 ≠ none ∧
      ¬RowWith view acquainted.nextEdgeId (ascii "a") (ascii "r") (ascii "b") (ascii "KNOWS") (fun _ => True) ∧
      ¬RowWith view acquainted.nextEdgeId (ascii "a") (ascii "r") (ascii "b") (ascii "KNOWS")
        (GivesFirst view (ascii "r") (ascii "weight") [weight]) := by
  intro view
  have short : Short acquaintance (.createEdge 0 1 2 (ascii "KNOWS") [weight]) := by decide +kernel
  have exact := created_queryable (fun _ => 0) 0 1 2 (ascii "KNOWS") [weight]
    (after_agreed _ _ _ acquainted_last (started_agreed [] false none))
    (after_listed _ _ _ (started_listed _ none none) acquainted_last) (ascii "a") (ascii "r") (ascii "b")
    (by decide) (short_fits (fun _ => 0) _ acquainted_holds.1.represents short) acquainted_live.1
    acquainted_live.2
  have untyped : typeText [weight] ≠ some (ascii "KNOWS") := by decide
  exact ⟨acquainted_live.1,acquainted_live.2,fun row => untyped (exact.1.mp row).typed,
    fun row => untyped ((exact.2 _).mp row).1.typed⟩

/-- The label once more as the type, and a byte value. -/
def typed : List Property := [⟨ascii "type",.string (ascii "KNOWS")⟩,⟨ascii "seal",.bytes [1]⟩]

theorem labels_queryable_typed :
    let view := ExecutionContext.view 1 (createEdge (fun _ => 0) 0 1 2 (ascii "KNOWS") typed acquainted).2
    RowWith view acquainted.nextEdgeId (ascii "a") (ascii "r") (ascii "b") (ascii "KNOWS")
      (GivesFirst view (ascii "r") (ascii "seal") typed) := by
  have short : Short acquaintance (.createEdge 0 1 2 (ascii "KNOWS") typed) := by decide +kernel
  refine ((labels_queryable (fun _ => 0) [] false none (people.map Call.plain) acquainted_last 0 1 2
    (ascii "KNOWS") typed 1 (ascii "a") (ascii "r") (ascii "b") (by decide)
    (short_fits (fun _ => 0) _ acquainted_holds.1.represents short) acquainted_live.1 acquainted_live.2).2
      (ascii "seal")).mpr ⟨⟨?_,?_,?_,?_⟩,[1],by decide⟩
  · rw [show (after _ _ _).nodeCount = 2 from acquainted_holds.2]
    decide
  · rw [show (after _ _ _).nodeCount = 2 from acquainted_holds.2]
    decide
  · intro manager enabled
    rw [show (after _ _ _).mvccManager = none from acquainted_holds.1.unversioned] at enabled
    cases enabled
  · decide

end LoreDB.Query.Cypher
