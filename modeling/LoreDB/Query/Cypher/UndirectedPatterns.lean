import LoreDB.Query.Cypher.CompleteScans
import LoreDB.Query.Cypher.RangedPatterns
import LoreDB.Storage.EdgeTips

/-! Patterns of one edge without a direction. The edges in both lists of a node are followed to their
targets, so that an edge that arrives at a node leads from there to the node itself, and never back. -/
namespace LoreDB.Query.Cypher
open LoreDB.Storage LoreDB.Storage.GraphHistory LoreDB.Storage.GraphRefinement LoreDB.Storage.Outlines LoreDB.Storage.Wiring
  LoreDB.Storage.EdgeTips LoreDB.Library LoreDB.Library.History LoreDB.Transaction

def undirected (first second : Bytes) (edge : Edge) : Pattern where
  nodes := [{variableName := some first},{variableName := some second}]
  edges := [edge]
  shape := .inr Nat.one_lt_two

/-- One hop in either direction. The nodes have names, and the edge may have one of its own. -/
structure Undirected (first second : Bytes) (edge : Edge) : Prop where
  either : edge.directed = false
  least : edge.minHops = 1
  most : edge.maxHops = 1
  apart : first ≠ second
  notFirst : edge.variableName ≠ some first
  notSecond : edge.variableName ≠ some second

def RowFrom (first second : Bytes) (row : ResultRow) (fromNode toNode : NodeId) : Prop :=
  row.bindings first = some (.node fromNode) ∧ row.bindings second = some (.node toNode)

def HasRow (view : View) (first second : Bytes) (edge : Edge) (fromNode toNode : NodeId) : Prop :=
  ∃ rows, matchPattern (undirected first second edge) view = .value rows ∧
    ∃ row ∈ rows, RowFrom first second row fromNode toNode

/-- A live edge that satisfies the pattern joins the nodes in one of the two directions. It is the one
that the row names, where the pattern gives the edge a name. -/
def JoinedBy (view : View) (edge : Edge) (row : ResultRow) (one other : NodeId) : Prop :=
  ∃ edgeId found, view.edge edgeId = some found ∧ matchesEdgePattern edge found.2 = true ∧
    (found.1.fromNode = one ∧ found.1.toNode = other ∨ found.1.fromNode = other ∧ found.1.toNode = one) ∧
    ∀ name, edge.variableName = some name → row.bindings name = some (.edge edgeId)

/-- Rows come in both directions and follow edges. -/
structure Symmetric (view : View) (first second : Bytes) (edge : Edge) : Prop where
  reverses : ∀ one other, HasRow view first second edge one other ↔ HasRow view first second edge other one
  follows : ∀ rows, matchPattern (undirected first second edge) view = .value rows → ∀ row ∈ rows,
    ∀ one other, RowFrom first second row one other → JoinedBy view edge row one other

/-- No live edge leads from a live node to itself. -/
def Loopless (view : View) : Prop :=
  ∀ edgeId found, view.edge edgeId = some found → view.node found.1.fromNode ≠ none →
    found.1.fromNode ≠ found.1.toNode

/-- A live edge that satisfies the pattern is listed at a node that the scan finds, and its target is
live. -/
structure Crosses (view : View) (edge : Edge) (node : NodeId) (edgeId : EdgeId)
    (found : EdgeRecord × List Property) : Prop where
  counted : 1 ≤ node.toNat ∧ node.toNat ≤ view.nodeCount.toNat
  live : view.node node ≠ none
  listed : edgeId ∈ view.outgoingEdges node ∨ edgeId ∈ view.incomingEdges node
  read : view.edge edgeId = some found
  satisfies : matchesEdgePattern edge found.2 = true
  reaches : view.node found.1.toNode ≠ none

/-! Rows. -/

section Rows

variable {view : View} {first second : Bytes} {edge : Edge}

def crossingRow (first second : Bytes) (edge : Edge) (node : NodeId) (edgeId : EdgeId) (toNode : NodeId) :
    ResultRow :=
  ((ResultRow.bind first (.node node) {}).bindNamed edge.variableName (.edge edgeId)).bind second (.node toNode)

theorem bind_other {name other : Bytes} (binding : VariableBinding) (apart : other ≠ name) (row : ResultRow) :
    (row.bind name binding).bindings other = row.bindings other :=
  Function.update_of_ne apart ..

theorem named_matches (name : Bytes) (nodeId : NodeId) :
    matchesNodePattern {variableName := some name} nodeId view = true ↔ view.node nodeId ≠ none := by
  rw [matchesNodePattern]
  cases view.node nodeId with
  | none => simp
  | some found => exact iff_of_true rfl (by simp)

theorem mem_either (pattern : Undirected first second edge) (node : NodeId) (edgeId : EdgeId) :
    edgeId ∈ findEdgesByPattern edge node 0 view ↔
      (edgeId ∈ view.outgoingEdges node ∨ edgeId ∈ view.incomingEdges node) ∧
        ∃ found, view.edge edgeId = some found ∧ matchesEdgePattern edge found.2 = true := by
  simp [findEdgesByPattern,pattern.either,Option.any_eq_true,or_and_right]

theorem expandRow_crossing (pattern : Undirected first second edge) (node : NodeId) (edgeId : EdgeId)
    (row : ResultRow) :
    expandRow edge {variableName := some second} (ResultRow.bind first (.node node) {}) edgeId view = some row ↔
      ∃ found, view.edge edgeId = some found ∧ view.node found.1.toNode ≠ none ∧
        crossingRow first second edge node edgeId found.1.toNode = row := by
  unfold expandRow
  cases view.edge edgeId with
  | none => simp
  | some found =>
    obtain ⟨record,properties⟩ := found
    have unbound : ((ResultRow.bind first (.node node) {}).bindNamed edge.variableName
        (.edge edgeId)).bindings second = none := by
      rw [bindNamed_bindings,if_neg (fun same => pattern.notSecond same)]
      exact Function.update_of_ne (Ne.symm pattern.apart) ..
    simp only [Option.some.injEq,exists_eq_left']
    cases live : matchesNodePattern {variableName := some second} record.toNode view with
    | false =>
      have dead : ¬view.node record.toNode ≠ none := by simp [← named_matches second,live]
      simp [not_not.mp dead]
    | true =>
      simp only [if_true,unbound,Option.some.injEq,(named_matches second _).mp live,not_false_iff,true_and,
        ne_eq]
      rfl

theorem matchPattern_undirected (pattern : Undirected first second edge) :
    matchPattern (undirected first second edge) view =
      (findNodesByPattern {variableName := some first} view).map fun ids =>
        expandResults (ids.map fun nodeId => ResultRow.bind first (.node nodeId) {}) first edge
          {variableName := some second} view := by
  have path : matchPattern (undirected first second edge) view =
      (matchNode {variableName := some first} view).bind fun rows =>
        expandPath [edge] [{variableName := some first},{variableName := some second}] rows view := by
    rw [matchPattern]
    simp only [undirected]
    rw [if_neg (by simp [pattern.least,pattern.most])]
  rw [path,matchNode]
  cases findNodesByPattern {variableName := some first} view with
  | value ids => exact expandPath_cons edge [] {variableName := some first} _ [] _ first rfl rfl (by simp)
  | error e => rfl
  | thrown what => rfl
  | endless => rfl

theorem matched_iff (pattern : Undirected first second edge) (rows : ResultSet) :
    matchPattern (undirected first second edge) view = .value rows ↔ view.nodeCount.toNat + 1 ≠ 2 ^ 64 ∧
      expandResults ((scannedIds {variableName := some first} view).map fun nodeId =>
        ResultRow.bind first (.node nodeId) {}) first edge {variableName := some second} view = rows := by
  rw [matchPattern_undirected pattern]
  by_cases largest : view.nodeCount.toNat + 1 = 2 ^ 64
  · rw [scan_endless _ largest]
    exact iff_of_false (fun ended => by cases ended) fun ends => ends.1 largest
  · rw [scan_ends _ largest,Outcome.map,Outcome.bind,Outcome.value.injEq]
    exact (and_iff_right largest).symm

theorem mem_rows (pattern : Undirected first second edge) (rows : ResultSet)
    (matched : matchPattern (undirected first second edge) view = .value rows) (row : ResultRow) :
    row ∈ rows ↔ ∃ node edgeId found, Crosses view edge node edgeId found ∧
      crossingRow first second edge node edgeId found.1.toNode = row := by
  obtain ⟨-,rfl⟩ := (matched_iff pattern rows).mp matched
  rw [expandResults,List.mem_flatMap]
  have bound (node : NodeId) : (ResultRow.bind first (.node node) {}).bindings first = some (.node node) :=
    Function.update_self ..
  constructor
  · rintro ⟨start,among,expands⟩
    obtain ⟨node,scanned,rfl⟩ := List.mem_map.mp among
    obtain ⟨counted,live⟩ := (mem_scannedIds ..).mp scanned
    rw [bound] at expands
    obtain ⟨edgeId,listed,grown⟩ := List.mem_filterMap.mp expands
    obtain ⟨listed,found,read,satisfies⟩ := (mem_either pattern node edgeId).mp listed
    obtain ⟨found',read',reaches,same⟩ := (expandRow_crossing pattern node edgeId row).mp grown
    obtain rfl := Option.some.inj (read.symm.trans read')
    exact ⟨node,edgeId,found,⟨counted,(named_matches ..).mp live,listed,read,satisfies,reaches⟩,same⟩
  · rintro ⟨node,edgeId,found,crosses,same⟩
    refine ⟨_,List.mem_map.mpr ⟨node,(mem_scannedIds ..).mpr ⟨crosses.counted,?_⟩,rfl⟩,?_⟩
    · exact (named_matches ..).mpr crosses.live
    · rw [bound]
      refine List.mem_filterMap.mpr ⟨edgeId,(mem_either pattern node edgeId).mpr ⟨crosses.listed,found,?_⟩,?_⟩
      · exact ⟨crosses.read,crosses.satisfies⟩
      · exact (expandRow_crossing pattern node edgeId row).mpr ⟨found,crosses.read,crosses.reaches,same⟩

theorem crossing_from (pattern : Undirected first second edge) (node : NodeId) (edgeId : EdgeId)
    (toNode one other : NodeId) :
    RowFrom first second (crossingRow first second edge node edgeId toNode) one other ↔
      node = one ∧ toNode = other := by
  have source : (crossingRow first second edge node edgeId toNode).bindings first = some (.node node) := by
    rw [crossingRow,bind_other _ pattern.apart,bindNamed_bindings,if_neg pattern.notFirst]
    exact Function.update_self ..
  have target : (crossingRow first second edge node edgeId toNode).bindings second = some (.node toNode) :=
    Function.update_self ..
  rw [RowFrom,source,target]
  simp

/-- The rows lead from the nodes of a crossing to the target of its edge. -/
theorem hasRow_iff (pattern : Undirected first second edge) (one other : NodeId) :
    HasRow view first second edge one other ↔ view.nodeCount.toNat + 1 ≠ 2 ^ 64 ∧
      ∃ edgeId found, Crosses view edge one edgeId found ∧ found.1.toNode = other := by
  constructor
  · rintro ⟨rows,matched,row,among,fromRow⟩
    obtain ⟨node,edgeId,found,crosses,rfl⟩ := (mem_rows pattern rows matched row).mp among
    obtain ⟨rfl,ends⟩ := (crossing_from pattern ..).mp fromRow
    exact ⟨((matched_iff pattern rows).mp matched).1,edgeId,found,crosses,ends⟩
  · rintro ⟨passes,edgeId,found,crosses,rfl⟩
    have matched := (@matched_iff view _ _ _ pattern _).mpr ⟨passes,rfl⟩
    refine ⟨_,matched,_,(mem_rows pattern _ matched _).mpr ⟨one,edgeId,found,crosses,rfl⟩,?_⟩
    exact (crossing_from pattern ..).mpr ⟨rfl,rfl⟩

end Rows

/-! Symmetry. -/

/-- Where the lists name an edge to a live node, they name it at its ends. -/
structure Tied (view : View) : Prop where
  leaves : ∀ node edgeId found, edgeId ∈ view.outgoingEdges node → view.edge edgeId = some found →
    view.node found.1.toNode ≠ none → found.1.fromNode = node ∧ edgeId ∈ view.incomingEdges found.1.toNode
  arrives : ∀ node edgeId found, edgeId ∈ view.incomingEdges node → view.edge edgeId = some found →
    view.node found.1.toNode ≠ none → found.1.toNode = node

section Law

variable {view : View} {first second : Bytes} {edge : Edge}

theorem symmetric_loop (pattern : Undirected first second edge) (loopless : Loopless view)
    (symmetric : Symmetric view first second edge) (node : NodeId)
    (row : HasRow view first second edge node node) : False := by
  obtain ⟨-,_,_,crosses,-⟩ := (hasRow_iff pattern node node).mp row
  obtain ⟨rows,matched,row,among,fromRow⟩ := row
  obtain ⟨edgeId,found,read,-,ends,-⟩ := symmetric.follows rows matched row among node node fromRow
  have loop : found.1.fromNode = node ∧ found.1.toNode = node := ends.elim id id
  exact loopless edgeId found read (loop.1 ▸ crosses.live) (loop.1.trans loop.2.symm)

theorem symmetric_iff (pattern : Undirected first second edge) (tied : Tied view) (loopless : Loopless view) :
    Symmetric view first second edge ↔ view.nodeCount.toNat + 1 = 2 ^ 64 ∨
      ∀ node edgeId found, ¬Crosses view edge node edgeId found := by
  constructor
  · intro symmetric
    by_contra neither
    rw [not_or] at neither
    obtain ⟨passes,some⟩ := neither
    push Not at some
    obtain ⟨node,edgeId,found,crosses⟩ := some
    rcases crosses.listed with leaves | arrives
    · obtain ⟨-,back⟩ := tied.leaves node edgeId found leaves crosses.read crosses.reaches
      have there : HasRow view first second edge node found.1.toNode :=
        (hasRow_iff pattern ..).mpr ⟨passes,edgeId,found,crosses,rfl⟩
      obtain ⟨-,other,_,reversed,-⟩ := (hasRow_iff pattern ..).mp ((symmetric.reverses ..).mp there)
      refine symmetric_loop pattern loopless symmetric found.1.toNode
        ((hasRow_iff pattern ..).mpr ⟨passes,edgeId,found,?_,rfl⟩)
      exact ⟨reversed.counted,crosses.reaches,.inr back,crosses.read,crosses.satisfies,crosses.reaches⟩
    · have ends := tied.arrives node edgeId found arrives crosses.read crosses.reaches
      exact symmetric_loop pattern loopless symmetric node
        ((hasRow_iff pattern ..).mpr ⟨passes,edgeId,found,crosses,ends⟩)
  · intro none
    have unmatched (one other : NodeId) : ¬HasRow view first second edge one other := by
      rw [hasRow_iff pattern]
      rintro ⟨passes,edgeId,found,crosses,-⟩
      exact none.elim passes fun none => none one edgeId found crosses
    refine ⟨fun one other => iff_of_false (unmatched one other) (unmatched other one),?_⟩
    intro rows matched row among one other fromRow
    exact absurd ⟨rows,matched,row,among,fromRow⟩ (unmatched one other)

end Law

/-! Stores. -/

theorem agreed_tied (txId : Nat) (store : GraphStore FilePageStore) (agreed : Agreed store) :
    Tied (ExecutionContext.view txId store) := by
  obtain ⟨⟨ends,wired⟩,tipped,noZero⟩ := agreed
  have some (nodeId : NodeId) (live : (ExecutionContext.view txId store).node nodeId ≠ none) : nodeId ≠ 0 := by
    rintro rfl
    obtain ⟨found,read⟩ := Option.ne_none_iff_exists'.mp live
    exact (seen_kept txId store 0 found read).elim (fun placed => placed noZero.unplaced) noZero.unversioned
  have listed (edgeId : EdgeId) (found : EdgeRecord × List Property)
      (read : (ExecutionContext.view txId store).edge edgeId = .some found) (target : found.1.toNode ≠ 0) :
      (∀ node, edgeId ∈ store.outgoingEdges node → found.1.fromNode = node) ∧
        ∀ node, edgeId ∈ store.incomingEdges node → found.1.toNode = node := by
    rcases read_told .edge txId store edgeId found read with paged | versioned
    · have seen := (wired.joins edgeId).seen found paged
      exact ⟨fun node member => (congrArg Prod.fst seen).trans (((wired.joins edgeId).outgoing node).mp member).2,
        fun node member => (congrArg Prod.snd seen).trans (((wired.joins edgeId).incoming node).mp member).2⟩
    · exact ⟨tipped.outgoing edgeId _ versioned target,tipped.incoming edgeId _ versioned target⟩
  refine ⟨fun node edgeId found member read live => ?_,fun node edgeId found member read live => ?_⟩
  · have ties := listed edgeId found read (some _ live)
    have placed := (((wired.joins edgeId).outgoing node).mp member).1
    have back : edgeId ∈ store.incomingEdges (ends edgeId).2 :=
      ((wired.joins edgeId).incoming _).mpr ⟨placed,rfl⟩
    refine ⟨ties.1 node member,?_⟩
    change edgeId ∈ store.incomingEdges found.1.toNode
    rw [ties.2 _ back]
    exact back
  · exact (listed edgeId found read (some _ live)).2 node member

/-- In every state of a store in which nothing leads to itself, an undirected pattern is symmetric if and
only if it has no rows: the scan for its first node does not end, or no edge that it asks for crosses. -/
theorem undirected_symmetric (hash : Bytes → UInt64) (file : Bytes) (versions : Bool)
    (wal : Option WALManager) (calls : List Call)
    (last : Guarded (GraphHistory.step hash) CountersLast
      (startedWith (FilePageStore.openFile file) versions wal) calls) (txId : Nat) (first second : Bytes)
    (edge : Edge) (pattern : Undirected first second edge)
    (loopless : Loopless (ExecutionContext.view txId
      (after hash (startedWith (FilePageStore.openFile file) versions wal) calls))) :
    Symmetric (ExecutionContext.view txId
        (after hash (startedWith (FilePageStore.openFile file) versions wal) calls)) first second edge ↔
      (ExecutionContext.view txId (after hash (startedWith (FilePageStore.openFile file) versions wal)
        calls)).nodeCount.toNat + 1 = 2 ^ 64 ∨
      ∀ node edgeId found, ¬Crosses (ExecutionContext.view txId
        (after hash (startedWith (FilePageStore.openFile file) versions wal) calls)) edge node edgeId found :=
  symmetric_iff pattern (agreed_tied txId _
    (after_agreed hash _ calls last (started_agreed file versions wal))) loopless

/-- The counters of short plain operations are those of the graph that they build. -/
theorem short_last (hash : Bytes → UInt64) (operations : List Operation) {store : GraphStore FilePageStore}
    {model : CountedGraph} (represents : Represents store model)
    (short : Guarded (CountedGraph.step hash) Short model operations) :
    Guarded (GraphHistory.step hash) CountersLast store (operations.map Call.plain) := by
  induction operations generalizing store model with
  | nil => trivial
  | cons operation rest ih =>
    have fits := short_fits hash operation represents short.1
    refine ⟨?_,ih (step_simulates hash operation represents fits).2 short.2⟩
    rintro _ rfl
    exact fits.1

/-! Two edges in a row. -/

def neighbours : Edge := {variableName := some (ascii "r"), directed := false}

theorem neighbours_undirected : Undirected (ascii "a") (ascii "b") neighbours where
  either := rfl
  least := rfl
  most := rfl
  apart := by decide
  notFirst := by decide
  notSecond := by decide

theorem row_loopless : Loopless (graphView rowGraph 3) := by
  intro edgeId found read _
  have apart : ∀ edge ∈ rowGraph.graph.edges, edge.source ≠ edge.target := by decide +kernel
  have told := ok_of_toOption read
  rw [readEdge] at told
  cases known : rowGraph.graph.edge? edgeId with
  | none =>
    rw [known] at told
    cases told
  | some edge =>
    rw [known] at told
    obtain rfl := Except.ok.inj told
    exact apart edge ((rowGraph.graph.edge?_some edgeId edge).mp known).1

/-- The pattern that begins at the target of an edge has a row from there to itself. -/
theorem row_asymmetric : Loopless (ExecutionContext.view 1 rowStore) ∧
    ¬Symmetric (ExecutionContext.view 1 rowStore) (ascii "a") (ascii "b") neighbours := by
  rw [rowStore_view]
  refine ⟨row_loopless,fun symmetric => ?_⟩
  refine symmetric_loop neighbours_undirected row_loopless symmetric 2 ((hasRow_iff neighbours_undirected ..).mpr
    ⟨by decide,1,_,⟨⟨by decide,by decide⟩,?_,?_,rfl,?_,?_⟩,rfl⟩)
  all_goals decide +kernel

theorem undirected_symmetric_row :
    Symmetric (ExecutionContext.view 1 (after (fun _ => 0) (startedWith (FilePageStore.openFile []) false none)
        (inARow.map Call.plain))) (ascii "a") (ascii "b") neighbours ↔
      (ExecutionContext.view 1 (after (fun _ => 0) (startedWith (FilePageStore.openFile []) false none)
        (inARow.map Call.plain))).nodeCount.toNat + 1 = 2 ^ 64 ∨
      ∀ node edgeId found, ¬Crosses (ExecutionContext.view 1 (after (fun _ => 0)
        (startedWith (FilePageStore.openFile []) false none) (inARow.map Call.plain))) neighbours node edgeId
          found := by
  refine undirected_symmetric (fun _ => 0) [] false none _ ?_ 1 _ _ neighbours neighbours_undirected ?_
  · exact short_last (fun _ => 0) inARow (fresh_represents none none) (by decide +kernel)
  · change Loopless (ExecutionContext.view 1 rowStore)
    rw [rowStore_view]
    exact row_loopless

end LoreDB.Query.Cypher
