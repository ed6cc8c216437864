import LoreDB.Cli.Repl
import LoreDB.Query.Cypher.QueryOperations
import Mathlib.Data.List.Forall2

/-! What the shell finds by the text of a property. Only the command that creates a node enters texts in the index,
once for each time that they are given. Queries never look at the index, so it is right only as long as they
change no text. -/
namespace LoreDB.Cli.REPL
open LoreDB.Storage LoreDB.Storage.GraphHistory LoreDB.Query LoreDB.Query.Cypher LoreDB.Library
  LoreDB.Library.History GraphStore RecordSerializer QueryExecutor
open LoreDB.Storage.GraphRefinement hiding Graph

inductive Call where
  | createNode (args : Bytes)
  | cypher (query : Query)

def step (library : StandardLibrary) (repl : REPL) : Call → REPL
  | .createNode args => (repl.cmdCreateNode args).2
  | .cypher query => (repl.cmdCypher library query).2

/-- A node that can be read and has the text under the key. -/
def Bears (key value : Bytes) (store : Graph) (id : NodeId) : Prop :=
  ∃ found, (getNode id store).1 = .ok found ∧ ⟨key,.string value⟩ ∈ found.2

/-- The row of a node, with what is read of it. -/
def Shows (store : Graph) (id : NodeId) (row : List Bytes) : Prop :=
  ∃ found, (getNode id store).1 = .ok found ∧ found.1.id = id ∧ row = nodeRow found

/-- One row for each node that has the text under the key, and no other row. -/
def FindsExactly (key value : Bytes) (index : SimpleIndexManager) (store : Graph) : Prop :=
  ∃ ids : List NodeId, ids.Nodup ∧ (∀ id, id ∈ ids ↔ Bears key value store id) ∧
    List.Forall₂ (Shows store) ids (getNodesByProperty key value index store).rows

def Coherent (repl : REPL) : Prop :=
  ∀ key value, FindsExactly key value repl.indexManager repl.database.graphStore

/-- A new node has no text, and an old one keeps those that it has. -/
def KeepsTexts (store : Graph) : Operation → Prop
  | .createNode properties => ∀ key value, ⟨key,.string value⟩ ∉ properties
  | .updateNode id properties => ∀ found, (getNode id store).1 = .ok found →
    ∀ key value, ⟨key,.string value⟩ ∈ properties ↔ ⟨key,.string value⟩ ∈ found.2
  | _ => True

/-- An operation whose record fits its page, and after which the index is as right as it was. -/
def Unnoticed (store : Graph) (operation : Operation) : Prop :=
  Fits unhashed store operation ∧ KeepsTexts store operation

/-- A created node fits its page and is given no property twice. A query writes nothing that the index would have
to notice. -/
def SparesIndex (repl : REPL) : Call → Prop
  | .createNode args => args ≠ [] → (parseProperties args).Nodup ∧
    Fits unhashed repl.database.graphStore (.createNode (parseProperties args))
  | .cypher query => Allows Unnoticed query repl.database

/-- The entries of the nodes of a graph are their texts, each of them once. -/
structure Indexed (index : SimpleIndexManager) (model : CountedGraph) : Prop where
  texts : ∀ id properties, model.graph.nodes id = some properties → ∀ key value,
    (index.findNodesByProperty key value).count id = if ⟨key,.string value⟩ ∈ properties then 1 else 0
  issued : ∀ key value, ∀ id ∈ index.findNodesByProperty key value, id < model.nextNodeId

/-- A store without versions with a graph whose nodes are indexed. -/
def Kept (index : SimpleIndexManager) (store : Graph) : Prop :=
  ∃ model, Holds store model ∧ Indexed index model

abbrev InStep (repl : REPL) : Prop := Kept repl.indexManager repl.database.graphStore

variable {index : SimpleIndexManager} {model : CountedGraph} {store : Graph}

theorem bears_iff (key value : Bytes) (id : NodeId) (holds : Holds store model) :
    Bears key value store id ↔ ∃ properties, model.graph.nodes id = some properties ∧
      ⟨key,.string value⟩ ∈ properties := by
  unfold Bears
  rw [holds.represents.tells.nodes,readNode]
  cases model.graph.nodes id with
  | none =>
    constructor
    · rintro ⟨_,absurd,-⟩
      cases absurd
    · rintro ⟨_,absurd,-⟩
      cases absurd
  | some properties =>
    constructor
    · rintro ⟨found,read,member⟩
      cases read
      exact ⟨properties,rfl,member⟩
    · rintro ⟨_,same,member⟩
      cases same
      exact ⟨_,rfl,member⟩

/-- Ids without a node have no row. -/
theorem rows_shown (holds : Holds store model) (ids : List NodeId) :
    List.Forall₂ (Shows store) (ids.filter fun id => (model.graph.nodes id).isSome) (batchGetNodes ids store).rows := by
  induction ids with
  | nil => exact .nil
  | cons id rest ih =>
    have read := holds.represents.tells.nodes id
    unfold batchGetNodes nodesToResult at ih ⊢
    dsimp only at ih ⊢
    rw [readNode] at read
    cases held : model.graph.nodes id with
    | none =>
      rw [held] at read
      rw [List.filter_cons_of_neg (by rw [held]; exact Bool.false_ne_true),
        List.filterMap_cons_none (by rw [read]; rfl)]
      exact ih
    | some properties =>
      rw [held] at read
      rw [List.filter_cons_of_pos (by rw [held]; rfl),List.filterMap_cons_some (by rw [read]; rfl),List.map_cons]
      exact .cons ⟨_,read,rfl,rfl⟩ ih

theorem indexed_finds (key value : Bytes) (holds : Holds store model) (indexed : Indexed index model) :
    FindsExactly key value index store := by
  refine ⟨(index.findNodesByProperty key value).filter fun id => (model.graph.nodes id).isSome,?_,fun id => ?_,
    rows_shown holds _⟩
  · rw [List.nodup_iff_count_le_one]
    intro id
    cases held : model.graph.nodes id with
    | none =>
      rw [List.count_eq_zero_of_not_mem fun member => by simp [held] at member]
      exact Nat.zero_le 1
    | some properties =>
      rw [List.count_filter (by rw [held]; rfl),indexed.texts id properties held]
      split
      · exact Nat.le_refl 1
      · exact Nat.zero_le 1
  · rw [bears_iff key value id holds,List.mem_filter,Option.isSome_iff_exists]
    constructor
    · rintro ⟨entered,properties,held⟩
      have once := indexed.texts id properties held key value
      refine ⟨properties,held,?_⟩
      by_contra other
      rw [if_neg other] at once
      exact List.count_eq_zero.mp once entered
    · rintro ⟨properties,held,member⟩
      have once := indexed.texts id properties held key value
      rw [if_pos member] at once
      exact ⟨List.count_pos_iff.mp (by omega),properties,held⟩

theorem fits_holds (operation : Operation) (holds : Holds store model) (fits : Fits unhashed store operation) :
    Holds (plain unhashed store operation) (model.step unhashed operation) where
  represents := (step_simulates unhashed operation holds.represents fits).2
  unversioned := (plain_touches unhashed store operation).versions.trans holds.unversioned

/-- The new node is entered once for each of its texts, and its id is found nowhere else. -/
theorem create_indexed {later : SimpleIndexManager} (properties : List Property) (counts : model.nextNodeId + 1 ≠ 0)
    (indexed : Indexed index model) (entered : ∀ key value, later.findNodesByProperty key value =
      index.findNodesByProperty key value ++
        List.replicate (if ⟨key,.string value⟩ ∈ properties then 1 else 0) model.nextNodeId) :
    Indexed later (model.step unhashed (.createNode properties)) := by
  have next : model.nextNodeId < model.nextNodeId + 1 := by
    rw [UInt64.lt_iff_toNat_lt,next_toNat model.nextNodeId counts]
    exact Nat.lt_succ_self _
  constructor
  · intro id given held key value
    rw [entered,List.count_append]
    by_cases here : id = model.nextNodeId
    · subst here
      have same : some properties = some given := by
        rw [← held]
        exact (Function.update_self model.nextNodeId (some properties) model.graph.nodes).symm
      obtain rfl := Option.some.inj same
      have unissued : model.nextNodeId ∉ index.findNodesByProperty key value := fun member =>
        UInt64.lt_irrefl _ (indexed.issued key value _ member)
      rw [List.count_eq_zero.mpr unissued,List.count_replicate_self,Nat.zero_add]
    · have old : model.graph.nodes id = some given := (Function.update_of_ne here _ _).symm.trans held
      rw [indexed.texts id given old,List.count_eq_zero.mpr fun member => here (List.eq_of_mem_replicate member),
        Nat.add_zero]
  · intro key value id member
    rw [entered,List.mem_append] at member
    rcases member with old | new
    · exact UInt64.lt_trans (indexed.issued key value id old) next
    · rw [List.eq_of_mem_replicate new]
      exact next

theorem update_indexed (id : NodeId) (properties : List Property) (indexed : Indexed index model)
    (same : ∀ old, model.graph.nodes id = some old →
      ∀ key value, ⟨key,.string value⟩ ∈ properties ↔ ⟨key,.string value⟩ ∈ old) :
    Indexed index (model.step unhashed (.updateNode id properties)) := by
  unfold CountedGraph.step
  dsimp only
  split
  · exact indexed
  · rename_i known
    obtain ⟨old,held⟩ := Option.ne_none_iff_exists'.mp known
    refine ⟨fun other given found key value => ?_,indexed.issued⟩
    by_cases here : other = id
    · subst here
      have written : some properties = some given := by
        rw [← found]
        exact (Function.update_self other (some properties) model.graph.nodes).symm
      obtain rfl := Option.some.inj written
      rw [indexed.texts other old held]
      exact if_congr (same old held key value).symm rfl rfl
    · exact indexed.texts other given ((Function.update_of_ne here _ _).symm.trans found) key value

theorem delete_indexed (id : NodeId) (indexed : Indexed index model) :
    Indexed index (model.step unhashed (.deleteNode id)) := by
  unfold CountedGraph.step
  dsimp only
  split
  · exact indexed
  · refine ⟨fun other given found key value => ?_,indexed.issued⟩
    by_cases here : other = id
    · subst here
      have gone : none = some given := by
        rw [← found]
        exact (Function.update_self other none model.graph.nodes).symm
      cases gone
    · exact indexed.texts other given ((Function.update_of_ne here _ _).symm.trans found) key value

theorem plain_kept (operation : Operation) (unnoticed : Unnoticed store operation) (kept : Kept index store) :
    Kept index (plain unhashed store operation) := by
  obtain ⟨model,holds,indexed⟩ := kept
  obtain ⟨fits,texts⟩ := unnoticed
  refine ⟨_,fits_holds operation holds fits,?_⟩
  cases operation with
  | createNode properties =>
    refine create_indexed properties (holds.represents.nodeIds ▸ fits.1) indexed fun key value => ?_
    rw [if_neg (texts key value),List.replicate_zero,List.append_nil]
  | updateNode id properties =>
    refine update_indexed id properties indexed fun old held => ?_
    exact texts (nodeRecord id old,old) (by rw [holds.represents.tells.nodes,readNode,held]; rfl)
  | deleteNode id => exact delete_indexed id indexed
  | createEdge clock fromNode toNode label properties =>
    refine ⟨fun id given held => indexed.texts id given ?_,indexed.issued⟩
    rwa [CountedGraph.step,PropertyGraph.addEdge_nodes] at held
  | updateEdge id properties => exact ⟨indexed.texts,indexed.issued⟩
  | deleteEdge id => exact ⟨indexed.texts,indexed.issued⟩

theorem cmdCreateNode_empty (repl : REPL) : (repl.cmdCreateNode []).2 = repl := rfl

/-- A node that fits its page is stored, and its texts are entered. -/
theorem cmdCreateNode_enters (args : Bytes) (given : args ≠ []) (repl : REPL)
    (represents : Represents repl.database.graphStore model)
    (fits : Fits unhashed repl.database.graphStore (.createNode (parseProperties args))) :
    (repl.cmdCreateNode args).2 = {
      database := {repl.database with
        graphStore := plain unhashed repl.database.graphStore (.createNode (parseProperties args))}
      indexManager := indexProperties model.nextNodeId (parseProperties args) repl.indexManager} := by
  have created := (step_simulates unhashed _ represents fits).1
  rw [answer] at created
  rw [cmdCreateNode,if_neg (by simpa using given),plain]
  dsimp only
  cases done : GraphStore.createNode (parseProperties args) repl.database.graphStore with
  | mk result store =>
    rw [done] at created
    cases result with
    | error e => cases created
    | ok nodeId =>
      obtain rfl : nodeId = model.nextNodeId := Except.ok.inj created
      rfl

/-- Properties without repetitions are entered once. -/
theorem create_kept (args : Bytes) (repl : REPL) (spares : repl.SparesIndex (.createNode args))
    (kept : repl.InStep) : (repl.cmdCreateNode args).2.InStep := by
  by_cases empty : args = []
  · subst empty
    rw [cmdCreateNode_empty]
    exact kept
  · obtain ⟨once,fits⟩ := spares empty
    obtain ⟨model,holds,indexed⟩ := kept
    rw [cmdCreateNode_enters args empty repl holds.represents fits]
    refine ⟨_,fits_holds _ holds fits,create_indexed (parseProperties args) (holds.represents.nodeIds ▸ fits.1) indexed
      fun key value => ?_⟩
    rw [indexProperties_found]
    congr 2
    split
    · rename_i member
      exact List.count_eq_one_of_mem once member
    · rename_i absent
      exact List.count_eq_zero.mpr absent

theorem cypher_kept (library : StandardLibrary) (query : Query) (repl : REPL)
    (spares : repl.SparesIndex (.cypher query)) (kept : repl.InStep) : (repl.cmdCypher library query).2.InStep := by
  have deletes (bound : VariableBinding) (operation : Operation) (made : operation ∈ deleteOperation bound)
      (store : Cypher.Graph) (held : Kept repl.indexManager store) :
      Kept repl.indexManager (plain unhashed store operation) := by
    refine plain_kept operation ?_ held
    cases bound with
    | node nodeId =>
      cases made
      exact ⟨⟨trivial,fun _ absurd => nomatch absurd⟩,trivial⟩
    | edge edgeId =>
      cases made
      exact ⟨⟨trivial,fun _ absurd => nomatch absurd⟩,trivial⟩
    | literal value => cases made
  exact executeQuery_keeps (fun store ⟨_,holds,_⟩ => holds.idle) library query
    (fun store operation unnoticed held => plain_kept operation unnoticed held) deletes kept spares

theorem step_kept (library : StandardLibrary) (call : Call) (repl : REPL) (spares : repl.SparesIndex call)
    (kept : repl.InStep) : (repl.step library call).InStep := by
  cases call with
  | createNode args => exact create_kept args repl spares kept
  | cypher query => exact cypher_kept library query repl spares kept

theorem opened_represents (file : Bytes) : Represents (opened file).database.graphStore {} where
  tells := {
    isOpen := rfl
    placed := fun kind _ _ found => by cases kind <;> cases found
    nodes := fun _ => rfl
    edges := fun _ => rfl
    indexed := fun _ _ => rfl}
  nodeIds := rfl
  edgeIds := rfl
  outgoing _ := rfl
  incoming _ := rfl
  issued _ member := by cases member
  few := by decide
  count := rfl

theorem empty_indexed : Indexed {} {} where
  texts _ _ held := by cases held
  issued _ _ _ member := by cases member

theorem opened_kept (file : Bytes) : (opened file).InStep :=
  ⟨{},⟨opened_represents file,rfl⟩,empty_indexed⟩

theorem kept_coherent (repl : REPL) (kept : repl.InStep) : repl.Coherent := by
  obtain ⟨model,holds,indexed⟩ := kept
  exact fun key value => indexed_finds key value holds indexed

/-- As long as no node is given a property twice and queries change no text of a node, in every state of the shell
each text is found exactly at the nodes that have it. -/
theorem index_stays_coherent (library : StandardLibrary) (file : Bytes) (calls : List Call)
    (spares : Guarded (step library) SparesIndex (opened file) calls) :
    Always (step library) Coherent (opened file) calls :=
  always_follows InStep (fun repl call => step_kept library call repl) kept_coherent (opened file) calls spares
    (opened_kept file)

section Runs

/-- `CREATE (n {key: value})`. -/
def creationClause (key : String) (value : Cypher.PropertyValue) : CreateClause where
  patterns := [{
    nodes := [{variableName := some (ascii "n"), properties := AList.insert (ascii key) value ∅}]
    shape := .inr (by simp)}]

def creation (key : String) (value : Cypher.PropertyValue) : Query := {createClause := some (creationClause key value)}

/-- `MATCH (m) DELETE m`. -/
def deletion : Query := {matchClause := some everyNode, deleteClause := some {variableNames := [ascii "m"]}}

def created (key : String) (value : Cypher.PropertyValue) : Operation := .createNode [⟨ascii key,toStorage value⟩]

theorem creation_allowed {allowed : Cypher.Graph → Operation → Prop} (key : String) (value : Cypher.PropertyValue)
    (db : Database) (first : allowed db.graphStore (created key value)) : Allows allowed (creation key value) db where
  creates clause found := by
    cases found
    exact ⟨first,trivial⟩
  sets _ _ _ absurd := by cases absurd

theorem deletion_allowed (allowed : Cypher.Graph → Operation → Prop) (db : Database) : Allows allowed deletion db where
  creates _ absurd := by cases absurd
  sets _ _ _ _ absurd := by cases absurd

theorem creation_written (key : String) (value : Cypher.PropertyValue) (txId : Nat) (holds : Holds store model)
    (fits : Fits unhashed store (created key value)) :
    executeCreate (creationClause key value) txId store =
      (.value (counted ["created_nodes","created_edges"] [1,0]),plain unhashed store (created key value)) := by
  have succeeded := (step_simulates unhashed _ holds.represents fits).1
  rw [created,answer] at succeeded
  have written : createNodeFromPattern
      {variableName := some (ascii "n"), properties := AList.insert (ascii key) value ∅} txId store =
        (some (.ok model.nextNodeId),plain unhashed store (created key value)) := by
    rw [createNodeFromPattern,ExecutionContext.createNode,chosen_plain _ _ store holds.idle]
    exact Prod.ext (congrArg some succeeded) rfl
  unfold executeCreate createNodes creationClause
  simp only [List.flatMap_cons,List.flatMap_nil,List.append_nil,forEach,written]
  rfl

/-- The query succeeds, and the index is left as it is. -/
theorem creation_runs (library : StandardLibrary) (key : String) (value : Cypher.PropertyValue) (repl : REPL)
    (holds : Holds repl.database.graphStore model)
    (fits : Fits unhashed repl.database.graphStore (created key value)) :
    (∃ result, (repl.cmdCypher library (creation key value)).1 = some (.ok result)) ∧
      (repl.cmdCypher library (creation key value)).2.indexManager = repl.indexManager ∧
      (repl.cmdCypher library (creation key value)).2.database.graphStore =
        plain unhashed repl.database.graphStore (created key value) := by
  have begun : repl.database.beginTransaction.2.graphStore = repl.database.graphStore := begun_holds holds
  have later := (fits_holds _ holds fits).idle
  have written := creation_written key value repl.database.beginTransaction.1.id holds fits
  rw [← begun] at written later ⊢
  have ran : executeQuery (graphExecutors library) (creation key value) repl.database =
      succeed repl.database.beginTransaction.1.id (counted ["created_nodes","created_edges"] [1,0])
        {repl.database.beginTransaction.2 with
          graphStore := plain unhashed repl.database.beginTransaction.2.graphStore (created key value)} := by
    change attempt _ (.writing (executeCreate (creationClause key value))
      (executeCreate_tables (creationClause key value))) _ _ = _
    unfold attempt Action.writing
    simp only [written]
  unfold cmdCypher
  rw [ran]
  refine ⟨⟨_,rfl⟩,rfl,?_⟩
  rw [succeed,Database.unlockAll,Database.commitTransaction]
  dsimp only
  rw [manage_unversioned,manage_unversioned _ _ later]
  rw [manage_unversioned _ _ later]
  exact later

theorem opened_holds (file : Bytes) : Holds (opened file).database.graphStore {} := ⟨opened_represents file,rfl⟩

/-- Where the first node is the only one, a text of it has one row. -/
theorem first_found (properties : List Property) (key value : Bytes) (member : ⟨key,.string value⟩ ∈ properties)
    (holds : Holds store (({} : CountedGraph).step unhashed (.createNode properties)))
    (found : FindsExactly key value index store) : (getNodesByProperty key value index store).rows.length = 1 := by
  obtain ⟨ids,nodup,bears,shown⟩ := found
  have only (id : NodeId) : id ∈ ids ↔ id ∈ [(1 : NodeId)] := by
    rw [bears,bears_iff key value id holds,List.mem_singleton]
    constructor
    · rintro ⟨given,held,-⟩
      by_contra other
      cases (Function.update_of_ne other _ _).symm.trans held
    · rintro rfl
      refine ⟨properties,?_,member⟩
      simp only [CountedGraph.step,PropertyGraph.setNode,Function.update_self]
  rw [← shown.length_eq]
  exact ((List.perm_ext_iff_of_nodup nodup (List.nodup_singleton 1)).mpr only).length_eq

section First

variable (library : StandardLibrary) (repl : REPL) (empty : Holds repl.database.graphStore {})
  (unindexed : repl.indexManager = {})
include empty unindexed

/-- A text that a query has written is not found. -/
theorem created_unfound (key : String) (text : Bytes)
    (fits : Fits unhashed repl.database.graphStore (created key (.string text))) :
    (∃ result, (repl.cmdCypher library (creation key (.string text))).1 = some (.ok result)) ∧
      ¬(repl.step library (.cypher (creation key (.string text)))).Coherent := by
  obtain ⟨succeeds,index,written⟩ := creation_runs library key (.string text) repl empty fits
  refine ⟨succeeds,fun coherent => ?_⟩
  have found := coherent (ascii key) text
  rw [step,index,written,unindexed] at found
  have one := first_found _ (ascii key) text List.mem_cons_self (fits_holds _ empty fits) found
  rw [getNodesByProperty,show SimpleIndexManager.findNodesByProperty (ascii key) text {} = [] from rfl] at one
  cases one

/-- A text that is given twice is found twice. -/
theorem repeated_found (args : Bytes) (given : args ≠ []) (key text : Bytes)
    (twice : parseProperties args = [⟨key,.string text⟩,⟨key,.string text⟩])
    (fits : Fits unhashed repl.database.graphStore (.createNode (parseProperties args))) :
    ¬(repl.step library (.createNode args)).Coherent := by
  intro coherent
  have later := fits_holds _ empty fits
  have found := coherent key text
  rw [step,cmdCreateNode_enters args given repl empty.represents fits,unindexed] at found
  dsimp only at found
  rw [twice] at found later
  have one := first_found _ key text List.mem_cons_self later found
  have entered : (indexProperties 1 [⟨key,.string text⟩,⟨key,.string text⟩] {}).findNodesByProperty key text =
      [1,1] := by
    rw [indexProperties_found,List.count_cons_self,List.count_cons_self]
    rfl
  rw [getNodesByProperty,entered,← (rows_shown later [1,1]).length_eq] at one
  simp [CountedGraph.step,PropertyGraph.setNode] at one

omit unindexed in
/-- A node with a text, one with a number, and the deletion of both. -/
theorem deletion_spares (args : Bytes) (given : args ≠ []) (once : (parseProperties args).Nodup) (key : String)
    (value : Int64) (short : Guarded (CountedGraph.step unhashed) Short {}
      [.createNode (parseProperties args),created key (.integer value)]) :
    Guarded (step library) SparesIndex repl
      [.createNode args,.cypher (creation key (.integer value)),.cypher deletion] := by
  have fits := short_fits unhashed _ empty.represents short.1
  have later := fits_holds _ empty fits
  have next := short_fits unhashed _ later.represents short.2.1
  refine ⟨fun _ => ⟨once,fits⟩,?_,deletion_allowed _ _,trivial⟩
  rw [step,cmdCreateNode_enters args given repl empty.represents fits]
  exact creation_allowed key (.integer value) _ ⟨next,fun _ _ => by simp [toStorage]⟩

end First

theorem index_stays_coherent_deleted : Always (step stableLibrary) Coherent (opened [])
    [.createNode (ascii "x=a"),.cypher (creation "k" (.integer 1)),.cypher deletion] :=
  index_stays_coherent stableLibrary [] _ (deletion_spares stableLibrary (opened []) (opened_holds []) (ascii "x=a")
    (by decide) (by decide +kernel) "k" 1 (by decide +kernel))

theorem index_incoherent :
    ((∃ result, ((opened []).cmdCypher stableLibrary (creation "x" (.string (ascii "a")))).1 = some (.ok result)) ∧
      ¬Always (step stableLibrary) Coherent (opened []) [.cypher (creation "x" (.string (ascii "a")))]) ∧
    ¬Always (step stableLibrary) Coherent (opened []) [.createNode (ascii "x=a,x=a")] := by
  have start := opened_holds []
  obtain ⟨succeeds,unfound⟩ := created_unfound stableLibrary (opened []) start rfl "x" (ascii "a")
    (short_fits unhashed _ start.represents (by decide +kernel))
  have twice := repeated_found stableLibrary (opened []) start rfl (ascii "x=a,x=a") (by decide) (ascii "x")
    (ascii "a") (by decide +kernel) (short_fits unhashed _ start.represents (by decide +kernel))
  exact ⟨⟨succeeds,fun always => unfound always.2⟩,fun always => twice always.2⟩

end Runs

end LoreDB.Cli.REPL
