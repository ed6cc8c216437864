import LoreDB.Library.Answers
import LoreDB.Query.Cypher.QueryRefinement
import LoreDB.Storage.NodeCount

/-! Sessions on a store without versions. Operations and queries, failing ones included, get the answers of the
property graph, whatever the file held before. -/
namespace LoreDB.Query.Cypher
open LoreDB.Storage LoreDB.Storage.GraphHistory LoreDB.Storage.GraphRefinement LoreDB.Library.History
  LoreDB.Library.Answers GraphStore

/-- A store without versions that shows a graph, to any transaction. -/
structure ShowsPlainly (store : Graph) (state : QueryGraph) : Prop where
  unversioned : state.versions = false
  holds : Holds store state.model
  counted : store.nodeCount = state.count

variable {hash : Bytes → UInt64} {store : Graph} {state : QueryGraph}

theorem answer_plain (unversioned : state.versions = false) (operation : Operation) :
    state.answer operation = state.model.answer operation := by
  cases operation with
  | deleteNode id => rw [QueryGraph.answer,if_neg fun both => by simp [unversioned] at both]
  | createNode properties => rfl
  | updateNode id properties => rfl
  | createEdge clock fromNode toNode label properties => rfl
  | updateEdge id properties => rfl
  | deleteEdge id => rfl

theorem perform_counts (hash : Bytes → UInt64) (operation : Operation) (shows : ShowsPlainly store state) :
    (plain hash store operation).nodeCount = (state.perform hash operation).count := by
  obtain ⟨unversioned,holds,counted⟩ := shows
  cases operation with
  | createNode properties => exact (createNode_counts hash properties holds).trans (congrArg (· + 1) counted)
  | updateNode id properties =>
    obtain ⟨e,_,failed⟩ | ⟨_,next,updated,_,same⟩ :=
      OpenStores.updateNode_opens id properties holds.represents.tells.isOpen
    · exact (congrArg (fun result => result.2.nodeCount) failed).trans counted
    · exact ((congrArg (fun result => result.2.nodeCount) updated).trans same).trans counted
  | deleteNode id =>
    have answered := (deleteNode_simulates hash id holds.represents).1.trans (answer_plain unversioned _).symm
    simp only [QueryGraph.perform,← answered,unversioned]
    unfold GraphRefinement.answer plain deleteNode
    dsimp only
    split
    · exact counted
    · split
      · exact counted
      · exact congrArg (· - 1) counted
  | createEdge clock fromNode toNode label properties =>
    exact (NodeCount.edge_counts hash (.createEdge clock fromNode toNode label properties) rfl).trans counted
  | updateEdge id properties => exact (NodeCount.edge_counts hash (.updateEdge id properties) rfl).trans counted
  | deleteEdge id => exact (NodeCount.edge_counts hash (.deleteEdge id) rfl).trans counted

theorem operation_shows (hash : Bytes → UInt64) (operation : Operation) (shows : ShowsPlainly store state)
    (fits : state.Fits operation) :
    GraphRefinement.answer hash store operation = state.answer operation ∧
      ShowsPlainly (plain hash store operation) (state.perform hash operation) := by
  have room := short_fits hash operation shows.holds.represents fits
  have answered := (step_simulates hash operation shows.holds.represents room).1
  exact ⟨answered.trans (answer_plain shows.unversioned operation).symm,shows.unversioned,
    plain_holds hash operation shows.holds fits,perform_counts hash operation shows⟩

theorem mapped_unit {result : Except Error Unit} {id : UInt64} {answer : Except Error UInt64}
    (same : (result.map fun _ => id) = answer) : result = answer.map fun _ => () := by
  subst same
  cases result <;> rfl

theorem nothing_fits : (RecordSerializer.serializeProperties []).length ≤ pageSize - 96 := by decide

theorem plainly_faithful (hash : Bytes → UInt64) : Faithful hash fun _ => ShowsPlainly where
  views t store state shows := by
    rw [QueryGraph.view,← shows.counted]
    exact view_holds t shows.holds
  createNode t properties store state shows fits := by
    obtain ⟨answered,later⟩ := operation_shows hash _ shows fits
    rw [ExecutionContext.createNode,chosen_plain _ _ store shows.holds.idle]
    exact ⟨congrArg some answered,later⟩
  updateNode t id properties old store state shows held fits := by
    obtain ⟨answered,later⟩ := operation_shows hash _ shows fits
    have found : state.answer (.updateNode id properties) = .ok id := by
      simp [QueryGraph.answer,CountedGraph.answer,readNode,held,Except.map]
    rw [ExecutionContext.updateNode,chosen_plain _ _ store shows.holds.idle]
    rw [found] at answered
    exact ⟨congrArg some (mapped_unit answered),later⟩
  deleteNode t id store state shows := by
    obtain ⟨answered,later⟩ := operation_shows hash (.deleteNode id) shows ⟨trivial,nothing_fits⟩
    rw [ExecutionContext.deleteNode,chosen_plain _ _ store shows.holds.idle]
    exact ⟨congrArg some (mapped_unit answered),later⟩
  deleteEdge t id store state shows := by
    obtain ⟨answered,later⟩ := operation_shows hash (.deleteEdge id) shows ⟨trivial,nothing_fits⟩
    rw [ExecutionContext.deleteEdge,chosen_plain _ _ store shows.holds.idle]
    exact ⟨congrArg some (mapped_unit answered),later⟩

/-- No versions to keep, so the end of a transaction changes nothing. -/
theorem concluded_store {db : Database} (shows : ShowsPlainly db.graphStore state) (t : Nat)
    (outcome : Outcome QueryResult) : (conclude t outcome db).2.graphStore = db.graphStore := by
  cases outcome with
  | value result =>
    have committed : (db.commitTransaction t).graphStore = db.graphStore := manage_unversioned _ db shows.holds.idle
    rw [conclude,succeed,Database.unlockAll,manage_unversioned _ _ (committed ▸ shows.holds.idle),committed]
  | error e => exact ended_holds db shows.holds t e
  | thrown what => exact ended_holds db shows.holds t _
  | endless => rfl

variable (library : StandardLibrary)

/-- A query returns what it means, and leaves what it has made even where it fails. -/
theorem query_shows (hash : Bytes → UInt64) (query : Query) {db : Database}
    (shows : ShowsPlainly db.graphStore state) (sized : Sized hash (queryMeaning hash library query) state) :
    (executeQuery (graphExecutors library) query db).1 = returned (queryMeaning hash library query state).outcome ∧
      ShowsPlainly (executeQuery (graphExecutors library) query db).2.graphStore
        (left hash (queryMeaning hash library query) state) := by
  have begun := begun_holds shows.holds
  obtain ⟨last,shown,ended,_⟩ := executeBody_means (plainly_faithful hash) library query db.beginTransaction.2 state
    (t := db.beginTransaction.1.id) (begun.symm ▸ shows) sized
  rw [executeQuery,ended]
  exact ⟨conclude_returns ..,concluded_store shown .. ▸ shown⟩

/-! Sessions. -/

inductive ShellCall where
  | operation (operation : Operation)
  | query (query : Query)

inductive Answer where
  | operation (result : Except Error UInt64)
  | query (result : Option (Except Error QueryResult))

/-- What a call on a database returns. -/
def databaseCall (hash : Bytes → UInt64) : Machine Answer Database ShellCall
  | db, .operation operation => (.operation (GraphRefinement.answer hash db.graphStore operation),
      {db with graphStore := plain hash db.graphStore operation})
  | db, .query query =>
    let ended := executeQuery (graphExecutors library) query db
    (.query ended.1,ended.2)

/-- What the property graph says to the same call. -/
def graphCall (hash : Bytes → UInt64) : Machine Answer QueryGraph ShellCall
  | state, .operation operation => (.operation (state.answer operation),state.perform hash operation)
  | state, .query query =>
    (.query (returned (queryMeaning hash library query state).outcome),left hash (queryMeaning hash library query) state)

/-- Every record that the call writes fits a page, and the counters do not wrap. -/
def CallFits (hash : Bytes → UInt64) (state : QueryGraph) : ShellCall → Prop
  | .operation operation => state.Fits operation
  | .query query => Sized hash (queryMeaning hash library query) state

instance (hash : Bytes → UInt64) (state : QueryGraph) : (call : ShellCall) → Decidable (CallFits library hash state call)
  | .operation operation => inferInstanceAs (Decidable (state.Fits operation))
  | .query _ => inferInstanceAs (Decidable (Guarded _ _ _ _))

theorem calls_refine (hash : Bytes → UInt64) : Refines (fun db state => ShowsPlainly db.graphStore state)
    (CallFits library hash) (databaseCall library hash) (graphCall library hash) := by
  intro db state call shows fits
  cases call with
  | operation operation =>
    obtain ⟨answered,later⟩ := operation_shows hash operation shows fits
    exact ⟨congrArg Answer.operation answered,later⟩
  | query query =>
    obtain ⟨answered,later⟩ := query_shows library hash query shows fits
    exact ⟨congrArg Answer.query answered,later⟩

theorem opened_shows (file : Bytes) (wal : Option WALManager) : ShowsPlainly (session file false wal).graphStore {} where
  unversioned := rfl
  holds := {
    represents := {
      tells := {
        isOpen := rfl
        placed := fun kind _ _ found => by cases kind <;> cases found
        nodes := fun _ => rfl
        edges := fun _ => rfl
        indexed := fun _ _ => rfl}
      nodeIds := rfl
      edgeIds := rfl
      outgoing := fun _ => rfl
      incoming := fun _ => rfl
      issued := fun _ member => absurd member List.not_mem_nil
      few := by decide
      count := rfl}
    unversioned := rfl}
  counted := rfl

/-- Operations and queries on a database answer as the property graph does: pages, records, transactions and what
the file held before never show. -/
theorem session_refined (hash : Bytes → UInt64) (file : Bytes) (wal : Option WALManager) (calls : List ShellCall)
    (fits : Guarded (later (graphCall library hash)) (CallFits library hash) {} calls) :
    answers (databaseCall library hash) (session file false wal) calls = answers (graphCall library hash) {} calls :=
  (run_refined (calls_refine library hash) _ {} calls (opened_shows file wal) fits).1

/-- The rows before the one that fails stay written. -/
def copySession : List ShellCall :=
  [.operation (.createNode one),.operation (.createNode []),.query copyQuery,.query readQuery]

theorem session_refined_copy : answers (databaseCall stableLibrary fun _ => 0) (session [] false none) copySession =
    [.operation (.ok 1),.operation (.ok 2),.query (some (.error missingY)),
      .query (some (.ok {columns := [ascii "m.x"], rows := [[ascii "1"]]}))] := by
  rw [session_refined stableLibrary (fun _ => 0) [] none copySession (by decide +kernel)]
  rfl

end LoreDB.Query.Cypher
