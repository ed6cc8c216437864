import LoreDB.Query.Cypher.QuerySimulations
import LoreDB.Storage.GraphRefinement

/-! What queries see of a store without versions: the property graph that the store holds. -/
namespace LoreDB.Query.Cypher
open LoreDB.Storage LoreDB.Storage.GraphHistory LoreDB.Storage.GraphRefinement
  LoreDB.Storage.OpenStores LoreDB.Transaction LoreDB.Library.History GraphStore

/-- A property graph as a query sees it, with the number that the store has counted. -/
def graphView (model : CountedGraph) (count : UInt64) : View where
  node id := (readNode model.graph id).toOption
  edge id := (readEdge model.graph id).toOption
  outgoingEdges node := model.graph.attached .source node
  incomingEdges node := model.graph.attached .target node
  nodeCount := count

/-- A store without versions that holds a property graph. -/
structure Holds (store : GraphStore FilePageStore) (model : CountedGraph) : Prop where
  represents : Represents store model
  unversioned : store.mvccManager = none

variable {store : GraphStore FilePageStore} {model : CountedGraph}

theorem view_holds (txId : Nat) (holds : Holds store model) :
    ExecutionContext.view txId store = graphView model store.nodeCount := by
  obtain ⟨represents,unversioned⟩ := holds
  have edges (id : EdgeId) := congrArg Except.toOption (represents.tells.edges id)
  simp only [ExecutionContext.view,ExecutionContext.getNode,ExecutionContext.getEdge,
    ExecutionContext.hasMvcc,unversioned,Option.isSome_none,Bool.false_eq_true,if_false,graphView,
    represents.tells.nodes,edges,getOutgoingEdges,represents.outgoing,getIncomingEdges,
    represents.incoming]

theorem plain_holds (hash : Bytes → UInt64) (operation : Operation) (holds : Holds store model)
    (short : Short model operation) : Holds (plain hash store operation) (model.step hash operation) where
  represents := (step_simulates hash operation holds.represents
    (short_fits hash operation holds.represents short)).2
  unversioned := (plain_touches hash store operation).versions.trans holds.unversioned

theorem run_holds (hash : Bytes → UInt64) (operations : List Operation) {store : Graph}
    {model : CountedGraph} (holds : Holds store model)
    (short : Guarded (CountedGraph.step hash) Short model operations) :
    Holds (run (plain hash) store operations) (run (CountedGraph.step hash) model operations) := by
  induction operations generalizing store model with
  | nil => exact holds
  | cons operation rest ih => exact ih (plain_holds hash operation holds short.1) short.2

theorem createNode_counts (hash : Bytes → UInt64) (properties : List Property)
    (holds : Holds store model) :
    (plain hash store (.createNode properties)).nodeCount = store.nodeCount + 1 := by
  obtain ⟨next,created,_,counted⟩ := createNode_opens properties holds.represents.tells.isOpen
  rw [plain,created]
  exact counted

theorem deleteNode_counts (hash : Bytes → UInt64) (nodeId : NodeId) (holds : Holds store model)
    (begins : model.graph.attached .source nodeId = []) (ends : model.graph.attached .target nodeId = []) :
    (plain hash store (.deleteNode nodeId)).nodeCount = store.nodeCount - 1 := by
  have outgoing : store.getOutgoingEdges nodeId = [] := by
    rw [getOutgoingEdges,holds.represents.outgoing,begins]
  have incoming : store.getIncomingEdges nodeId = [] := by
    rw [getIncomingEdges,holds.represents.incoming,ends]
  rw [plain,deleteNode,if_neg (not_not.mpr outgoing),if_neg (not_not.mpr incoming)]

theorem updateNode_counts (nodeId : NodeId) (properties old : List Property) (holds : Holds store model)
    (found : model.graph.nodes nodeId = some old) :
    ∃ next, updateNode nodeId properties store = (.ok (),next) ∧ next.nodeCount = store.nodeCount := by
  have held : (getNode nodeId store).1 = .ok (nodeRecord nodeId old,old) := by
    rw [holds.represents.tells.nodes,readNode,found]
    rfl
  obtain ⟨e,missing,_⟩ | ⟨_,next,updated,_,counted⟩ :=
    updateNode_opens nodeId properties holds.represents.tells.isOpen
  · rw [held] at missing
    cases missing
  · exact ⟨next,updated,counted⟩

theorem Holds.idle {store : Graph} {model : CountedGraph} (holds : Holds store model) :
    Unversioned store := ⟨holds.unversioned,holds.represents.tells.isOpen⟩

theorem begun_holds {db : Database} {model : CountedGraph} (holds : Holds db.graphStore model) :
    db.beginTransaction.2.graphStore = db.graphStore := manage_unversioned _ db holds.idle

theorem ended_holds (db : Database) {model : CountedGraph} (holds : Holds db.graphStore model)
    (txId : Nat) (e : Error) : (fail txId e db).2.graphStore = db.graphStore := by
  have aborted : (db.abortTransaction txId).graphStore = db.graphStore := manage_unversioned _ db holds.idle
  rw [fail,Database.unlockAll,manage_unversioned _ _ (aborted ▸ holds.idle),aborted]

theorem reading_result (library : StandardLibrary) {db : Database} {model : CountedGraph}
    (holds : Holds db.graphStore model) (matching : MatchClause) (returning : ReturnClause) (rows : ResultSet)
    (matched : executeMatch matching (graphView model db.graphStore.nodeCount) = .value rows) :
    (executeQuery (graphExecutors library)
        {matchClause := some matching, returnClause := some returning} db).1 =
      some (executeReturn returning rows (graphView model db.graphStore.nodeCount)) := by
  have sees := view_holds db.beginTransaction.1.id holds
  rw [← begun_holds holds] at sees matched ⊢
  rw [← sees] at matched ⊢
  change (matchRows _ _ _ matching _ db.beginTransaction.2).1 = _
  refine (congrArg Prod.fst (reading_value (executeMatch matching) _ rows matched)).trans ?_
  cases returned : executeReturn returning rows
      (ExecutionContext.view db.beginTransaction.1.id db.beginTransaction.2.graphStore) with
  | ok result =>
    exact congrArg Prod.fst (reading_value (fun view => .ofExcept (executeReturn returning rows view)) _
      result (by rw [returned]; rfl))
  | error e =>
    exact congrArg Prod.fst (reading_error (fun view => .ofExcept (executeReturn returning rows view)) _
      e (by rw [returned]; rfl))

end LoreDB.Query.Cypher
