import LoreDB.Query.Cypher.Executor

/-! The clauses as the executor runs them on its graph store. -/
namespace LoreDB.Query.Cypher
open LoreDB.Storage LoreDB.Storage.GraphHistory LoreDB.Transaction GraphStore RecordSerializer

/-- The transaction tables that the store's versions are read by. -/
def tables (store : Graph) : Option TransactionManager := store.mvccManager.map MVCCManager.txnManager

theorem written_tables (key : UInt64) (version : Version) (manager next : MVCCManager)
    (result : Except MVCCError Unit) (returned : manager.writeVersion key version = some (result,next)) :
    next.txnManager = manager.txnManager := by
  unfold MVCCManager.writeVersion at returned
  split at returned
  · cases returned
  · cases Option.some.inj returned
    rfl
  · cases Option.some.inj returned
    rfl

theorem writeVersion_tables (key : UInt64) (version : Version) (store : Graph) :
    tables (store.writeVersion key version).2 = tables store := by
  unfold GraphStore.writeVersion
  cases enabled : store.mvccManager with
  | none => rfl
  | some manager =>
    dsimp only
    cases wrote : manager.writeVersion key version with
    | none => rfl
    | some returned =>
      simp only [tables,enabled,Option.map_some,
        written_tables key version manager returned.2 returned.1 wrote]

theorem versioned_tables {α : Type} (result : α) (refused : Option String) (op : String) (key : UInt64)
    (version : Version) (store : Graph) :
    tables (versioned result refused op key version store).2 = tables store := by
  have kept := writeVersion_tables key version store
  unfold versioned
  cases wrote : store.writeVersion key version with
  | mk returned next =>
    rw [wrote] at kept
    cases returned with
    | none => exact kept
    | some returned =>
      cases returned with
      | ok _ => exact kept
      | error e => cases refused <;> exact kept

theorem touched_tables {kind : Kind} {id : UInt64} {store next : Graph}
    (touched : Touches kind id store next) : tables next = tables store := by
  rw [tables,touched.versions,tables]

theorem choose_tables {α : Type} (transactional : Option (Except Error α) × Graph)
    (plain : Except Error α × Graph) (store : Graph) (first : tables transactional.2 = tables store)
    (second : tables plain.2 = tables store) :
    tables (ExecutionContext.choose transactional plain store).2 = tables store := by
  unfold ExecutionContext.choose
  split
  · exact first
  · exact second

theorem createNode_tables (txId : Nat) (properties : List Property) (store : Graph) :
    tables (ExecutionContext.createNode txId properties store).2 = tables store := by
  have kept := touched_tables (createNode_touches properties store).1
  refine choose_tables _ _ store ?_ kept
  unfold createNodeTx
  cases created : GraphStore.createNode properties store with
  | mk result next =>
    rw [created] at kept
    cases result with
    | error e => exact kept
    | ok id =>
      dsimp only
      split
      · exact kept
      · exact (versioned_tables ..).trans kept

theorem updateNode_tables (txId : Nat) (nodeId : NodeId) (properties : List Property) (store : Graph) :
    tables (ExecutionContext.updateNode txId nodeId properties store).2 = tables store := by
  have kept := touched_tables (updateNode_touches nodeId properties store)
  refine choose_tables _ _ store ?_ kept
  unfold updateNodeTx
  cases updated : GraphStore.updateNode nodeId properties store with
  | mk result next =>
    rw [updated] at kept
    cases result with
    | error e => exact kept
    | ok _ => exact (versioned_tables ..).trans kept

theorem deleteNode_tables (txId : Nat) (nodeId : NodeId) (store : Graph) :
    tables (ExecutionContext.deleteNode txId nodeId store).2 = tables store := by
  have kept := touched_tables (deleteNode_touches nodeId store)
  have reads : (GraphStore.getNode nodeId store).2 = store := getRecord_keeps ..
  refine choose_tables _ _ store ?_ kept
  unfold deleteNodeTx
  cases found : GraphStore.getNode nodeId store with
  | mk result next =>
    rw [found] at reads
    subst reads
    cases result with
    | error e => rfl
    | ok _ =>
      dsimp only
      split
      · exact versioned_tables ..
      · cases deleted : GraphStore.deleteNode nodeId next with
        | mk result later =>
          rw [deleted] at kept
          cases result <;> exact kept

theorem deleteEdge_tables (txId : Nat) (edgeId : EdgeId) (store : Graph) :
    tables (ExecutionContext.deleteEdge txId edgeId store).2 = tables store := by
  have kept := touched_tables (deleteEdge_touches edgeId store)
  refine choose_tables _ _ store ?_ kept
  unfold deleteEdgeTx
  cases deleted : GraphStore.deleteEdge edgeId store with
  | mk result next =>
    rw [deleted] at kept
    cases result with
    | error e => exact kept
    | ok _ => exact (versioned_tables ..).trans kept

theorem forEach_tables {α β : Type} (step : α → β → Graph → Outcome β × Graph)
    (kept : ∀ item total store, tables (step item total store).2 = tables store) (items : List α)
    (total : β) (store : Graph) : tables (forEach step items total store).2 = tables store := by
  induction items generalizing total store with
  | nil => rfl
  | cons item rest ih =>
    have same := kept item total store
    unfold forEach
    cases done : step item total store with
    | mk outcome next =>
      rw [done] at same
      cases outcome with
      | value result => exact (ih result next).trans same
      | error e => exact same
      | thrown what => exact same
      | endless => exact same

theorem continued_store {α β : Type} (done : β) (returned : Option (Except Error α) × Graph) :
    (continued done returned).2 = returned.2 := by
  rcases returned with ⟨_ | _ | _,store⟩ <;> rfl

theorem counts_store {α β : Type} (failed done : β) (returned : Option (Except Error α) × Graph) :
    (counts failed done returned).2 = returned.2 := by
  rcases returned with ⟨_ | _ | _,store⟩ <;> rfl

theorem executeCreate_tables (clause : CreateClause) (txId : Nat) (store : Graph) :
    tables (executeCreate clause txId store).2 = tables store := by
  refine forEach_tables _ (fun node created store => ?_) _ _ store
  rw [continued_store]
  exact createNode_tables ..

theorem executeSet_tables (clause : SetClause) (rows : ResultSet) (txId : Nat) (store : Graph) :
    tables (executeSet clause rows txId store).2 = tables store := by
  refine forEach_tables _ (fun row updated store => ?_) _ _ store
  unfold setRow
  split
  · split
    · rfl
    · split
      · rfl
      · rw [continued_store]
        exact updateNode_tables ..
  · rfl

theorem executeDelete_tables (clause : DeleteClause) (rows : ResultSet) (txId : Nat) (store : Graph) :
    tables (executeDelete clause rows txId store).2 = tables store := by
  refine forEach_tables _ (fun bound deleted store => ?_) _ _ store
  cases bound with
  | literal value => rfl
  | node nodeId =>
    rw [deleteBound,counts_store]
    exact deleteNode_tables ..
  | edge edgeId =>
    rw [deleteBound,counts_store]
    exact deleteEdge_tables ..

namespace Action

variable {α : Type}

def reading (read : View → Outcome α) : Action α where
  run txId db := (read (ExecutionContext.view txId db.graphStore),db)
  keeps _ _ := rfl

def writing (write : Nat → Graph → Outcome α × Graph)
    (keeps : ∀ txId store, tables (write txId store).2 = tables store) : Action α where
  run txId db :=
    let (outcome,store) := write txId db.graphStore
    (outcome,{db with graphStore := store})
  keeps txId db := by
    have same := keeps txId db.graphStore
    unfold tables at same
    simp only [Database.mvccManager]
    cases before : db.graphStore.mvccManager <;>
      cases after : (write txId db.graphStore).2.mvccManager <;> simp_all

end Action

def graphExecutors (library : StandardLibrary) : ClauseExecutors where
  executeMatch matching := .reading (executeMatch matching)
  applyWhere clause rows := .reading fun view => .ofExcept (applyWhere clause view rows)
  executeReturn clause rows := .reading fun view => .ofExcept (executeReturn clause rows view)
  executeCreate clause := .writing (executeCreate clause) (executeCreate_tables clause)
  executeSet clause rows := .writing (executeSet clause rows) (executeSet_tables clause rows)
  executeDelete clause rows := .writing (executeDelete clause rows) (executeDelete_tables clause rows)
  applyOrderBy result clause := .reading fun _ => .value (applyOrderBy library result clause)
  applyLimit result clause := .reading fun _ => applyLimit library result clause

section Attempts

variable {α : Type} {txId : Nat} {db : Database}

theorem reading_value (read : View → Outcome α) (next : α → Database → Ended) (result : α)
    (ends : read (ExecutionContext.view txId db.graphStore) = .value result) :
    attempt txId (.reading read) next db = next result db := by
  unfold attempt Action.reading
  simp only [ends]

theorem reading_error (read : View → Outcome α) (next : α → Database → Ended) (e : Error)
    (ends : read (ExecutionContext.view txId db.graphStore) = .error e) :
    attempt txId (.reading read) next db = fail txId e db := by
  unfold attempt Action.reading
  simp only [ends]

/-- What was written before the error is still there. -/
theorem writing_error (write : Nat → Graph → Outcome α × Graph)
    (keeps : ∀ txId store, tables (write txId store).2 = tables store) (next : α → Database → Ended)
    (e : Error) (later : Graph) (ends : write txId db.graphStore = (.error e,later)) :
    attempt txId (.writing write keeps) next db = fail txId e {db with graphStore := later} := by
  unfold attempt Action.writing
  simp only [ends]

end Attempts

end LoreDB.Query.Cypher
