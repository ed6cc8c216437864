import LoreDB.Query.Cypher.FailedQueries

/-! The operations that a query makes on a store without versions, one after the other. What each of them keeps
in the store that it meets is kept by the query, whether it succeeds or not. -/
namespace LoreDB.Query.Cypher
open LoreDB.Storage LoreDB.Storage.GraphHistory LoreDB.Storage.OpenStores LoreDB.Transaction
  LoreDB.Library.History GraphStore

/-- Queries create no edges, so no label is hashed. -/
def unhashed : Bytes → UInt64 := fun _ => 0

def createOperation (node : Node) : Operation :=
  .createNode (node.properties.entries.map fun entry => ⟨entry.1,toStorage entry.2⟩)

/-- What a row of the clause writes, if anything. -/
def setOperation (clause : SetClause) (txId : Nat) (row : ResultRow) (store : Graph) : Option Operation :=
  match row.bindings clause.variableName with
  | some (.node nodeId) =>
    match evaluateExpression row.bindings (ExecutionContext.view txId store) clause.value with
    | .error _ => none
    | .ok value => ((ExecutionContext.view txId store).node nodeId).map fun found =>
      .updateNode nodeId (setProperty clause.property value found.2)
  | _ => none

def deleteOperation : VariableBinding → Option Operation
  | .node nodeId => some (.deleteNode nodeId)
  | .edge edgeId => some (.deleteEdge edgeId)
  | .literal _ => none

/-- The clause by which a query creates nodes. Next to a clause that is run before, it is not looked at. -/
def creating (query : Query) : Option CreateClause :=
  if query.matchClause.isSome && (query.setClause.isSome || query.deleteClause.isSome || query.isReadQuery) then none
  else query.createClause

/-- The store after some operation, or after none. -/
def afterOperation (store : Graph) (operation : Option Operation) : Graph :=
  operation.elim store (plain unhashed store)

/-- The nodes that a query creates and those that it changes are allowed where they are written. -/
structure Allows (allowed : Graph → Operation → Prop) (query : Query) (db : Database) : Prop where
  creates : ∀ clause, creating query = some clause → Guarded (plain unhashed) allowed db.graphStore
    ((clause.patterns.flatMap Pattern.nodes).map createOperation)
  sets : ∀ matching clause rows, query.matchClause = some matching → query.setClause = some clause →
    matchedRows query matching (ExecutionContext.view db.beginTransaction.1.id db.graphStore) = .value rows →
      Guarded (fun store row => afterOperation store (setOperation clause db.beginTransaction.1.id row store))
        (fun store row => ∀ operation ∈ setOperation clause db.beginTransaction.1.id row store,
          allowed store operation) db.graphStore rows

section Steps

variable {store : Graph} (txId : Nat) (unversioned : Unversioned store)
include unversioned

theorem createNode_after (node : Node) :
    (createNodeFromPattern node txId store).2 = plain unhashed store (createOperation node) := by
  rw [createNodeFromPattern,ExecutionContext.createNode,chosen_plain _ _ store unversioned]
  rfl

theorem setRow_after (clause : SetClause) (row : ResultRow) (updated : Nat) :
    (setRow clause txId row updated store).2 = afterOperation store (setOperation clause txId row store) := by
  unfold setRow setOperation
  rcases row.bindings clause.variableName with _ | nodeId | _ | _
  · rfl
  · cases evaluateExpression row.bindings (ExecutionContext.view txId store) clause.value with
    | error e => rfl
    | ok value =>
      dsimp only
      cases (ExecutionContext.view txId store).node nodeId with
      | none => rfl
      | some found =>
        dsimp only
        rw [continued_store,ExecutionContext.updateNode,chosen_plain _ _ store unversioned]
        rfl
  · rfl
  · rfl

theorem deleteBound_after (bound : VariableBinding) (deleted : Nat × Nat) :
    (deleteBound txId bound deleted store).2 = afterOperation store (deleteOperation bound) := by
  cases bound with
  | node nodeId =>
    rw [deleteBound,counts_store,ExecutionContext.deleteNode,chosen_plain _ _ store unversioned]
    rfl
  | edge edgeId =>
    rw [deleteBound,counts_store,ExecutionContext.deleteEdge,chosen_plain _ _ store unversioned]
    rfl
  | literal value => rfl

end Steps

/-- A loop that stops early has made some of its steps. -/
theorem forEach_keeps {α β : Type} (holds : Graph → Prop) (allowed : Graph → α → Prop) (next : Graph → α → Graph)
    (step : α → β → Graph → Outcome β × Graph)
    (steps : ∀ item total store, holds store → (step item total store).2 = next store item)
    (kept : ∀ store item, allowed store item → holds store → holds (next store item))
    (items : List α) (total : β) (store : Graph) (guarded : Guarded next allowed store items)
    (initially : holds store) : holds (forEach step items total store).2 := by
  induction items generalizing total store with
  | nil => exact initially
  | cons item rest ih =>
    obtain ⟨first,others⟩ := guarded
    have later := kept store item first initially
    have same := steps item total store initially
    unfold forEach
    cases done : step item total store with
    | mk outcome reached =>
      rw [done] at same
      change reached = next store item at same
      subst same
      cases outcome with
      | value result => exact ih result _ others later
      | error e => exact later
      | thrown what => exact later
      | endless => exact later

section Clauses

variable {holds : Graph → Prop} {allowed : Graph → Operation → Prop} {store : Graph}
  (unversioned : ∀ store, holds store → Unversioned store)
  (kept : ∀ store operation, allowed store operation → holds store → holds (plain unhashed store operation))

theorem after_keeps (made : Option Operation)
    (performed : ∀ operation ∈ made, holds (plain unhashed store operation)) (initially : holds store) :
    holds (afterOperation store made) := by
  cases made with
  | none => exact initially
  | some operation => exact performed operation rfl

include unversioned kept

theorem executeCreate_keeps (clause : CreateClause) (txId : Nat)
    (guarded : Guarded (plain unhashed) allowed store ((clause.patterns.flatMap Pattern.nodes).map createOperation))
    (initially : holds store) : holds (executeCreate clause txId store).2 := by
  refine forEach_keeps holds (fun store node => allowed store (createOperation node))
    (fun store node => plain unhashed store (createOperation node)) _ (fun node created store held => ?_)
    (fun store node => kept store (createOperation node)) _ 0 store ?_ initially
  · rw [continued_store]
    exact createNode_after txId (unversioned store held) node
  · generalize clause.patterns.flatMap Pattern.nodes = nodes at guarded
    induction nodes generalizing store with
    | nil => trivial
    | cons node rest ih => exact ⟨guarded.1,ih (kept store _ guarded.1 initially) guarded.2⟩

theorem executeSet_keeps (clause : SetClause) (rows : ResultSet) (txId : Nat)
    (guarded : Guarded (fun store row => afterOperation store (setOperation clause txId row store))
      (fun store row => ∀ operation ∈ setOperation clause txId row store, allowed store operation) store rows)
    (initially : holds store) : holds (executeSet clause rows txId store).2 :=
  forEach_keeps holds _ _ (setRow clause txId)
    (fun row updated store held => setRow_after txId (unversioned store held) clause row updated)
    (fun store _ performs held => after_keeps _
      (fun operation made => kept store operation (performs operation made) held) held)
    rows 0 store guarded initially

omit kept in
theorem executeDelete_keeps (deletes : ∀ bound, ∀ operation ∈ deleteOperation bound, ∀ store, holds store →
      holds (plain unhashed store operation)) (clause : DeleteClause) (rows : ResultSet) (txId : Nat)
    (initially : holds store) : holds (executeDelete clause rows txId store).2 := by
  refine forEach_keeps holds (fun _ _ => True) (fun store bound => afterOperation store (deleteOperation bound))
    (deleteBound txId) (fun bound deleted store held => deleteBound_after txId (unversioned store held) bound deleted)
    (fun store bound _ held => ?_) _ (0,0) store ?_ initially
  · exact after_keeps _ (fun operation made => deletes bound operation made store held) held
  · exact (guarded_calls (fun _ => True) _ _).mpr fun _ _ => trivial

end Clauses

section Branches

variable {holds : Graph → Prop} (unversioned : ∀ store, holds store → Unversioned store) {txId : Nat} {db : Database}

theorem reading_keeps {α : Type} (read : View → Outcome α) (next : α → Database → Ended)
    (fails : ∀ e, holds (fail txId e db).2.graphStore) (initially : holds db.graphStore)
    (rest : ∀ result, read (ExecutionContext.view txId db.graphStore) = .value result →
      holds (next result db).2.graphStore) : holds (attempt txId (.reading read) next db).2.graphStore := by
  unfold attempt Action.reading
  cases ends : read (ExecutionContext.view txId db.graphStore) with
  | value result => simpa only [ends] using rest result ends
  | error e => simpa only [ends] using fails e
  | thrown what => simpa only [ends] using fails _
  | endless => simpa only [ends] using initially

include unversioned

theorem managed_keeps (change : MVCCManager → MVCCManager) (initially : holds db.graphStore) :
    holds (db.manage change).graphStore := by
  rw [manage_unversioned change db (unversioned _ initially)]
  exact initially

theorem succeed_keeps (result : QueryResult) (initially : holds db.graphStore) :
    holds (succeed txId result db).2.graphStore :=
  managed_keeps unversioned _ (managed_keeps unversioned _ initially)

theorem fail_keeps (e : Error) (initially : holds db.graphStore) : holds (fail txId e db).2.graphStore :=
  managed_keeps unversioned _ (managed_keeps unversioned _ initially)

theorem writing_keeps {α : Type} (write : Nat → Graph → Outcome α × Graph)
    (keeps : ∀ txId store, tables (write txId store).2 = tables store) (next : α → Database → Ended)
    (written : holds (write txId db.graphStore).2)
    (rest : ∀ result later, holds later.graphStore → holds (next result later).2.graphStore) :
    holds (attempt txId (.writing write keeps) next db).2.graphStore := by
  unfold attempt Action.writing
  dsimp only
  cases wrote : write txId db.graphStore with
  | mk outcome later =>
    rw [wrote] at written
    cases outcome with
    | value result => exact rest result _ written
    | error e => exact fail_keeps unversioned e written
    | thrown what => exact fail_keeps unversioned _ written
    | endless => exact written

variable (library : StandardLibrary) (query : Query)

theorem matchRows_keeps (matching : MatchClause) (next : ResultSet → Database → Ended)
    (initially : holds db.graphStore)
    (rest : ∀ rows, matchedRows query matching (ExecutionContext.view txId db.graphStore) = .value rows →
      holds (next rows db).2.graphStore) :
    holds (matchRows (graphExecutors library) query txId matching next db).2.graphStore := by
  have fails (e : Error) : holds (fail txId e db).2.graphStore := fail_keeps unversioned e initially
  refine reading_keeps (executeMatch matching) _ fails initially fun rows matched => ?_
  unfold matchedRows at rest
  rw [matched] at rest
  unfold attemptIf
  cases condition : query.whereClause with
  | none => exact rest rows (by rw [condition]; rfl)
  | some clause =>
    refine reading_keeps (fun view => .ofExcept (applyWhere clause view rows)) next fails initially
      fun kept held => rest kept ?_
    rw [condition]
    exact held

variable {allowed : Graph → Operation → Prop}
  (kept : ∀ store operation, allowed store operation → holds store → holds (plain unhashed store operation))
  (deletes : ∀ bound, ∀ operation ∈ deleteOperation bound, ∀ store, holds store →
    holds (plain unhashed store operation))

include deletes in
theorem delete_keeps (rows : ResultSet) (written : QueryResult) (initially : holds db.graphStore) :
    holds (attemptIf txId query.deleteClause
      (fun clause => (graphExecutors library).executeDelete clause rows) written (succeed txId) db).2.graphStore := by
  unfold attemptIf
  cases query.deleteClause with
  | none => exact succeed_keeps unversioned written initially
  | some clause =>
    exact writing_keeps unversioned (executeDelete clause rows) (executeDelete_tables clause rows) _
      (executeDelete_keeps unversioned deletes clause rows txId initially)
      fun result _ held => succeed_keeps unversioned result held

include kept deletes in
theorem executeWrite_keeps (matching : MatchClause) (initially : holds db.graphStore)
    (sets : ∀ clause rows, query.setClause = some clause →
      matchedRows query matching (ExecutionContext.view txId db.graphStore) = .value rows →
        Guarded (fun store row => afterOperation store (setOperation clause txId row store))
          (fun store row => ∀ operation ∈ setOperation clause txId row store, allowed store operation)
          db.graphStore rows) :
    holds (executeWrite (graphExecutors library) query txId matching db).2.graphStore := by
  refine matchRows_keeps unversioned library query matching _ initially fun rows matched => ?_
  unfold attemptIf
  cases setting : query.setClause with
  | none => exact delete_keeps unversioned library query deletes rows _ initially
  | some clause =>
    exact writing_keeps unversioned (executeSet clause rows) (executeSet_tables clause rows) _
      (executeSet_keeps unversioned kept clause rows txId (sets clause rows setting matched) initially)
      fun written _ held => delete_keeps unversioned library query deletes rows written held

theorem executeRead_keeps (matching : MatchClause) (returning : ReturnClause) (initially : holds db.graphStore) :
    holds (executeRead (graphExecutors library) query txId matching returning db).2.graphStore := by
  have fails (e : Error) : holds (fail txId e db).2.graphStore := fail_keeps unversioned e initially
  have limits (result : QueryResult) : holds (attemptIf txId query.limitClause
      ((graphExecutors library).applyLimit result) result (succeed txId) db).2.graphStore := by
    unfold attemptIf
    cases query.limitClause with
    | none => exact succeed_keeps unversioned result initially
    | some clause =>
      exact reading_keeps (fun _ => applyLimit library result clause) _ fails initially
        fun result _ => succeed_keeps unversioned result initially
  refine matchRows_keeps unversioned library query matching _ initially fun rows _ => ?_
  refine reading_keeps (fun view => .ofExcept (executeReturn returning rows view)) _ fails initially fun result _ => ?_
  unfold attemptIf
  cases query.orderBy with
  | none => exact limits result
  | some clause =>
    exact reading_keeps (fun _ => .value (applyOrderBy library result clause)) _ fails initially
      fun sorted _ => limits sorted

include kept in
theorem executeOther_keeps (initially : holds db.graphStore)
    (creates : ∀ clause, query.createClause = some clause → Guarded (plain unhashed) allowed db.graphStore
      ((clause.patterns.flatMap Pattern.nodes).map createOperation)) :
    holds (executeOther (graphExecutors library) query txId db).2.graphStore := by
  unfold executeOther
  cases creating : query.createClause with
  | none => exact fail_keeps unversioned _ initially
  | some clause =>
    exact writing_keeps unversioned (executeCreate clause) (executeCreate_tables clause) _
      (executeCreate_keeps unversioned kept clause txId (creates clause creating) initially)
      fun result _ held => succeed_keeps unversioned result held

include kept deletes in
/-- What every allowed operation and every deletion keeps, a query keeps whose operations are allowed. -/
theorem executeQuery_keeps (initially : holds db.graphStore) (allows : Allows allowed query db) :
    holds (executeQuery (graphExecutors library) query db).2.graphStore := by
  have begun : db.beginTransaction.2.graphStore = db.graphStore :=
    manage_unversioned _ db (unversioned _ initially)
  obtain ⟨creates,sets⟩ := allows
  rw [executeQuery]
  rw [← begun] at initially creates sets
  unfold executeBody
  unfold creating at creates
  cases found : query.matchClause with
  | none =>
    rw [found] at creates
    exact executeOther_keeps unversioned library query kept initially creates
  | some matching =>
    rw [found] at creates
    dsimp only
    by_cases writes : query.setClause.isSome || query.deleteClause.isSome
    · rw [if_pos writes]
      exact executeWrite_keeps unversioned library query kept deletes matching initially
        fun clause rows => sets matching clause rows found
    · rw [if_neg writes]
      by_cases reads : query.isReadQuery
      · rw [if_pos reads]
        cases returning : query.returnClause with
        | none =>
          unfold Query.isReadQuery at reads
          rw [returning] at reads
          simp at reads
        | some clause => exact executeRead_keeps unversioned library query matching clause initially
      · rw [if_neg reads]
        refine executeOther_keeps unversioned library query kept initially fun clause created => creates clause ?_
        simpa [writes,reads] using created

end Branches

end LoreDB.Query.Cypher
