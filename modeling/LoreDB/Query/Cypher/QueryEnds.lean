import LoreDB.Query.Cypher.GraphQueries

/-! How queries end. Whatever the clauses do, a query that returns has committed or aborted its
transaction, as its result says, and holds no locks. A query returns unless one of its clauses never does. -/
namespace LoreDB.Query.Cypher
open LoreDB.Storage LoreDB.Transaction TransactionManager

/-- What a query that returned `result` has made of its transaction. -/
structure Settled (txId : Nat) (before : TransactionManager) (result : Except Error QueryResult)
    (after : MVCCManager) : Prop where
  committed : (∃ value, result = .ok value) ↔ after.txnManager.stateOf txId = some .committed
  aborted : (∃ e, result = .error e) ↔ after.txnManager.stateOf txId = some .aborted
  inactive : after.txnManager.activeTransactions txId = false
  unlocked : ∀ resource, ∀ request ∈ after.lockManager.lockTable resource, request.txId ≠ txId
  unawaited : after.lockManager.waitsForGraph.lookup txId = none
  transactions : ∀ other, other ≠ txId →
    after.txnManager.transactions other = before.transactions other
  active : ∀ other, other ≠ txId →
    after.txnManager.activeTransactions other = before.activeTransactions other
  completed : ∀ other, other ≠ txId →
    after.txnManager.completedTransactions other = before.completedTransactions other

section Endings

variable (before : TransactionManager)

theorem complete_settles (txn : Transaction) (clock : Nat) (locks : LockManager) (manager : MVCCManager)
    (result : Except Error QueryResult) (identity : txn.id = before.beginTransaction.1.id)
    (tables : manager.txnManager = complete txn.id txn
      {before.beginTransaction.2 with currentTimestamp := clock})
    (unlocked : manager.lockManager = locks.unlockAll txn.id)
    (committed : (∃ value, result = .ok value) ↔ txn.state = .committed)
    (aborted : (∃ e, result = .error e) ↔ txn.state = .aborted) :
    Settled txn.id before result manager := by
  have issued : txn.id = before.nextTransactionId := identity
  constructor
  · simp [committed,tables,stateOf,complete]
  · simp [aborted,tables,stateOf,complete]
  · simp [tables,complete]
  · intro resource request member
    rw [unlocked] at member
    simpa using (List.mem_filter.mp member).2
  · rw [unlocked]
    exact AList.lookup_erase ..
  · intro other apart
    simp [tables,complete,beginTransaction,getCurrentTimestamp,apart,issued ▸ apart]
  · intro other apart
    simp [tables,complete,beginTransaction,getCurrentTimestamp,apart,issued ▸ apart]
  · intro other apart
    simp [tables,complete,beginTransaction,getCurrentTimestamp,apart]

/-- The endings of a query, while its transaction is the last one begun. -/
def Ends (ended : Ended) : Prop :=
  ∀ result, ended.1 = some result →
    Settled before.beginTransaction.1.id before result ended.2.mvccManager

def Running (db : Database) : Prop := db.mvccManager.txnManager = before.beginTransaction.2

variable {before}

theorem begun_found : before.beginTransaction.2.transactions before.beginTransaction.1.id =
    some before.beginTransaction.1 :=
  Function.update_self _ _ before.transactions

theorem begin_running (db : Database) : Running db.mvccManager.txnManager db.beginTransaction.2 := by
  rw [Running,Database.beginTransaction,Database.manage_manager]

theorem succeed_ends (result : QueryResult) (db : Database) (running : Running before db) :
    Ends before (succeed before.beginTransaction.1.id result db) := by
  intro returned same
  cases Option.some.inj same
  obtain ⟨finished,_⟩ | ⟨txn,found,_,moved⟩ :=
    commit_cases before.beginTransaction.1.id before.beginTransaction.2
  · exact absurd rfl (finished _ begun_found)
  · cases Option.some.inj (begun_found.symm.trans found)
    refine complete_settles before {before.beginTransaction.1 with
      commitTimestamp := before.beginTransaction.2.currentTimestamp, state := .committed}
      (before.beginTransaction.2.currentTimestamp + 1) db.mvccManager.lockManager _ _ rfl ?_ ?_ (by simp)
      (by simp)
    · simp only [succeed,Database.unlockAll,Database.commitTransaction,Database.manage_manager]
      rw [running,moved]
    · simp [succeed,Database.unlockAll,Database.commitTransaction]

theorem fail_ends (e : Error) (db : Database) (running : Running before db) :
    Ends before (fail before.beginTransaction.1.id e db) := by
  intro returned same
  cases Option.some.inj same
  obtain ⟨finished,_⟩ | ⟨txn,found,_,moved⟩ :=
    abort_cases before.beginTransaction.1.id before.beginTransaction.2
  · exact absurd rfl (finished _ begun_found)
  · cases Option.some.inj (begun_found.symm.trans found)
    refine complete_settles before {before.beginTransaction.1 with state := .aborted}
      before.beginTransaction.2.currentTimestamp db.mvccManager.lockManager _ _ rfl ?_ ?_ (by simp) (by simp)
    · simp only [fail,Database.unlockAll,Database.abortTransaction,Database.manage_manager]
      rw [running,moved]
    · simp [fail,Database.unlockAll,Database.abortTransaction]

end Endings

/-! One rule for the branches of a query: what its clauses carry along, and what holds of its endings. -/

section Branches

variable (invariant : Database → Prop) (property : Ended → Prop) (txId : Nat)

/-- A clause keeps the invariant, and where it never ends the property holds of that. -/
def Carries {α : Type} (action : Action α) : Prop :=
  ∀ db, invariant db → invariant (action.run txId db).2 ∧
    ((action.run txId db).1 = .endless → property (none,(action.run txId db).2))

structure ClausesCarry (executors : ClauseExecutors) (query : Query) : Prop where
  matching : ∀ clause, query.matchClause = some clause →
    Carries invariant property txId (executors.executeMatch clause)
  filtering : ∀ clause rows, query.whereClause = some clause →
    Carries invariant property txId (executors.applyWhere clause rows)
  returning : ∀ clause rows, query.returnClause = some clause →
    Carries invariant property txId (executors.executeReturn clause rows)
  creating : ∀ clause, query.createClause = some clause →
    Carries invariant property txId (executors.executeCreate clause)
  setting : ∀ clause rows, query.setClause = some clause →
    Carries invariant property txId (executors.executeSet clause rows)
  deleting : ∀ clause rows, query.deleteClause = some clause →
    Carries invariant property txId (executors.executeDelete clause rows)
  ordering : ∀ clause result, query.orderBy = some clause →
    Carries invariant property txId (executors.applyOrderBy result clause)
  limiting : ∀ clause result, query.limitClause = some clause →
    Carries invariant property txId (executors.applyLimit result clause)

/-- The property holds of both ways to end. -/
structure EndsWell : Prop where
  succeeds : ∀ result db, invariant db → property (succeed txId result db)
  fails : ∀ e db, invariant db → property (fail txId e db)

variable {invariant property txId}

theorem Carries.imp {weaker : Ended → Prop} {α : Type} {action : Action α}
    (carries : Carries invariant property txId action) (follows : ∀ ended, property ended → weaker ended) :
    Carries invariant weaker txId action :=
  fun db holds => ⟨(carries db holds).1,fun endless => follows _ ((carries db holds).2 endless)⟩

/-- A clause passes the invariant on, or the query ends with it. -/
theorem attempt_follows {α : Type} (endings : EndsWell invariant property txId) (action : Action α)
    (carries : Carries invariant property txId action) (next : α → Database → Ended)
    (rest : ∀ result db, invariant db → property (next result db)) (db : Database) (holds : invariant db) :
    property (attempt txId action next db) := by
  obtain ⟨kept,endless⟩ := carries db holds
  unfold attempt
  cases done : action.run txId db with
  | mk outcome later =>
    rw [done] at kept endless
    cases outcome with
    | value result => exact rest result later kept
    | error e => exact endings.fails e later kept
    | thrown what => exact endings.fails _ later kept
    | endless => exact endless rfl

theorem attemptIf_follows {α γ : Type} (endings : EndsWell invariant property txId) (clause : Option γ)
    (action : γ → Action α)
    (carries : ∀ given, clause = some given → Carries invariant property txId (action given)) (otherwise : α)
    (next : α → Database → Ended) (rest : ∀ result db, invariant db → property (next result db)) (db : Database)
    (holds : invariant db) : property (attemptIf txId clause action otherwise next db) := by
  cases clause with
  | some clause => exact attempt_follows endings (action clause) (carries clause rfl) next rest db holds
  | none => exact rest otherwise db holds

variable {executors : ClauseExecutors} {query : Query}

theorem ClausesCarry.imp {weaker : Ended → Prop} (carry : ClausesCarry invariant property txId executors query)
    (follows : ∀ ended, property ended → weaker ended) : ClausesCarry invariant weaker txId executors query where
  matching clause given := (carry.matching clause given).imp follows
  filtering clause rows given := (carry.filtering clause rows given).imp follows
  returning clause rows given := (carry.returning clause rows given).imp follows
  creating clause given := (carry.creating clause given).imp follows
  setting clause rows given := (carry.setting clause rows given).imp follows
  deleting clause rows given := (carry.deleting clause rows given).imp follows
  ordering clause result given := (carry.ordering clause result given).imp follows
  limiting clause result given := (carry.limiting clause result given).imp follows

theorem matchRows_follows (endings : EndsWell invariant property txId)
    (carry : ClausesCarry invariant property txId executors query) (matching : MatchClause)
    (given : query.matchClause = some matching) (next : ResultSet → Database → Ended)
    (rest : ∀ rows db, invariant db → property (next rows db)) (db : Database) (holds : invariant db) :
    property (matchRows executors query txId matching next db) :=
  attempt_follows endings _ (carry.matching matching given) _ (fun rows =>
    attemptIf_follows endings _ _ (fun clause given => carry.filtering clause rows given) _ next rest) db holds

theorem executeOther_follows (endings : EndsWell invariant property txId)
    (carry : ClausesCarry invariant property txId executors query) (db : Database) (holds : invariant db) :
    property (executeOther executors query txId db) := by
  unfold executeOther
  cases given : query.createClause with
  | some clause => exact attempt_follows endings _ (carry.creating clause given) _ endings.succeeds db holds
  | none => exact endings.fails _ db holds

theorem executeBody_follows (endings : EndsWell invariant property txId)
    (carry : ClausesCarry invariant property txId executors query) (db : Database) (holds : invariant db) :
    property (executeBody executors query txId db) := by
  unfold executeBody
  split
  · exact executeOther_follows endings carry db holds
  · rename_i matching given
    split
    · refine matchRows_follows endings carry matching given _ (fun rows => ?_) db holds
      refine attemptIf_follows endings _ _ (fun clause given => carry.setting clause rows given) _ _ fun written => ?_
      exact attemptIf_follows endings _ _ (fun clause given => carry.deleting clause rows given) _ _
        endings.succeeds
    · split
      · split
        · rename_i returning given'
          refine matchRows_follows endings carry matching given _ (fun rows => ?_) db holds
          refine attempt_follows endings _ (carry.returning returning rows given') _ fun result => ?_
          refine attemptIf_follows endings _ _ (fun clause given => carry.ordering clause result given) _ _
            fun result => ?_
          exact attemptIf_follows endings _ _ (fun clause given => carry.limiting clause result given) _ _
            endings.succeeds
        · exact executeOther_follows endings carry db holds
      · exact executeOther_follows endings carry db holds

end Branches

theorem query_ends (executors : ClauseExecutors) (query : Query) (db : Database) :
    Ends db.mvccManager.txnManager (executeQuery executors query db) := by
  have each {α : Type} (action : Action α) : Carries (Running db.mvccManager.txnManager)
      (Ends db.mvccManager.txnManager) db.mvccManager.txnManager.beginTransaction.1.id action :=
    fun db running => ⟨(action.keeps _ db).trans running,fun _ result absurd => (by cases absurd)⟩
  refine executeBody_follows ⟨succeed_ends,fail_ends⟩ ?_ db.beginTransaction.2 (begin_running db)
  exact ⟨fun _ _ => each _,fun _ _ _ => each _,fun _ _ _ => each _,fun _ _ => each _,fun _ _ _ => each _,
    fun _ _ _ => each _,fun _ _ _ => each _,fun _ _ _ => each _⟩

def Returned (ended : Ended) : Prop := ∃ result, ended.1 = some result

/-- No clause of the query goes on forever in a state where `holds`, and each leaves such a state. -/
def Returning (holds : Database → Prop) (txId : Nat) (executors : ClauseExecutors) (query : Query) : Prop :=
  ClausesCarry holds (fun _ => False) txId executors query

theorem query_returns (executors : ClauseExecutors) (query : Query) (db : Database) (holds : Database → Prop)
    (start : holds db.beginTransaction.2) (returning : Returning holds db.beginTransaction.1.id executors query) :
    Returned (executeQuery executors query db) := by
  have endings : EndsWell holds Returned db.beginTransaction.1.id :=
    ⟨fun _ _ _ => ⟨_,rfl⟩,fun _ _ _ => ⟨_,rfl⟩⟩
  have carry : ClausesCarry holds Returned db.beginTransaction.1.id executors query :=
    ClausesCarry.imp returning fun _ absurd => absurd.elim
  exact executeBody_follows endings carry db.beginTransaction.2 start

/-- Every query that returns has committed its transaction if it returns a value and aborted it if
it returns an error, holds no lock and waits for none, and has left all other transactions alone.
And it returns if there are states that it begins in and does not leave, where none of its clauses goes
on forever. -/
theorem every_query_ends (executors : ClauseExecutors) (query : Query) (db : Database) :
    (∀ result, (executeQuery executors query db).1 = some result →
      Settled db.beginTransaction.1.id db.mvccManager.txnManager result
        (executeQuery executors query db).2.mvccManager) ∧
    ∀ holds : Database → Prop, holds db.beginTransaction.2 →
      Returning holds db.beginTransaction.1.id executors query →
      Returned (executeQuery executors query db) :=
  ⟨query_ends executors query db,query_returns executors query db⟩

theorem reading_returns {α : Type} (txId : Nat) (begun : Database) (read : View → Outcome α)
    (returns : read (ExecutionContext.view txId begun.graphStore) ≠ .endless) :
    Carries (· = begun) (fun _ => False) txId (.reading read) := by
  rintro db rfl
  exact ⟨rfl,returns⟩

theorem ofExcept_returns {α : Type} (result : Except Error α) : Outcome.ofExcept result ≠ .endless := by
  cases result <;> simp [Outcome.ofExcept]

theorem applyLimit_returns (library : StandardLibrary) (result : QueryResult) (clause : LimitClause) :
    applyLimit library result clause ≠ .endless := by
  unfold applyLimit
  split
  · split <;> simp
  · simp

/-- With the clauses of the source, a query that writes nothing goes on forever only in its `MATCH`. -/
theorem reads_returning (library : StandardLibrary) (query : Query) (txId : Nat) (begun : Database)
    (create : query.createClause = none) (set : query.setClause = none) (delete : query.deleteClause = none)
    (ends : ∀ matching, query.matchClause = some matching →
      executeMatch matching (ExecutionContext.view txId begun.graphStore) ≠ .endless) :
    Returning (· = begun) txId (graphExecutors library) query where
  matching clause given := reading_returns txId begun _ (ends clause given)
  filtering clause rows _ := reading_returns txId begun (fun view => .ofExcept (applyWhere clause view rows))
    (ofExcept_returns _)
  returning clause rows _ := reading_returns txId begun (fun view => .ofExcept (executeReturn clause rows view))
    (ofExcept_returns _)
  ordering clause result _ := reading_returns txId begun (fun _ => .value (applyOrderBy library result clause))
    (by simp)
  limiting clause result _ := reading_returns txId begun (fun _ => applyLimit library result clause)
    (applyLimit_returns library result clause)
  creating _ given := by rw [create] at given; cases given
  setting _ _ given := by rw [set] at given; cases given
  deleting _ _ given := by rw [delete] at given; cases given

/-- `MATCH (n) RETURN n LIMIT -1`. -/
def limitedBelow : Query where
  matchClause := some {patterns := [{nodes := [{variableName := some (ascii "n")}]}]}
  returnClause := some {items := [{expression := .identifier (ascii "n")}]}
  limitClause := some ⟨-1⟩

theorem every_query_ends_thrown :
    let executors := graphExecutors ⟨fun _ rows => rows,"vector::_M_default_append"⟩
    let db : Database := {graphStore := {pageStore := FilePageStore.openFile []}}
    Settled 1 {} (.error ⟨.invalidArgument,"Query execution error: vector::_M_default_append"⟩)
        (executeQuery executors limitedBelow db).2.mvccManager ∧
      Returned (executeQuery executors limitedBelow db) := by
  intro executors db
  obtain ⟨settled,returns⟩ := every_query_ends executors limitedBelow db
  refine ⟨settled _ rfl,returns (· = db.beginTransaction.2) rfl ?_⟩
  refine reads_returning _ limitedBelow _ _ rfl rfl rfl ?_
  rintro matching ⟨rfl⟩ endless
  cases endless

end LoreDB.Query.Cypher
