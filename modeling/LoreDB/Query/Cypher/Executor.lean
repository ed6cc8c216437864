import LoreDB.Query.Cypher.Clauses

/-! Queries run in a transaction of their own. Every way out of `execute_query` commits or aborts
it and then gives its locks back. -/
namespace LoreDB.Query.Cypher
open LoreDB.Storage LoreDB.Transaction

/-- The executor shares the version store of its graph store. Where the graph store keeps no
versions, the executor has a manager to itself. -/
structure Database where
  graphStore : Graph
  ownManager : MVCCManager := {}

namespace Database

def mvccManager (db : Database) : MVCCManager := db.graphStore.mvccManager.getD db.ownManager

def manage (change : MVCCManager → MVCCManager) (db : Database) : Database :=
  match db.graphStore.mvccManager with
  | some manager =>
    {db with graphStore := {db.graphStore with mvccManager := some (change manager)}}
  | none => {db with ownManager := change db.ownManager}

def beginTransaction (db : Database) : Transaction × Database :=
  (db.mvccManager.txnManager.beginTransaction.1,db.manage fun manager =>
    {manager with txnManager := manager.txnManager.beginTransaction.2})

def commitTransaction (txId : Nat) (db : Database) : Database :=
  db.manage fun manager => {manager with txnManager := (manager.txnManager.commitTransaction txId).2}

def abortTransaction (txId : Nat) (db : Database) : Database :=
  db.manage fun manager => {manager with txnManager := (manager.txnManager.abortTransaction txId).2}

def unlockAll (txId : Nat) (db : Database) : Database :=
  db.manage fun manager => {manager with lockManager := manager.lockManager.unlockAll txId}

@[simp] theorem manage_manager (change : MVCCManager → MVCCManager) (db : Database) :
    (db.manage change).mvccManager = change db.mvccManager := by
  unfold manage mvccManager
  split <;> simp_all

end Database

/-- What a clause does in the transaction of its query. It looks at the transaction tables, but
leaves them alone. -/
structure Action (α : Type) where
  run : Nat → Database → Outcome α × Database
  keeps : ∀ txId db, (run txId db).2.mvccManager.txnManager = db.mvccManager.txnManager

structure ClauseExecutors where
  executeMatch : MatchClause → Action ResultSet
  applyWhere : WhereClause → ResultSet → Action ResultSet
  executeReturn : ReturnClause → ResultSet → Action QueryResult
  executeCreate : CreateClause → Action QueryResult
  executeSet : SetClause → ResultSet → Action QueryResult
  executeDelete : DeleteClause → ResultSet → Action QueryResult
  applyOrderBy : QueryResult → OrderByClause → Action QueryResult
  applyLimit : QueryResult → LimitClause → Action QueryResult

/-- What a query returns, and the database it leaves. `none` while it has not returned. -/
abbrev Ended := Option (Except Error QueryResult) × Database

def succeed (txId : Nat) (result : QueryResult) (db : Database) : Ended :=
  (some (.ok result),(db.commitTransaction txId).unlockAll txId)

def fail (txId : Nat) (e : Error) (db : Database) : Ended :=
  (some (.error e),(db.abortTransaction txId).unlockAll txId)

/-- One clause: its error is returned at once, and what it throws ends up in the handler. -/
def attempt {α : Type} (txId : Nat) (action : Action α) (next : α → Database → Ended) (db : Database) :
    Ended :=
  match action.run txId db with
  | (.value result,db) => next result db
  | (.error e,db) => fail txId e db
  | (.thrown what,db) => fail txId ⟨.invalidArgument,"Query execution error: " ++ what⟩ db
  | (.endless,db) => (none,db)

/-- A clause that the query may leave out. -/
def attemptIf {α γ : Type} (txId : Nat) (clause : Option γ) (action : γ → Action α) (otherwise : α)
    (next : α → Database → Ended) (db : Database) : Ended :=
  match clause with
  | some clause => attempt txId (action clause) next db
  | none => next otherwise db

section Branches

variable (executors : ClauseExecutors) (query : Query) (txId : Nat)

def matchRows (matching : MatchClause) (next : ResultSet → Database → Ended) : Database → Ended :=
  attempt txId (executors.executeMatch matching) fun rows =>
    attemptIf txId query.whereClause (fun clause => executors.applyWhere clause rows) rows next

def executeWrite (matching : MatchClause) : Database → Ended :=
  matchRows executors query txId matching fun rows =>
    attemptIf txId query.setClause (fun clause => executors.executeSet clause rows)
        {columns := [ascii "updated_nodes"]} fun written =>
      attemptIf txId query.deleteClause (fun clause => executors.executeDelete clause rows) written
        (succeed txId)

def executeRead (matching : MatchClause) (returning : ReturnClause) : Database → Ended :=
  matchRows executors query txId matching fun rows =>
    attempt txId (executors.executeReturn returning rows) fun result =>
      attemptIf txId query.orderBy (executors.applyOrderBy result) result fun result =>
        attemptIf txId query.limitClause (executors.applyLimit result) result (succeed txId)

def executeOther : Database → Ended :=
  match query.createClause with
  | some clause => attempt txId (executors.executeCreate clause) (succeed txId)
  | none => fail txId ⟨.invalidArgument,"Unsupported query type"⟩

def executeBody (db : Database) : Ended :=
  match query.matchClause with
  | none => executeOther executors query txId db
  | some matching =>
    if query.setClause.isSome || query.deleteClause.isSome then
      executeWrite executors query txId matching db
    else if query.isReadQuery then
      match query.returnClause with
      | some returning => executeRead executors query txId matching returning db
      | none => executeOther executors query txId db
    else executeOther executors query txId db

end Branches

def executeQuery (executors : ClauseExecutors) (query : Query) (db : Database) : Ended :=
  executeBody executors query db.beginTransaction.1.id db.beginTransaction.2

end LoreDB.Query.Cypher
