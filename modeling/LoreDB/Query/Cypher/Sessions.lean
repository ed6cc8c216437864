import LoreDB.Query.Cypher.QuerySimulations

/-! Sessions: calls on the graph store and queries, one after the other. What queries rely on holds
between any two of them. -/
namespace LoreDB.Query.Cypher
open LoreDB.Storage LoreDB.Storage.GraphHistory LoreDB.Storage.OpenStores
  LoreDB.Storage.SkippedTransaction LoreDB.Transaction LoreDB.Library.History GraphStore

/-- Calls of one session: on the graph store itself, and queries. -/
inductive SessionCall where
  | graph (call : GraphHistory.Call)
  | query (query : Query)

/-- A session on a file, with versions or without. -/
def session (file : Bytes) (versions : Bool) (wal : Option WALManager) : Database where
  graphStore := {
    pageStore := FilePageStore.openFile file
    mvccManager := if versions then some {} else none
    walManager := wal}

section Sessions

variable (hash : Bytes → UInt64) (library : StandardLibrary)

def sessionStep (db : Database) : SessionCall → Database
  | .graph call => {db with graphStore := GraphHistory.step hash db.graphStore call}
  | .query query => (executeQuery (graphExecutors library) query db).2

/-- Calls name issued transactions, and the next call waits for a query to return. -/
def SessionLegal (db : Database) : SessionCall → Prop
  | .graph call => Legal db.graphStore call
  | .query query => (executeQuery (graphExecutors library) query db).1.isSome = true

/-- What the calls of a session keep. -/
def Kept (versions : Bool) (db : Database) : Prop :=
  if versions then Versioned db.graphStore else Unversioned db.graphStore

theorem session_kept (file : Bytes) (versions : Bool) (wal : Option WALManager) :
    Kept versions (session file versions wal) := by
  cases versions with
  | true => exact ⟨opened_sound (FilePageStore.openFile file) wal,rfl⟩
  | false => exact ⟨rfl,rfl⟩

theorem step_unversioned (store : Graph) (call : GraphHistory.Call) (legal : Legal store call)
    (unversioned : Unversioned store) : Unversioned (GraphHistory.step hash store call) := by
  refine ⟨?_,step_opens hash call unversioned.2⟩
  have managed (call : MvccHistory.Call) : (GraphHistory.manage call store).mvccManager = none := by
    simp [GraphHistory.manage,unversioned.1]
  have reads (kind : Kind) (id : UInt64) : (GraphHistory.get kind id store).2 = store :=
    get_keeps kind id store
  cases call with
  | begin => exact managed .begin
  | commit txId => exact managed (.commit txId)
  | abort txId => exact managed (.abort txId)
  | collect least => exact managed (.collect least)
  | perform txId operation =>
    -- no transaction has been issued
    have issued : (mvcc store).txnManager.Issued txId := legal
    simp only [mvcc,unversioned.1,Option.getD_none,TransactionManager.Issued] at issued
    omega
  | plain operation => exact (plain_touches hash store operation).versions.trans unversioned.1
  | get kind id =>
    rw [GraphHistory.step,reads]
    exact unversioned.1
  | getTx kind txId id =>
    have plain : getTx kind txId id store = GraphHistory.get kind id store := by
      cases kind <;> simp only [getTx,getNodeTx,getEdgeTx,getVersioned,unversioned.1] <;> rfl
    rw [GraphHistory.step,plain,reads]
    exact unversioned.1

theorem sessionStep_kept (versions : Bool) (db : Database) (call : SessionCall)
    (legal : SessionLegal library db call) (kept : Kept versions db) :
    Kept versions (sessionStep hash library db call) := by
  cases call with
  | graph call =>
    cases versions with
    | true => exact ⟨step_sound hash db.graphStore call legal kept.1,step_opens hash call kept.2⟩
    | false => exact step_unversioned hash db.graphStore call legal kept
  | query query =>
    cases versions with
    | true =>
      exact ((executeQuery_alike versioned_simulates library query db db ⟨rfl,kept⟩).2 legal).2
    | false =>
      exact ((executeQuery_alike unversioned_simulates library query db db ⟨rfl,kept⟩).2 legal).2

end Sessions

/-- Operations without a transaction, as calls of a session. -/
def plainCalls (operations : List Operation) : List SessionCall :=
  operations.map fun operation => .graph (.plain operation)

theorem plainCalls_run (hash : Bytes → UInt64) (library : StandardLibrary) (operations : List Operation)
    (db : Database) :
    run (sessionStep hash library) db (plainCalls operations) =
      {db with graphStore := run (plain hash) db.graphStore operations} := by
  induction operations generalizing db with
  | nil => rfl
  | cons operation rest ih => exact ih _

theorem plainCalls_legal (hash : Bytes → UInt64) (library : StandardLibrary) (operations : List Operation)
    (db : Database) :
    Guarded (sessionStep hash library) (SessionLegal library) db (plainCalls operations) := by
  induction operations generalizing db with
  | nil => trivial
  | cons operation rest ih => exact ⟨trivial,ih _⟩

end LoreDB.Query.Cypher
