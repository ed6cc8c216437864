import LoreDB.Transaction.Mvcc
import Mathlib.Algebra.GroupWithZero.Nat
import Mathlib.Data.List.AList

/-! The lock table and the waits-for graph. One pass of the wait loop of `lock`
is a function of the manager's state; a call that has to wait ends its pass with
`waiting` and runs another one after a wake-up. -/
namespace LoreDB.Transaction

abbrev ResourceId := UInt64

inductive LockMode where
  | shared | exclusive
  deriving DecidableEq, Repr

structure LockRequest where
  txId : Nat
  mode : LockMode
  granted : Bool
  deriving DecidableEq, Repr

/-- An absent entry of `lock_table_` is an empty request list. -/
structure LockManager where
  lockTable : ResourceId → List LockRequest := fun _ => []
  waitsForGraph : AList (fun _ : Nat => List Nat) := ∅

inductive LockOutcome where
  | granted | refused | waiting
  deriving DecidableEq, Repr

/-- The maps one run of `detect_deadlock` works on. `graph` is the waits-for graph
itself: looking up a transaction without an entry inserts an empty one. -/
structure Search where
  graph : AList (fun _ : Nat => List Nat)
  visited : Nat → Option Bool
  recursionStack : Nat → Bool

namespace LockManager

def blocks (txId : Nat) (mode : LockMode) (request : LockRequest) : Bool :=
  request.txId != txId && (mode == .exclusive || request.mode == .exclusive)

def hasConflict (txId : Nat) (mode : LockMode) (requests : List LockRequest) : Bool :=
  requests.any (blocks txId mode)

/-- The loop of `has_cycle` over the edges of one transaction. -/
def scanEdges (visit : Nat → Search → Option (Bool × Search)) :
    List Nat → Search → Option (Bool × Search)
  | [], search => some (false,search)
  | v::rest, search =>
    let known := (search.visited v).getD false
    let search := {search with visited := Function.update search.visited v (some known)}
    if known then
      if search.recursionStack v then some (true,search) else scanEdges visit rest search
    else match visit v search with
      | none => none
      | some (true,search) => some (true,search)
      | some (false,search) => scanEdges visit rest search

/-- `none` when the recursion is cut short by the bound on its depth. -/
def hasCycle : Nat → Nat → Search → Option (Bool × Search)
  | 0, _, _ => none
  | depth+1, u, search =>
    if (search.visited u).isNone then some (false,search)
    else
      let edges := (search.graph.lookup u).getD []
      let search : Search := {
        graph := search.graph.insert u edges
        visited := Function.update search.visited u (some true)
        recursionStack := Function.update search.recursionStack u true}
      match scanEdges (hasCycle depth) edges search with
      | none => none
      | some (true,search) => some (true,search)
      | some (false,search) =>
        some (false,{search with recursionStack := Function.update search.recursionStack u false})

/-- Every nested call visits a further transaction of the graph. -/
def searchDepth (graph : AList (fun _ : Nat => List Nat)) : Nat :=
  (graph.entries.map (fun entry => entry.2.length + 1)).sum + 2

def detectDeadlock (startTx : Nat)
    (graph : AList (fun _ : Nat => List Nat)) : Option (Bool × Search) :=
  hasCycle (searchDepth graph) startTx {
    graph := graph
    visited := fun txId => (graph.lookup txId).map (fun _ => false)
    recursionStack := fun _ => false}

/-- One pass of the loop of `lock`. -/
def lock (txId : Nat) (resourceId : ResourceId) (mode : LockMode)
    (manager : LockManager) : LockOutcome × LockManager :=
  let requests := manager.lockTable resourceId
  if hasConflict txId mode requests then
    let blockers := (requests.filter (blocks txId mode)).map LockRequest.txId
    let graph := manager.waitsForGraph.insert txId blockers
    match detectDeadlock txId graph with
    | some (true,search) => (.refused,{manager with waitsForGraph := search.graph.erase txId})
    | some (false,search) => (.waiting,{manager with waitsForGraph := search.graph})
    | none => (.waiting,{manager with waitsForGraph := graph})
  else
    (.granted,{
      lockTable := Function.update manager.lockTable resourceId
        (requests ++ [⟨txId,mode,true⟩])
      waitsForGraph := manager.waitsForGraph.erase txId})

def unlock (txId : Nat) (resourceId : ResourceId) (manager : LockManager) : LockManager :=
  let requests := (manager.lockTable resourceId).filter (fun request => request.txId != txId)
  {manager with lockTable := Function.update manager.lockTable resourceId requests}

def unlockAll (txId : Nat) (manager : LockManager) : LockManager where
  lockTable := fun resourceId =>
    (manager.lockTable resourceId).filter (fun request => request.txId != txId)
  waitsForGraph := manager.waitsForGraph.erase txId

/-- A transaction that nobody else blocks is granted its lock in the first pass. -/
theorem lock_granted (txId : Nat) (resourceId : ResourceId) (mode : LockMode)
    (manager : LockManager)
    (own : ∀ request ∈ manager.lockTable resourceId, request.txId = txId) :
    lock txId resourceId mode manager =
      (.granted,{
        lockTable := Function.update manager.lockTable resourceId
          (manager.lockTable resourceId ++ [⟨txId,mode,true⟩])
        waitsForGraph := manager.waitsForGraph.erase txId}) := by
  have free : hasConflict txId mode (manager.lockTable resourceId) = false := by
    simp only [hasConflict,List.any_eq_false,blocks]
    intro request member
    simp [own request member]
  simp [lock,free]

end LockManager

end LoreDB.Transaction
