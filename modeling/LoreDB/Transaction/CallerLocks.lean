import LoreDB.Transaction.LockClients
import LoreDB.Transaction.MvccManager

/-! Locks that the writer of a version has taken itself, through the lock manager of the version store. A
write takes one more lock on its key and releases all that its transaction holds there. -/
namespace LoreDB.Transaction.CallerLocks
open LockManager LockClients MVCCManager

/-- What a transaction holds on a resource. -/
def held (txId : Nat) (resourceId : ResourceId) (manager : MVCCManager) : List LockRequest :=
  (manager.lockManager.lockTable resourceId).filter fun request => request.txId == txId

/-- Somebody else has a lock on the key. -/
def Contested (txId : Nat) (key : UInt64) (manager : MVCCManager) : Prop :=
  ∃ request ∈ manager.lockManager.lockTable key, request.txId ≠ txId

/-- A call that begins in one state and returns from a pass that begins in another, the same unless it had to
wait. While it waits nobody touches what the writer holds. -/
inductive Returns (key : UInt64) (version : Version) :
    MVCCManager → MVCCManager → Except MVCCError Unit → MVCCManager → Prop
  | now (manager next : MVCCManager) (result : Except MVCCError Unit)
      (returned : manager.writeVersion key version = some (result,next)) : Returns key version manager manager result next
  | later (manager awake last next : MVCCManager) (result : Except MVCCError Unit)
      (waits : manager.writeVersion key version = none)
      (kept : ∀ resourceId, held version.createdTxId resourceId awake = held version.createdTxId resourceId manager)
      (returns : Returns key version awake last result next) : Returns key version manager last result next

/-- The writer holds what it held when it called, and the others what they held when the last pass began. -/
def KeepsLocks (txId : Nat) (before last next : MVCCManager) : Prop :=
  (∀ resourceId, held txId resourceId next = held txId resourceId before) ∧
    ∀ other, other ≠ txId → ∀ resourceId, held other resourceId next = held other resourceId last

theorem conflict_contested (txId : Nat) (key : UInt64) (manager : MVCCManager) :
    hasConflict txId .exclusive (manager.lockManager.lockTable key) = true ↔ Contested txId key manager := by
  simp [hasConflict,blocks,Contested]

/-- A pass that returns has found the key contested and left the table alone, or it has cleared the key of
what the writer held. -/
theorem write_locks (manager next : MVCCManager) (key : UInt64) (version : Version)
    (result : Except MVCCError Unit) (returned : manager.writeVersion key version = some (result,next)) :
    (Contested version.createdTxId key manager ∧
      next.lockManager.lockTable = manager.lockManager.lockTable) ∨
    (¬Contested version.createdTxId key manager ∧
      next.lockManager.lockTable = Function.update manager.lockManager.lockTable key []) := by
  rw [← conflict_contested]
  obtain ⟨free,granted,table,-⟩ | ⟨conflict,refused,table,-⟩ | ⟨-,waiting,-⟩ :=
    lock_cases manager.lockManager ⟨version.createdTxId,key,.exclusive⟩
  · refine .inr ⟨by rw [free]; exact Bool.false_ne_true,?_⟩
    have owns : ∀ request ∈ manager.lockManager.lockTable key, request.txId = version.createdTxId := by
      intro request member
      have open_ := List.any_eq_false.mp free request member
      simpa [blocks] using open_
    have cleared : (manager.lockManager.lockTable key ++ [(⟨version.createdTxId,.exclusive,true⟩ : LockRequest)]).filter
        (fun request => request.txId != version.createdTxId) = [] := by
      rw [List.filter_eq_nil_iff]
      intro request member
      rcases List.mem_append.mp member with old | new
      · simp [owns request old]
      · simp [List.mem_singleton.mp new]
    cases outcome : manager.lockManager.lock version.createdTxId key .exclusive with
    | mk first locks =>
      rw [outcome] at granted table
      subst granted
      simp only [writeVersion,outcome] at returned
      cases returned
      dsimp only at table ⊢
      rw [unlock,table,Function.update_self,cleared,Function.update_idem]
  · refine .inl ⟨conflict,?_⟩
    cases outcome : manager.lockManager.lock version.createdTxId key .exclusive with
    | mk first locks =>
      rw [outcome] at refused table
      subst refused
      simp only [writeVersion,outcome] at returned
      cases returned
      exact table
  · cases outcome : manager.lockManager.lock version.createdTxId key .exclusive with
    | mk first locks =>
      rw [outcome] at waiting
      subst waiting
      simp only [writeVersion,outcome] at returned
      cases returned

/-- The last pass of a call finds the writer's locks as they were when it called. -/
theorem returns_last (key : UInt64) (version : Version) (before last next : MVCCManager)
    (result : Except MVCCError Unit) (returns : Returns key version before last result next) :
    last.writeVersion key version = some (result,next) ∧
      ∀ resourceId, held version.createdTxId resourceId last = held version.createdTxId resourceId before := by
  induction returns with
  | now manager next result returned => exact ⟨returned,fun _ => rfl⟩
  | later manager awake last next result waits kept returns ih =>
    exact ⟨ih.1,fun resourceId => (ih.2 resourceId).trans (kept resourceId)⟩

/-- A write that returns keeps the locks of its callers exactly when the writer held nothing on the key, or
when somebody else does. -/
theorem keeps_locks_exactly (key : UInt64) (version : Version) (before last next : MVCCManager)
    (result : Except MVCCError Unit) (returns : Returns key version before last result next) :
    KeepsLocks version.createdTxId before last next ↔
      held version.createdTxId key before = [] ∨ Contested version.createdTxId key last := by
  obtain ⟨returned,same⟩ := returns_last key version before last next result returns
  obtain ⟨contested,table⟩ | ⟨alone,table⟩ := write_locks last next key version result returned
  · have kept (txId : Nat) (resourceId : ResourceId) : held txId resourceId next = held txId resourceId last := by
      rw [held,table,held]
    exact ⟨fun _ => .inr contested,fun _ => ⟨fun resourceId => (kept _ resourceId).trans (same resourceId),
      fun other _ resourceId => kept other resourceId⟩⟩
  · have released : held version.createdTxId key next = [] := by
      rw [held,table,Function.update_self,List.filter_nil]
    have elsewhere (txId : Nat) (resourceId : ResourceId) (apart : resourceId ≠ key) :
        held txId resourceId next = held txId resourceId last := by
      rw [held,table,Function.update_of_ne apart,held]
    have foreign (other : Nat) (differs : other ≠ version.createdTxId) : held other key last = [] := by
      rw [held,List.filter_eq_nil_iff]
      intro request member owner
      exact alone ⟨request,member,fun own => differs ((beq_iff_eq.mp owner).symm.trans own)⟩
    constructor
    · rintro ⟨own,-⟩
      exact .inl ((own key).symm.trans released)
    · rintro (none | contested)
      · refine ⟨fun resourceId => ?_,fun other differs resourceId => ?_⟩
        · by_cases here : resourceId = key
          · rw [here,released,none]
          · exact (elsewhere _ resourceId here).trans (same resourceId)
        · by_cases here : resourceId = key
          · rw [here,held,table,Function.update_self,List.filter_nil,foreign other differs]
          · exact elsewhere other resourceId here
      · exact absurd contested alone

/-- A transaction that has locked the key that it writes to next. -/
def locked : MVCCManager where
  txnManager := (TransactionManager.beginTransaction {}).2
  lockManager := (LockManager.lock 1 5 .shared {}).2

def written : MVCCManager where
  txnManager := (TransactionManager.beginTransaction {}).2
  lockManager := ((LockManager.lock 1 5 .exclusive (LockManager.lock 1 5 .shared {}).2).2).unlock 1 5
  versions := Function.update (fun _ => none) 5 (some [{createdTxId := 1}])

theorem write_returned : locked.writeVersion 5 {createdTxId := 1} = some (.ok (),written) := rfl

theorem keeps_locks_exactly_locked : KeepsLocks 1 locked locked written ↔ held 1 5 locked = [] ∨ Contested 1 5 locked :=
  keeps_locks_exactly 5 {createdTxId := 1} locked locked written (.ok ()) (.now _ _ _ write_returned)

/-- The transaction loses its own lock. -/
theorem own_lock_lost : locked.writeVersion 5 {createdTxId := 1} = some (.ok (),written) ∧
    held 1 5 locked = [⟨1,.shared,true⟩] ∧ held 1 5 written = [] ∧ ¬KeepsLocks 1 locked locked written := by
  refine ⟨write_returned,by decide,by decide,?_⟩
  rintro ⟨own,-⟩
  exact absurd (own 5) (by decide)

end LoreDB.Transaction.CallerLocks
