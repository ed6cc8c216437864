import LoreDB.Library.History
import LoreDB.Transaction.MvccManager

/-! Histories of calls on one version store and its transaction manager. A call is
one step: `write_version` updates the chain in one critical section, and the key
lock it holds around it only delays other writers of the key. -/
namespace LoreDB.Transaction.MvccHistory
open LoreDB.Storage LoreDB.Library LoreDB.Library.History TransactionManager

inductive Call where
  | begin
  | commit (txId : Nat)
  | abort (txId : Nat)
  | write (key : UInt64) (version : Version)
  | collect (minActiveTxId : Nat)
  deriving DecidableEq, Repr

def step (manager : MVCCManager) : Call → MVCCManager
  | .begin => {manager with txnManager := manager.txnManager.beginTransaction.2}
  | .commit txId => {manager with txnManager := (manager.txnManager.commitTransaction txId).2}
  | .abort txId => {manager with txnManager := (manager.txnManager.abortTransaction txId).2}
  | .write key version =>
    match manager.writeVersion key version with
    | some (_,next) => next
    -- the writer waits for a lock and the call has not returned
    | none => manager
  | .collect minActiveTxId => manager.garbageCollect minActiveTxId

/-- Calls name issued transactions, and a written version is live or the writer's
tombstone. Collections belong to a history only when `collecting` is set. -/
def Legal (collecting : Bool) (manager : MVCCManager) : Call → Prop
  | .begin => True
  | .commit txId | .abort txId => manager.txnManager.Issued txId
  | .write _ version => manager.txnManager.Issued version.createdTxId ∧
      (version.deletedTxId = 0 ∨ version.deletedTxId = version.createdTxId)
  | .collect _ => collecting = true

instance (collecting : Bool) (manager : MVCCManager) :
    (call : Call) → Decidable (Legal collecting manager call)
  | .begin => .isTrue trivial
  | .commit _ | .abort _ => inferInstanceAs (Decidable (TransactionManager.Issued _ _))
  | .write _ _ => inferInstanceAs (Decidable (_ ∧ _))
  | .collect _ => inferInstanceAs (Decidable (_ = _))

def after (calls : List Call) : MVCCManager := run step {} calls

def History (collecting : Bool) (calls : List Call) : Prop :=
  Guarded step (Legal collecting) {} calls

instance (collecting : Bool) (calls : List Call) : Decidable (History collecting calls) :=
  decidableGuarded _ _ _ _

/-- What every legal history keeps: no lock outlives a call, versions carry only
issued transactions, and only the latest version of a chain can be live. -/
structure Sound (manager : MVCCManager) : Prop where
  wellformed : manager.txnManager.Wellformed
  free : ∀ key, manager.lockManager.lockTable key = []
  creators : ∀ key, ∀ v ∈ manager.chain key, manager.txnManager.Issued v.createdTxId
  stamps : ∀ key, ∀ v ∈ manager.chain key, v.deletedTxId ≠ 0 →
    manager.txnManager.Issued v.deletedTxId
  linked : ∀ key, ∀ v ∈ (manager.chain key).dropLast, v.deletedTxId ≠ 0

/-- The chain of a key after a write to it. -/
def written (version : Version) (chain : List Version) : List Version :=
  chain.modifyLast (stamp version.createdTxId) ++ [version]

theorem initial_sound : Sound {} where
  wellformed := initial_wellformed
  free _ := rfl
  creators key v member := by simp [MVCCManager.chain] at member
  stamps key v member := by simp [MVCCManager.chain] at member
  linked key v member := by simp [MVCCManager.chain] at member

theorem modifyLast_nil {α : Type} (f : α → α) : ([] : List α).modifyLast f = [] := rfl

theorem stamp_none (txId : Nat) (chain : List Version) (stamped : ∀ v ∈ chain, v.deletedTxId ≠ 0) :
    chain.modifyLast (stamp txId) = chain := by
  cases chain using List.reverseRecOn with
  | nil => rfl
  | append_singleton front last => simp [List.modifyLast_concat,stamp,stamped last (by simp)]

theorem write_step (manager : MVCCManager) (free : ∀ key, manager.lockManager.lockTable key = [])
    (key : UInt64) (version : Version) :
    (step manager (.write key version)).txnManager = manager.txnManager ∧
      (∀ other, (step manager (.write key version)).lockManager.lockTable other = []) ∧
      ∀ other, (step manager (.write key version)).chain other =
        if other = key then written version (manager.chain key) else manager.chain other := by
  obtain ⟨locks,unlocked,returned⟩ := manager.write_returns key version free
  simp only [step,returned]
  refine ⟨trivial,unlocked,?_⟩
  intro other
  simp only [MVCCManager.chain,Function.update_apply]
  split <;> rfl

/-- The entries of a written chain are the new version and the old ones, of which
at most the stamp has changed. -/
theorem written_mem (version v : Version) (chain : List Version)
    (member : v ∈ written version chain) :
    v = version ∨ v ∈ chain ∨ ∃ old ∈ chain, old.deletedTxId = 0 ∧
      v = {old with deletedTxId := version.createdTxId} := by
  rcases List.mem_append.mp member with earlier | new
  · cases chain using List.reverseRecOn with
    | nil => simp [modifyLast_nil] at earlier
    | append_singleton front last =>
      rw [List.modifyLast_concat] at earlier
      rcases List.mem_append.mp earlier with inside | stamped
      · exact .inr (.inl (by simp [inside]))
      · rw [List.mem_singleton.mp stamped,stamp]
        split
        · rename_i live
          exact .inr (.inr ⟨last,by simp,live,rfl⟩)
        · exact .inr (.inl (by simp))
  · exact .inl (List.mem_singleton.mp new)

theorem written_linked (version v : Version) (chain : List Version)
    (issued : version.createdTxId ≠ 0) (linked : ∀ v ∈ chain.dropLast, v.deletedTxId ≠ 0)
    (member : v ∈ (written version chain).dropLast) : v.deletedTxId ≠ 0 := by
  rw [written,List.dropLast_concat] at member
  cases chain using List.reverseRecOn with
  | nil => simp [modifyLast_nil] at member
  | append_singleton front last =>
    rw [List.dropLast_concat] at linked
    rw [List.modifyLast_concat] at member
    rcases List.mem_append.mp member with inside | stamped
    · exact linked v inside
    · rw [List.mem_singleton.mp stamped,stamp]
      split
      · exact issued
      · assumption

/-- What survives a collection below its last survivor was not live before. -/
theorem filter_linked (keep : Version → Bool) (v : Version) (chain : List Version)
    (linked : ∀ v ∈ chain.dropLast, v.deletedTxId ≠ 0)
    (member : v ∈ (chain.filter keep).dropLast) : v.deletedTxId ≠ 0 := by
  cases chain using List.reverseRecOn with
  | nil => simp at member
  | append_singleton front last =>
    rw [List.dropLast_concat] at linked
    apply linked v
    rw [List.filter_append] at member
    cases kept : keep last with
    | true =>
      rw [List.filter_cons_of_pos kept,List.filter_nil,List.dropLast_concat] at member
      exact (List.mem_filter.mp member).1
    | false =>
      rw [List.filter_cons_of_neg (by simp [kept]),List.filter_nil,List.append_nil] at member
      exact (List.mem_filter.mp (List.dropLast_subset _ member)).1

theorem issued_begin (manager : TransactionManager) (t : Nat) (issued : manager.Issued t) :
    manager.beginTransaction.2.Issued t :=
  ⟨issued.1,Nat.lt_succ_of_lt issued.2⟩

theorem issued_commit (manager : TransactionManager) (handle t : Nat) :
    (manager.commitTransaction handle).2.Issued t ↔ manager.Issued t := by
  obtain ⟨_,same⟩ | ⟨_,_,_,moved⟩ := commit_cases handle manager
  · rw [same]
  · rw [moved]
    rfl

theorem issued_abort (manager : TransactionManager) (handle t : Nat) :
    (manager.abortTransaction handle).2.Issued t ↔ manager.Issued t := by
  obtain ⟨_,same⟩ | ⟨_,_,_,moved⟩ := abort_cases handle manager
  · rw [same]
  · rw [moved]
    rfl

theorem step_sound (collecting : Bool) (manager : MVCCManager) (call : Call)
    (legal : Legal collecting manager call) (sound : Sound manager) : Sound (step manager call) := by
  cases call with
  | begin =>
    exact ⟨begin_wellformed sound.wellformed,sound.free,
      fun key v member => issued_begin _ _ (sound.creators key v member),
      fun key v member stamped => issued_begin _ _ (sound.stamps key v member stamped),
      sound.linked⟩
  | commit txId =>
    exact ⟨commit_wellformed sound.wellformed txId,sound.free,
      fun key v member => (issued_commit _ _ _).mpr (sound.creators key v member),
      fun key v member stamped => (issued_commit _ _ _).mpr (sound.stamps key v member stamped),
      sound.linked⟩
  | abort txId =>
    exact ⟨abort_wellformed sound.wellformed txId,sound.free,
      fun key v member => (issued_abort _ _ _).mpr (sound.creators key v member),
      fun key v member stamped => (issued_abort _ _ _).mpr (sound.stamps key v member stamped),
      sound.linked⟩
  | write key version =>
    obtain ⟨same,unlocked,chains⟩ := write_step manager sound.free key version
    refine ⟨same ▸ sound.wellformed,unlocked,?_,?_,?_⟩
    · intro other v member
      rw [chains] at member
      rw [same]
      split at member
      · rcases written_mem version v _ member with rfl | old | ⟨old,inside,_,rfl⟩
        · exact legal.1
        · exact sound.creators key v old
        · exact sound.creators key old inside
      · exact sound.creators other v member
    · intro other v member stamped
      rw [chains] at member
      rw [same]
      split at member
      · rcases written_mem version v _ member with rfl | old | ⟨old,inside,_,rfl⟩
        · rcases legal.2 with live | tomb
          · exact absurd live stamped
          · exact tomb ▸ legal.1
        · exact sound.stamps key v old stamped
        · exact legal.1
      · exact sound.stamps other v member stamped
    · intro other v member
      rw [chains] at member
      split at member
      · exact written_linked version v _ (Nat.ne_of_gt legal.1.1) (sound.linked key) member
      · exact sound.linked other v member
  | collect minActiveTxId =>
    refine ⟨sound.wellformed,sound.free,?_,?_,?_⟩
    · intro key v member
      simp only [step,MVCCManager.collect_chain] at member
      exact sound.creators key v (List.mem_filter.mp member).1
    · intro key v member
      simp only [step,MVCCManager.collect_chain] at member
      exact sound.stamps key v (List.mem_filter.mp member).1
    · intro key v member
      simp only [step,MVCCManager.collect_chain] at member
      exact filter_linked _ v _ (sound.linked key) member

theorem history_sound (collecting : Bool) (calls : List Call) (history : History collecting calls) :
    Sound (after calls) :=
  run_preserves Sound (step_sound collecting) {} calls history initial_sound

theorem step_continues (manager : MVCCManager) (call : Call) (sound : Sound manager)
    (t : Nat) (txn : Transaction) (found : manager.txnManager.transactions t = some txn) :
    ∃ later, (step manager call).txnManager.transactions t = some later ∧ Continues txn later := by
  cases call with
  | begin => exact begin_continues sound.wellformed t txn found
  | commit txId => exact commit_continues _ txId t txn found
  | abort txId => exact abort_continues _ txId t txn found
  | write key version =>
    rw [(write_step manager sound.free key version).1]
    exact ⟨txn,found,rfl,fun _ => rfl⟩
  | collect minActiveTxId => exact ⟨txn,found,rfl,fun _ => rfl⟩

theorem step_committed (collecting : Bool) (manager : MVCCManager) (call : Call)
    (legal : Legal collecting manager call) (sound : Sound manager) (t : Nat)
    (issued : manager.txnManager.Issued t)
    (committed : manager.txnManager.isTransactionCommitted t = true) :
    (step manager call).txnManager.Issued t ∧
      (step manager call).txnManager.isTransactionCommitted t = true := by
  have next := (step_sound collecting manager call legal sound).wellformed
  obtain ⟨txn,found⟩ := Option.isSome_iff_exists.mp ((sound.wellformed.issued t).mpr issued)
  have state : txn.state = .committed := by
    simpa [sound.wellformed.committed,found] using committed
  obtain ⟨later,moved,_,finished⟩ := step_continues manager call sound t txn found
  cases finished (by simp [state])
  exact ⟨(next.issued t).mp (by simp [moved]),by simp [next.committed,moved,state]⟩

theorem step_aborted (manager : MVCCManager) (call : Call) (sound : Sound manager) (t : Nat)
    (state : manager.txnManager.stateOf t = some .aborted) :
    (step manager call).txnManager.stateOf t = some .aborted := by
  obtain ⟨txn,found,ended⟩ := Option.map_eq_some_iff.mp state
  obtain ⟨later,moved,_,finished⟩ := step_continues manager call sound t txn found
  cases finished (by simp [ended])
  exact Option.map_eq_some_iff.mpr ⟨txn,moved,ended⟩

/-- Once a transaction has committed before another began, it stays so. -/
theorem step_before (manager : MVCCManager) (call : Call) (sound : Sound manager) (t u : Nat)
    (before : manager.txnManager.CommittedBefore t u) :
    (step manager call).txnManager.CommittedBefore t u := by
  obtain ⟨x,foundX,y,foundY,committed,order⟩ := before
  obtain ⟨x',laterX,_,finished⟩ := step_continues manager call sound t x foundX
  obtain ⟨y',laterY,started,_⟩ := step_continues manager call sound u y foundY
  cases finished (by simp [committed])
  exact ⟨x,laterX,y',laterY,committed,started.symm ▸ order⟩

end LoreDB.Transaction.MvccHistory
