import LoreDB.Transaction.MvccHistory

/-! Two version stores that differ in one transaction without versions. In the one that had it, all
later transactions have ids greater by one, and nothing else tells the two apart. -/
namespace LoreDB.Transaction.SkippedId
open LoreDB.Library TransactionManager MvccHistory

/-- The id that a transaction has where id `gap` was used up. -/
def shift (gap t : Nat) : Nat := if t < gap then t else t + 1

theorem shift_lt (gap t u : Nat) : shift gap t < shift gap u ↔ t < u := by
  unfold shift
  split <;> split <;> omega

@[simp] theorem shift_inj (gap t u : Nat) : shift gap t = shift gap u ↔ t = u := by
  unfold shift
  split <;> split <;> omega

theorem shift_below (gap t : Nat) (below : t < gap) : shift gap t = t := if_pos below

theorem shift_ne (gap t : Nat) : shift gap t ≠ gap := by
  unfold shift
  split <;> omega

def renumber (gap : Nat) (v : Version) : Version :=
  {v with createdTxId := shift gap v.createdTxId, deletedTxId := shift gap v.deletedTxId}

/-- The first store has used up the id `gap`, the second one has not. -/
structure Skips (gap : Nat) (first second : MVCCManager) : Prop where
  positive : 0 < gap
  reached : gap ≤ second.txnManager.nextTransactionId
  next : first.txnManager.nextTransactionId = second.txnManager.nextTransactionId + 1
  states : ∀ t, first.txnManager.stateOf (shift gap t) = second.txnManager.stateOf t
  chains : ∀ key, first.chain key = (second.chain key).map (renumber gap)

theorem begin_state (manager : TransactionManager) (t : Nat) :
    manager.beginTransaction.2.stateOf t =
      if t = manager.nextTransactionId then some .active else manager.stateOf t := by
  simp only [stateOf,beginTransaction,getCurrentTimestamp,Function.update_apply]
  split <;> rfl

theorem complete_state (manager : TransactionManager) (handle t : Nat) (txn : Transaction) :
    (complete handle txn manager).stateOf t =
      if t = handle then some txn.state else manager.stateOf t := by
  simp only [stateOf,complete,Function.update_apply]
  split <;> rfl

theorem commit_state (manager : TransactionManager) (handle t : Nat) :
    (manager.commitTransaction handle).2.stateOf t =
      if t = handle ∧ manager.stateOf handle = some .active then some .committed
      else manager.stateOf t := by
  obtain ⟨finished,same⟩ | ⟨txn,found,active,moved⟩ := commit_cases handle manager
  · have idle : manager.stateOf handle ≠ some .active := by
      unfold stateOf
      cases found : manager.transactions handle with
      | none => simp
      | some txn => simpa using finished txn found
    rw [same,if_neg fun both => idle both.2]
  · have running : manager.stateOf handle = some .active := by simp [stateOf,found,active]
    rw [moved,complete_state]
    simp only [running,and_true]
    rfl

theorem abort_state (manager : TransactionManager) (handle t : Nat) :
    (manager.abortTransaction handle).2.stateOf t =
      if t = handle ∧ manager.stateOf handle = some .active then some .aborted
      else manager.stateOf t := by
  obtain ⟨finished,same⟩ | ⟨txn,found,active,moved⟩ := abort_cases handle manager
  · have idle : manager.stateOf handle ≠ some .active := by
      unfold stateOf
      cases found : manager.transactions handle with
      | none => simp
      | some txn => simpa using finished txn found
    rw [same,if_neg fun both => idle both.2]
  · have running : manager.stateOf handle = some .active := by simp [stateOf,found,active]
    rw [moved,complete_state]
    simp only [running,and_true]

theorem commit_next (manager : TransactionManager) (handle : Nat) :
    (manager.commitTransaction handle).2.nextTransactionId = manager.nextTransactionId := by
  obtain ⟨_,same⟩ | ⟨txn,_,_,moved⟩ := commit_cases handle manager
  · rw [same]
  · rw [moved]
    rfl

theorem abort_next (manager : TransactionManager) (handle : Nat) :
    (manager.abortTransaction handle).2.nextTransactionId = manager.nextTransactionId := by
  obtain ⟨_,same⟩ | ⟨txn,_,_,moved⟩ := abort_cases handle manager
  · rw [same]
  · rw [moved]
    rfl

section Steps

variable {gap : Nat} {first second : MVCCManager}

theorem next_shift (skips : Skips gap first second) :
    first.txnManager.nextTransactionId = shift gap second.txnManager.nextTransactionId := by
  rw [skips.next,shift,if_neg (Nat.not_lt.mpr skips.reached)]

theorem begin_skips (skips : Skips gap first second) :
    Skips gap (step first .begin) (step second .begin) where
  positive := skips.positive
  reached := Nat.le_succ_of_le skips.reached
  next := congrArg (· + 1) skips.next
  states t := by
    simp only [step,begin_state,next_shift skips,shift_inj,skips.states]
  chains := skips.chains

theorem commit_skips (skips : Skips gap first second) (t : Nat) :
    Skips gap (step first (.commit (shift gap t))) (step second (.commit t)) := by
  refine ⟨skips.positive,?_,?_,fun u => ?_,skips.chains⟩
  · simpa only [step,commit_next] using skips.reached
  · simpa only [step,commit_next] using skips.next
  · simp only [step,commit_state,shift_inj,skips.states]

theorem abort_skips (skips : Skips gap first second) (t : Nat) :
    Skips gap (step first (.abort (shift gap t))) (step second (.abort t)) := by
  refine ⟨skips.positive,?_,?_,fun u => ?_,skips.chains⟩
  · simpa only [step,abort_next] using skips.reached
  · simpa only [step,abort_next] using skips.next
  · simp only [step,abort_state,shift_inj,skips.states]

/-- Renumbering commutes with what a write does to its chain. -/
theorem written_renumbered (positive : 0 < gap) (version : Version) (chain : List Version) :
    written (renumber gap version) (chain.map (renumber gap)) =
      (written version chain).map (renumber gap) := by
  have zero : shift gap 0 = 0 := shift_below gap 0 positive
  have stamped (v : Version) : stamp (shift gap version.createdTxId) (renumber gap v) =
      renumber gap (stamp version.createdTxId v) := by
    have live : shift gap v.deletedTxId = 0 ↔ v.deletedTxId = 0 := by
      rw [← shift_inj gap v.deletedTxId 0,zero]
    simp only [stamp,renumber,live]
    split <;> rfl
  unfold written
  cases chain using List.reverseRecOn with
  | nil => rfl
  | append_singleton front last =>
    rw [List.map_append,List.map_singleton,List.modifyLast_concat,List.modifyLast_concat,
      show (renumber gap version).createdTxId = shift gap version.createdTxId from rfl,stamped]
    simp

theorem write_skips (skips : Skips gap first second)
    (free : ∀ key, first.lockManager.lockTable key = [])
    (unlocked : ∀ key, second.lockManager.lockTable key = []) (key : UInt64) (version : Version) :
    Skips gap (step first (.write key (renumber gap version))) (step second (.write key version)) := by
  obtain ⟨tables,_,chains⟩ := write_step first free key (renumber gap version)
  obtain ⟨kept,_,others⟩ := write_step second unlocked key version
  refine ⟨skips.positive,?_,?_,fun t => ?_,fun other => ?_⟩
  · rw [kept]
    exact skips.reached
  · rw [tables,kept]
    exact skips.next
  · rw [tables,kept]
    exact skips.states t
  · rw [chains,others]
    split
    · rw [skips.chains,written_renumbered skips.positive]
    · exact skips.chains other

theorem visible_renumbered (skips : Skips gap first second)
    (wellformed : first.txnManager.Wellformed) (sound : second.txnManager.Wellformed) (t : Nat)
    (v : Version) : isVersionVisible first.txnManager (shift gap t) (renumber gap v) =
      isVersionVisible second.txnManager t v := by
  have zero : shift gap 0 = 0 := shift_below gap 0 skips.positive
  have committed (u : Nat) : first.txnManager.isTransactionCommitted (shift gap u) =
      second.txnManager.isTransactionCommitted u := by
    have states := skips.states u
    rw [wellformed.committed,sound.committed]
    unfold stateOf at states
    cases found : first.txnManager.transactions (shift gap u) <;>
      cases other : second.txnManager.transactions u <;> simp_all
  have live : shift gap v.deletedTxId = 0 ↔ v.deletedTxId = 0 := by
    rw [← shift_inj gap v.deletedTxId 0,zero]
  rw [Bool.eq_iff_iff,visible_iff,visible_iff]
  simp only [renumber,shift_inj,shift_lt,committed,live]
  simp

theorem newest_renumbered (skips : Skips gap first second)
    (wellformed : first.txnManager.Wellformed) (sound : second.txnManager.Wellformed) (t : Nat)
    (key : UInt64) :
    VersionChain.newest (isVersionVisible first.txnManager (shift gap t)) (first.chain key) =
      (VersionChain.newest (isVersionVisible second.txnManager t) (second.chain key)).map
        (renumber gap) := by
  rw [skips.chains,VersionChain.newest_map]
  congr 2
  funext v
  exact visible_renumbered skips wellformed sound t v

end Steps

/-- A transaction that only begins and aborts uses up its id. -/
theorem aborted_skips (manager : MVCCManager) (sound : Sound manager) :
    Skips manager.txnManager.nextTransactionId
      (step (step manager .begin) (.abort manager.txnManager.nextTransactionId)) manager := by
  have fresh (t : Nat) (late : manager.txnManager.nextTransactionId ≤ t) :
      manager.txnManager.stateOf t = none := by
    have issued := sound.wellformed.issued t
    unfold stateOf
    cases found : manager.txnManager.transactions t with
    | none => rfl
    | some txn => exact absurd (issued.mp (by simp [found])).2 (Nat.not_lt.mpr late)
  have unmoved (key : UInt64) : ∀ v ∈ manager.chain key,
      renumber manager.txnManager.nextTransactionId v = v := by
    intro v member
    have stamped : v.deletedTxId < manager.txnManager.nextTransactionId := by
      by_cases live : v.deletedTxId = 0
      · rw [live]
        exact sound.wellformed.positive
      · exact (sound.stamps key v member live).2
    simp only [renumber,shift_below _ _ (sound.creators key v member).2,shift_below _ _ stamped]
  refine ⟨sound.wellformed.positive,Nat.le_refl _,?_,fun t => ?_,fun key => ?_⟩
  · simp only [step,abort_next]
    rfl
  · simp only [step,abort_state,begin_state,shift_ne,false_and,if_false]
    by_cases below : t < manager.txnManager.nextTransactionId
    · rw [shift_below _ _ below]
    · have late := Nat.not_lt.mp below
      rw [shift,if_neg below,fresh t late,fresh (t + 1) (Nat.le_succ_of_le late)]
  · exact ((List.map_congr_left (unmoved key)).trans (List.map_id' _)).symm

end LoreDB.Transaction.SkippedId
