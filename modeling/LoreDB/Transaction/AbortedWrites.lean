import LoreDB.Transaction.MvccHistory

/-! A history against the same history without the writes of one transaction. An
abort leaves the stamps of its writer in place, and a stamped version is never stamped
again, so the two runs differ in the stamps that the next writers would have left. -/
namespace LoreDB.Transaction.AbortedWrites
open LoreDB.Library LoreDB.Library.History MvccHistory

/-- The call is not a write of the transaction. -/
def foreignCall (aborted : Nat) : Call → Bool
  | .write _ version => version.createdTxId != aborted
  | _ => true

/-- The versions of a key that other transactions created. -/
def others (aborted : Nat) (chain : List Version) : List Version :=
  chain.filter (fun v => v.createdTxId != aborted)

/-- The creator of the next version, or `next` behind the last one. -/
def successor (next : Nat) : List Version → Nat
  | [] => next
  | v::_ => v.createdTxId

/-- A stamp of the aborted transaction gives way to the one that the next writer would
have left. -/
def restamp (aborted next : Nat) (v : Version) : Version :=
  if v.deletedTxId = aborted then {v with deletedTxId := next} else v

def restored (aborted next : Nat) : List Version → List Version
  | [] => []
  | v::newer => restamp aborted (successor next newer) v::restored aborted next newer

/-- Deleting the transaction's writes from the history changes nothing the reader
observes of the key. -/
def Untraced (aborted reader : Nat) (key : UInt64) (calls : List Call) : Prop :=
  (after calls).observed key reader =
    (after (calls.filter (foreignCall aborted))).observed key reader

/-- Wherever the aborted transaction's stamp took the place of one that would have
ended a version for the reader, the reader sees a newer version. -/
def Buried (aborted reader : Nat) (key : UInt64) (manager : MVCCManager) : Prop :=
  ∀ older v newer, others aborted (manager.chain key) = older ++ v::newer →
    v.deletedTxId = aborted → isVersionVisible manager.txnManager reader v = true →
    isVersionVisible manager.txnManager reader {v with deletedTxId := successor 0 newer} = false →
    ∃ w ∈ newer, isVersionVisible manager.txnManager reader w = true

instance (aborted reader : Nat) (key : UInt64) (calls : List Call) :
    Decidable (Untraced aborted reader key calls) := inferInstanceAs (Decidable (_ = _))

@[simp] theorem restamp_content (aborted next : Nat) (v : Version) :
    (restamp aborted next v).content = v.content := by
  unfold restamp
  split <;> rfl

@[simp] theorem stamp_created (writer : Nat) (v : Version) :
    (stamp writer v).createdTxId = v.createdTxId := by
  unfold stamp
  split <;> rfl

theorem restored_concat (aborted next : Nat) (older : List Version) (v : Version) :
    restored aborted next (older ++ [v]) =
      restored aborted v.createdTxId older ++ [restamp aborted next v] := by
  induction older with
  | nil => rfl
  | cons w older ih =>
    have same : successor next (older ++ [v]) = successor v.createdTxId older := by
      cases older <;> rfl
    rw [List.cons_append,restored,same,ih]
    rfl

theorem stamp_restamp (aborted writer : Nat) (foreign : writer ≠ aborted) (issued : aborted ≠ 0)
    (v : Version) : stamp writer (restamp aborted 0 v) = restamp aborted writer (stamp writer v) := by
  unfold stamp restamp
  by_cases live : v.deletedTxId = 0
  · simp [live,foreign,issued.symm]
  · by_cases mine : v.deletedTxId = aborted
    · simp [mine,issued]
    · simp [live,mine]

theorem written_restored (aborted : Nat) (issued : aborted ≠ 0) (version : Version)
    (foreign : version.createdTxId ≠ aborted) (unstamped : version.deletedTxId ≠ aborted)
    (chain : List Version) :
    restored aborted 0 (written version chain) = written version (restored aborted 0 chain) := by
  have fresh : restamp aborted 0 version = version := by simp [restamp,unstamped]
  rw [written,written,restored_concat,fresh]
  congr 1
  cases chain using List.reverseRecOn with
  | nil => rfl
  | append_singleton front last =>
    rw [List.modifyLast_concat,restored_concat,restored_concat,List.modifyLast_concat,stamp_created,
      stamp_restamp aborted version.createdTxId foreign issued]

/-- Another transaction's write reaches the restored chain unchanged. -/
theorem others_written (aborted : Nat) (issued : aborted ≠ 0) (version : Version)
    (foreign : version.createdTxId ≠ aborted) (unstamped : version.deletedTxId ≠ aborted)
    (chain : List Version) (linked : ∀ v ∈ chain.dropLast, v.deletedTxId ≠ 0) :
    restored aborted 0 (others aborted (written version chain)) =
      written version (restored aborted 0 (others aborted chain)) := by
  rw [← written_restored aborted issued version foreign unstamped]
  congr 1
  cases chain using List.reverseRecOn with
  | nil => simp [others,written,modifyLast_nil,foreign]
  | append_singleton front last =>
    rw [List.dropLast_concat] at linked
    by_cases mine : last.createdTxId = aborted
    · -- the stamp falls on a version that the other run does not have
      have stamped : ∀ v ∈ others aborted front, v.deletedTxId ≠ 0 :=
        fun v member => linked v (List.mem_filter.mp member).1
      have kept := stamp_none version.createdTxId _ stamped
      unfold others at kept ⊢
      simp [written,List.modifyLast_concat,mine,foreign,kept]
    · simp [others,written,List.modifyLast_concat,mine,foreign]

/-- The aborted transaction's own write leaves the restored chain alone. -/
theorem others_skipped (version : Version) (issued : version.createdTxId ≠ 0)
    (chain : List Version) :
    restored version.createdTxId 0 (others version.createdTxId (written version chain)) =
      restored version.createdTxId 0 (others version.createdTxId chain) := by
  cases chain using List.reverseRecOn with
  | nil => simp [others,written,modifyLast_nil]
  | append_singleton front last =>
    by_cases mine : last.createdTxId = version.createdTxId
    · simp [others,written,List.modifyLast_concat,mine]
    · have same : restamp version.createdTxId 0 (stamp version.createdTxId last) =
          restamp version.createdTxId 0 last := by
        unfold stamp restamp
        by_cases live : last.deletedTxId = 0
        · simp [live,issued.symm]
          cases last
          cases live
          rfl
        · simp [live]
      simp [others,written,List.modifyLast_concat,mine,restored_concat,same]

/-- The run without the transaction's writes holds the restored chains. -/
structure Related (aborted : Nat) (first second : MVCCManager) : Prop where
  sound : Sound first
  tables : second.txnManager = first.txnManager
  free : ∀ key, second.lockManager.lockTable key = []
  chains : ∀ key, second.chain key = restored aborted 0 (others aborted (first.chain key))

theorem kept_related (aborted : Nat) (issued : aborted ≠ 0) (first second : MVCCManager)
    (call : Call) (legal : Legal false first call) (related : Related aborted first second)
    (foreign : foreignCall aborted call = true) :
    Related aborted (step first call) (step second call) := by
  have sound := step_sound false first call legal related.sound
  cases call with
  | begin => exact ⟨sound,by simp [step,related.tables],related.free,related.chains⟩
  | commit txId => exact ⟨sound,by simp [step,related.tables],related.free,related.chains⟩
  | abort txId => exact ⟨sound,by simp [step,related.tables],related.free,related.chains⟩
  | write key version =>
    obtain ⟨same,_,chains⟩ := write_step first related.sound.free key version
    obtain ⟨same',unlocked,chains'⟩ := write_step second related.free key version
    have other : version.createdTxId ≠ aborted := by simpa [foreignCall] using foreign
    have unstamped : version.deletedTxId ≠ aborted := by
      rcases legal.2 with live | tombstone
      · exact live ▸ issued.symm
      · exact tombstone ▸ other
    refine ⟨sound,by rw [same,same',related.tables],unlocked,fun target => ?_⟩
    rw [chains,chains']
    split
    · rw [related.chains,others_written aborted issued version other unstamped _
        (related.sound.linked key)]
    · exact related.chains target
  | collect minActiveTxId => simp [Legal] at legal

theorem skipped_related (aborted : Nat) (first second : MVCCManager) (call : Call)
    (legal : Legal false first call) (related : Related aborted first second)
    (own : foreignCall aborted call = false) : Related aborted (step first call) second := by
  cases call with
  | write key version =>
    obtain ⟨same,_,chains⟩ := write_step first related.sound.free key version
    have mine : version.createdTxId = aborted := by simpa [foreignCall] using own
    subst mine
    refine ⟨step_sound false first _ legal related.sound,by rw [same,related.tables],
      related.free,fun target => ?_⟩
    rw [chains]
    split
    · rename_i target
      rw [target,related.chains,others_skipped version (Nat.ne_of_gt legal.1.1)]
    · exact related.chains target
  | begin => simp [foreignCall] at own
  | commit txId => simp [foreignCall] at own
  | abort txId => simp [foreignCall] at own
  | collect minActiveTxId => simp [foreignCall] at own

theorem history_related (aborted : Nat) (issued : aborted ≠ 0) (calls : List Call)
    (history : History false calls) :
    Related aborted (after calls) (after (calls.filter (foreignCall aborted))) := by
  refine run_filtered (Related aborted) (foreignCall aborted) ?_ ?_ {} {} calls history ?_
  · exact fun first second call => kept_related aborted issued first second call
  · exact fun first second call => skipped_related aborted first second call
  · exact ⟨initial_sound,rfl,fun _ => rfl,fun _ => rfl⟩

section Reading

variable {txnManager : TransactionManager} {aborted reader : Nat}
  (pending : txnManager.isTransactionCommitted aborted = false) (other : reader ≠ aborted)
include pending other

theorem pending_hidden (v : Version) (mine : v.createdTxId = aborted) :
    isVersionVisible txnManager reader v = false := by
  rw [← Bool.not_eq_true,visible_iff,mine]
  rintro (⟨own,_⟩ | ⟨_,committed,_⟩)
  · exact other own.symm
  · rw [pending] at committed
    contradiction

/-- Giving a stamp of the aborted transaction to another writer can only hide the
version. -/
theorem restamp_hides (next : Nat) (v : Version)
    (hidden : isVersionVisible txnManager reader v = false) :
    isVersionVisible txnManager reader (restamp aborted next v) = false := by
  unfold restamp
  split
  · rename_i stamped
    rw [← Bool.not_eq_true,visible_iff] at hidden ⊢
    rintro (⟨own,_⟩ | ⟨below,committed,_⟩)
    · exact hidden (.inl ⟨own,.inr (stamped ▸ other.symm)⟩)
    · exact hidden (.inr ⟨below,committed,.inr ⟨stamped ▸ other.symm,by simp [stamped,pending]⟩⟩)
  · exact hidden

/-- A reader finds the same content in a chain and in the restored one where no
restored stamp hides a version that it sees newest. -/
theorem newest_restored (next : Nat) (chain : List Version)
    (buried : ∀ older v newer, chain = older ++ v::newer → v.deletedTxId = aborted →
      isVersionVisible txnManager reader v = true →
      isVersionVisible txnManager reader {v with deletedTxId := successor next newer} = false →
      ∃ w ∈ newer, isVersionVisible txnManager reader w = true) :
    (VersionChain.newest (isVersionVisible txnManager reader) chain).map Version.content =
      (VersionChain.newest (isVersionVisible txnManager reader)
        (restored aborted next chain)).map Version.content := by
  induction chain using List.reverseRecOn generalizing next with
  | nil => rfl
  | append_singleton front last ih =>
    rw [restored_concat,VersionChain.newest_concat,VersionChain.newest_concat]
    cases sees : isVersionVisible txnManager reader last with
    | true =>
      have kept : isVersionVisible txnManager reader (restamp aborted next last) = true := by
        unfold restamp
        split
        · rename_i stamped
          by_contra hidden
          obtain ⟨w,member,_⟩ := buried front last [] rfl stamped sees (Bool.not_eq_true _ ▸ hidden)
          simp at member
        · exact sees
      simp [kept]
    | false =>
      rw [restamp_hides pending other next last sees]
      apply ih last.createdTxId
      intro older v newer split stamped seen hidden
      have behind : successor next (newer ++ [last]) = successor last.createdTxId newer := by
        cases newer <;> rfl
      obtain ⟨w,member,visible⟩ := buried older v (newer ++ [last]) (by simp [split]) stamped seen
        (behind ▸ hidden)
      rcases List.mem_append.mp member with inside | final
      · exact ⟨w,inside,visible⟩
      · rw [List.mem_singleton.mp final,sees] at visible
        contradiction

end Reading

/-- The writes of a transaction that has not committed leave no trace for a reader
from whom its stamps keep nothing alive. -/
theorem aborted_untraced (calls : List Call) (history : History false calls) (aborted reader : Nat)
    (pending : (after calls).txnManager.isTransactionCommitted aborted = false)
    (other : reader ≠ aborted) (key : UInt64) (buried : Buried aborted reader key (after calls)) :
    Untraced aborted reader key calls := by
  have sound := history_sound false calls history
  have issued : aborted ≠ 0 := by
    rintro rfl
    have absent := sound.wellformed.issued 0
    rw [sound.wellformed.committed] at pending
    cases found : (after calls).txnManager.transactions 0 with
    | none => simp [found] at pending
    | some txn => simp [found,TransactionManager.Issued] at absent
  have related := history_related aborted issued calls history
  unfold Untraced
  rw [MVCCManager.observed_agree,related.tables,related.chains,
    ← newest_restored pending other 0 _ buried]
  refine congrArg _ (VersionChain.newest_filter _ _ _ fun v _ mine => ?_).symm
  exact pending_hidden pending other v (by simpa using mine)

/-- The second transaction overwrites the first one's version and aborts, and the third
one deletes the key. -/
def deletedAfterAbort : List Call :=
  [.begin,.write 7 {createdTxId := 1},.commit 1,.begin,.write 7 {createdTxId := 2},.abort 2,
   .begin,.write 7 {createdTxId := 3, deletedTxId := 3},.commit 3,.begin]

/-- The deletion stamps the aborted version, and the first one is back for the fourth
transaction. -/
theorem aborted_resurrects :
    History false deletedAfterAbort ∧
      (after deletedAfterAbort).txnManager.stateOf 2 = some .aborted ∧
      ¬Untraced 2 4 7 deletedAfterAbort := by
  refine ⟨?_,?_,?_⟩ <;> decide

def overwrittenAfterAbort : List Call :=
  [.begin,.write 7 {createdTxId := 1},.commit 1,.begin,.write 7 {createdTxId := 2},.abort 2,
   .begin,.write 7 {createdTxId := 3},.commit 3,.begin]

/-- A live overwrite hides what the aborted stamp left visible. -/
theorem aborted_untraced_overwritten : Untraced 2 4 7 overwrittenAfterAbort := by
  refine aborted_untraced overwrittenAfterAbort (by decide) 2 4 (by decide) (by decide) 7 ?_
  intro older v newer split stamped _ _
  have chain : others 2 ((after overwrittenAfterAbort).chain 7) =
      [{createdTxId := 1, deletedTxId := 2},{createdTxId := 3}] := by decide
  rw [chain] at split
  rcases older with _ | ⟨first,_ | ⟨second,rest⟩⟩
  · cases split
    exact ⟨{createdTxId := 3},by simp,by decide⟩
  · cases split
    contradiction
  · simp at split

end LoreDB.Transaction.AbortedWrites
