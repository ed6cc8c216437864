import LoreDB.Transaction.MvccHistory

/-! Concurrent writers of one key. `write_version` stamps the latest version whoever
wrote it, so the check that the source announces there is the caller's to make. -/
namespace LoreDB.Transaction.LostUpdate
open LoreDB.Library LoreDB.Library.History MvccHistory TransactionManager

/-- A call of the transaction to write the key has returned without an error. -/
def Wrote (calls : List Call) (key : UInt64) (t : Nat) : Prop :=
  ∃ front version rest, calls = front ++ .write key version::rest ∧ version.createdTxId = t ∧
    ∃ next, (after front).writeVersion key version = some (.ok (),next)

/-- `t` began before `u` committed, or `u` has not committed. -/
def Overlaps (manager : TransactionManager) (t u : Nat) : Prop :=
  ∀ x ∈ manager.transactions t, ∀ y ∈ manager.transactions u, y.state = .committed →
    x.startTimestamp < y.commitTimestamp

def Concurrent (manager : TransactionManager) (t u : Nat) : Prop :=
  Overlaps manager t u ∧ Overlaps manager u t

/-- Of two concurrent transactions that wrote one key at most one has committed. -/
def NoLostUpdate (calls : List Call) : Prop :=
  ∀ key t u, t ≠ u → Wrote calls key t → Wrote calls key u →
    Concurrent (after calls).txnManager t u →
    ¬((after calls).txnManager.stateOf t = some .committed ∧
      (after calls).txnManager.stateOf u = some .committed)

/-- A writer finds only versions of its own, of aborted transactions, and of ones that
committed before it began. -/
def Unconflicted (manager : MVCCManager) : Call → Prop
  | .write key version => ∀ v ∈ manager.chain key, v.createdTxId = version.createdTxId ∨
      manager.txnManager.stateOf v.createdTxId = some .aborted ∨
      manager.txnManager.CommittedBefore v.createdTxId version.createdTxId
  | _ => True

instance (manager : MVCCManager) : (call : Call) → Decidable (Unconflicted manager call)
  | .begin | .commit _ | .abort _ | .collect _ => .isTrue trivial
  | .write _ _ => inferInstanceAs (Decidable (∀ _ ∈ _, _ ∨ _ ∨ _))

/-- One of two writers has aborted, or one committed before the other began. -/
def Reconciled (manager : TransactionManager) (t u : Nat) : Prop :=
  manager.stateOf t = some .aborted ∨ manager.stateOf u = some .aborted ∨
    manager.CommittedBefore t u ∨ manager.CommittedBefore u t

structure Ordered (manager : MVCCManager) : Prop where
  sound : Sound manager
  writers : ∀ key, ∀ v ∈ manager.chain key, ∀ w ∈ manager.chain key,
    v.createdTxId ≠ w.createdTxId → Reconciled manager.txnManager v.createdTxId w.createdTxId

theorem reconciled_symm {manager : TransactionManager} {t u : Nat}
    (reconciled : Reconciled manager t u) : Reconciled manager u t := by
  rcases reconciled with first | second | before | after
  · exact .inr (.inl first)
  · exact .inl second
  · exact .inr (.inr (.inr before))
  · exact .inr (.inr (.inl after))

theorem step_reconciled (manager : MVCCManager) (call : Call) (sound : Sound manager) (t u : Nat)
    (reconciled : Reconciled manager.txnManager t u) :
    Reconciled (step manager call).txnManager t u := by
  rcases reconciled with first | second | before | after
  · exact .inl (step_aborted manager call sound t first)
  · exact .inr (.inl (step_aborted manager call sound u second))
  · exact .inr (.inr (.inl (step_before manager call sound t u before)))
  · exact .inr (.inr (.inr (step_before manager call sound u t after)))

theorem written_creator (version v : Version) (chain : List Version)
    (member : v ∈ written version chain) :
    v.createdTxId = version.createdTxId ∨ ∃ old ∈ chain, old.createdTxId = v.createdTxId := by
  rcases written_mem version v chain member with rfl | old | ⟨old,inside,_,rfl⟩
  · exact .inl rfl
  · exact .inr ⟨v,old,rfl⟩
  · exact .inr ⟨old,inside,rfl⟩

/-- A checked write keeps every two writers of a key in order. -/
theorem step_ordered (manager : MVCCManager) (call : Call)
    (allowed : Legal false manager call ∧ Unconflicted manager call) (ordered : Ordered manager) :
    Ordered (step manager call) := by
  obtain ⟨legal,checked⟩ := allowed
  have sound := ordered.sound
  refine ⟨step_sound false manager call legal sound,fun key v member w member' different => ?_⟩
  have keep := step_reconciled manager call sound
  cases call with
  | begin => exact keep _ _ (ordered.writers key v member w member' different)
  | commit txId => exact keep _ _ (ordered.writers key v member w member' different)
  | abort txId => exact keep _ _ (ordered.writers key v member w member' different)
  | write other version =>
    obtain ⟨_,_,chains⟩ := write_step manager sound.free other version
    rw [chains] at member member'
    split at member
    · rename_i target
      rw [if_pos target] at member'
      have fresh (old : Version) (inside : old ∈ manager.chain other)
          (apart : old.createdTxId ≠ version.createdTxId) :
          Reconciled manager.txnManager old.createdTxId version.createdTxId := by
        rcases checked old inside with same | aborted | before
        · exact absurd same apart
        · exact .inl aborted
        · exact .inr (.inr (.inl before))
      apply keep
      rcases written_creator version v _ member with new | ⟨old,inside,same⟩ <;>
        rcases written_creator version w _ member' with new' | ⟨old',inside',same'⟩
      · exact absurd (new.trans new'.symm) different
      · rw [new,← same']
        exact reconciled_symm (fresh old' inside' (by rw [same',← new]; exact different.symm))
      · rw [new',← same]
        exact fresh old inside (by rw [same,← new']; exact different)
      · rw [← same,← same']
        exact ordered.writers other old inside old' inside' (by rwa [same,same'])
    · rename_i apart
      rw [if_neg apart] at member'
      exact keep _ _ (ordered.writers key v member w member' different)
  | collect minActiveTxId => simp [Legal] at legal

/-- Without collections a key keeps a version of everyone who wrote it. -/
theorem step_creator (manager : MVCCManager) (call : Call) (legal : Legal false manager call)
    (sound : Sound manager) (key : UInt64) (t : Nat)
    (recorded : ∃ v ∈ manager.chain key, v.createdTxId = t) :
    ∃ v ∈ (step manager call).chain key, v.createdTxId = t := by
  cases call with
  | begin => exact recorded
  | commit txId => exact recorded
  | abort txId => exact recorded
  | write other version =>
    obtain ⟨_,_,chains⟩ := write_step manager sound.free other version
    rw [chains]
    split
    · obtain ⟨v,member,created⟩ := recorded
      rename_i target
      subst target
      cases split : manager.chain key using List.reverseRecOn with
      | nil => simp [split] at member
      | append_singleton front last =>
        rw [split] at member
        rw [written,List.modifyLast_concat]
        rcases List.mem_append.mp member with inside | final
        · exact ⟨v,by simp [inside],created⟩
        · refine ⟨stamp version.createdTxId last,by simp,?_⟩
          rw [← created,List.mem_singleton.mp final]
          unfold stamp
          split <;> rfl
    · exact recorded
  | collect minActiveTxId => simp [Legal] at legal

theorem wrote_recorded (calls : List Call) (history : History false calls) (key : UInt64) (t : Nat)
    (wrote : Wrote calls key t) : ∃ v ∈ (after calls).chain key, v.createdTxId = t := by
  obtain ⟨front,version,rest,rfl,created,_⟩ := wrote
  obtain ⟨earlier,legal,later⟩ := (guarded_append _ _ _).mp history
  have sound := history_sound false front earlier
  have start : ∃ v ∈ (step (after front) (.write key version)).chain key, v.createdTxId = t := by
    rw [(write_step _ sound.free key version).2.2,if_pos rfl]
    exact ⟨version,by simp [written],created⟩
  have final := run_preserves
    (fun manager => Sound manager ∧ ∃ v ∈ manager.chain key, v.createdTxId = t)
    (fun manager call legal both => ⟨step_sound false manager call legal both.1,
      step_creator manager call legal both.1 key t both.2⟩)
    _ rest later ⟨step_sound false _ _ legal sound,start⟩
  simpa [after] using final.2

/-- No update is lost in a history in which every write meets only versions that it may
overwrite. -/
theorem no_lost_update (calls : List Call) (history : History false calls)
    (checked : Guarded step Unconflicted {} calls) : NoLostUpdate calls := by
  intro key t u different wroteT wroteU concurrent ⟨committedT,committedU⟩
  have ordered := run_preserves Ordered step_ordered {} calls
    ((guarded_both _ _).mpr ⟨history,checked⟩)
    ⟨initial_sound,fun key v member => by simp [MVCCManager.chain] at member⟩
  obtain ⟨v,member,rfl⟩ := wrote_recorded calls history key t wroteT
  obtain ⟨w,member',rfl⟩ := wrote_recorded calls history key u wroteU
  rcases ordered.writers key v member w member' different with aborted | aborted | before | before
  · exact absurd (aborted.symm.trans committedT) (by simp)
  · exact absurd (aborted.symm.trans committedU) (by simp)
  · obtain ⟨x,foundX,y,foundY,ended,order⟩ := before
    exact absurd (concurrent.2 y foundY x foundX ended) (Nat.not_lt_of_lt order)
  · obtain ⟨x,foundX,y,foundY,ended,order⟩ := before
    exact absurd (concurrent.1 y foundY x foundX ended) (Nat.not_lt_of_lt order)

def bothCommit : List Call :=
  [.begin,.begin,.write 7 {createdTxId := 1},.write 7 {createdTxId := 2},.commit 1,.commit 2]

/-- Two concurrent transactions write one key and both commit. -/
theorem update_lost : History false bothCommit ∧ ¬NoLostUpdate bothCommit := by
  refine ⟨by decide,fun safe => ?_⟩
  refine safe 7 1 2 (by decide) ?_ ?_ ?_ ⟨by decide,by decide⟩
  · exact ⟨[.begin,.begin],{createdTxId := 1},_,rfl,rfl,_,rfl⟩
  · exact ⟨[.begin,.begin,.write 7 {createdTxId := 1}],{createdTxId := 2},_,rfl,rfl,_,rfl⟩
  · unfold Concurrent Overlaps
    decide

theorem no_lost_update_serial :
    NoLostUpdate [.begin,.write 7 {createdTxId := 1},.commit 1,.begin,.write 7 {createdTxId := 2},
      .commit 2] :=
  no_lost_update _ (by decide) (by decide)

end LoreDB.Transaction.LostUpdate
