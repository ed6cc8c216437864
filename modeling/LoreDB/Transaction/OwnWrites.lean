import LoreDB.Transaction.StableReads

/-! Reading one's own writes while other transactions write and commit. -/
namespace LoreDB.Transaction.OwnWrites
open LoreDB.Library LoreDB.Library.History MvccHistory StableReads

/-- The writer reads its live version back, and NOT_FOUND over its tombstone. -/
def ReadsBack (key : UInt64) (version : Version) (manager : MVCCManager) : Prop :=
  manager.observed key version.createdTxId =
    if version.deletedTxId = 0 then .ok version else .error .notFound

/-- A tombstone hides at most the live version it stamps, so its writer must see no
other. -/
def Clears (key : UInt64) (version : Version) (manager : MVCCManager) : Prop :=
  version.deletedTxId ≠ 0 → ∀ v ∈ manager.chain key,
    isVersionVisible manager.txnManager version.createdTxId v = true → v.deletedTxId = 0

instance (key : UInt64) (version : Version) (manager : MVCCManager) :
    Decidable (ReadsBack key version manager) := inferInstanceAs (Decidable (_ = _))

instance (key : UInt64) (version : Version) (manager : MVCCManager) :
    Decidable (Clears key version manager) := inferInstanceAs (Decidable (_ → _))

theorem written_keeps (version v : Version) (chain : List Version) (member : v ∈ chain)
    (stamped : v.deletedTxId ≠ 0) : v ∈ written version chain := by
  cases chain using List.reverseRecOn with
  | nil => simp at member
  | append_singleton front last =>
    rw [written,List.modifyLast_concat]
    rcases List.mem_append.mp member with inside | final
    · simp [inside]
    · rw [List.mem_singleton.mp final] at stamped ⊢
      simp [stamp,stamped]

/-- After a tombstone its writer sees exactly the stamped versions it saw before. -/
private theorem tombstone_clears (txnManager : TransactionManager) (version : Version)
    (chain : List Version) (positive : version.createdTxId ≠ 0)
    (tombstone : version.deletedTxId = version.createdTxId)
    (linked : ∀ v ∈ chain.dropLast, v.deletedTxId ≠ 0) :
    VersionChain.newest (isVersionVisible txnManager version.createdTxId) (written version chain) =
      none ↔ ∀ v ∈ chain, isVersionVisible txnManager version.createdTxId v = true →
        v.deletedTxId = 0 := by
  have erased (v : Version) (mine : v.deletedTxId = version.createdTxId) :
      isVersionVisible txnManager version.createdTxId v = false := by
    rw [← Bool.not_eq_true,visible_iff,mine]
    simp [positive]
  rw [VersionChain.newest_none]
  constructor
  · intro hidden v member sees
    by_contra stamped
    rw [hidden v (written_keeps version v chain member stamped)] at sees
    contradiction
  · intro clears v member
    rcases written_mem version v chain member with rfl | old | ⟨old,_,_,rfl⟩
    · exact erased v tombstone
    · rw [← Bool.not_eq_true]
      intro sees
      have live := clears v old sees
      -- a live version of the written chain can only be its last one
      rcases List.mem_append.mp member with earlier | final
      · refine written_linked version v chain positive linked ?_ live
        rwa [written,List.dropLast_concat]
      · rw [List.mem_singleton.mp final,tombstone] at live
        exact positive live
    · exact erased _ rfl

/-- Right after its call a writer reads back what it wrote, except that a tombstone
does not hide a stamped version its writer still saw. -/
theorem write_reads_back (manager : MVCCManager) (sound : Sound manager) (key : UInt64)
    (version : Version) (legal : Legal false manager (.write key version)) :
    ReadsBack key version (step manager (.write key version)) ↔ Clears key version manager := by
  have positive := Nat.ne_of_gt legal.1.1
  obtain ⟨same,_,chains⟩ := write_step manager sound.free key version
  unfold ReadsBack Clears
  rw [MVCCManager.observed_chain,same,chains,if_pos rfl]
  by_cases live : version.deletedTxId = 0
  · have own : isVersionVisible manager.txnManager version.createdTxId version = true :=
      (visible_iff _ _ _).mpr (.inl ⟨rfl,.inl live⟩)
    have whole : version.content = version := by
      cases version
      cases live
      rfl
    simp [written,VersionChain.newest_concat,own,live,whole]
  · have tombstone := legal.2.resolve_left live
    rw [← tombstone_clears _ _ _ positive tombstone (sound.linked key),if_neg live]
    cases VersionChain.newest _ (written version (manager.chain key)) <;> simp [live]

/-- Where its own write is read back, the quiet calls are exactly those that keep it so. -/
theorem step_reads_back (key : UInt64) (version : Version) (manager : MVCCManager) (call : Call)
    (legal : Legal false manager call) (leaves : Leaves version.createdTxId key call)
    (sound : Sound manager) (readsBack : ReadsBack key version manager) :
    ReadsBack key version (step manager call) ↔ Quiet version.createdTxId key manager call := by
  rw [← step_observed_iff manager call legal sound version.createdTxId key leaves,ReadsBack,
    show manager.observed key version.createdTxId = _ from readsBack]
  intro v observes
  rw [show manager.observed key version.createdTxId = _ from readsBack] at observes
  split at observes
  · cases observes
    rfl
  · contradiction

/-- Until it writes the key again, a transaction reads its own last write exactly as
long as every call of the others is quiet. -/
theorem own_write_iff (before later : List Call) (key : UInt64) (version : Version)
    (history : History false (before ++ .write key version::later))
    (unwritten : ∀ call ∈ later, Leaves version.createdTxId key call) :
    Always step (ReadsBack key version) (after (before ++ [.write key version])) later ↔
      Clears key version (after before) ∧
        Guarded step (Quiet version.createdTxId key) (after (before ++ [.write key version])) later := by
  obtain ⟨earlier,legal,rest⟩ := (guarded_append _ _ _).mp history
  have sound := history_sound false before earlier
  have start : after (before ++ [.write key version]) = step (after before) (.write key version) := by
    simp [after]
  have others : Guarded step (fun manager call => Legal false manager call ∧
      Leaves version.createdTxId key call) (step (after before) (.write key version)) later :=
    (guarded_both _ _).mpr ⟨rest,(guarded_calls _ _ _).mpr unwritten⟩
  have next := step_sound false _ _ legal sound
  have exact (base : ReadsBack key version (step (after before) (.write key version))) :
      Always step (ReadsBack key version) (step (after before) (.write key version)) later ↔
        Guarded step (Quiet version.createdTxId key) (step (after before) (.write key version)) later :=
    always_iff_guarded Sound (ReadsBack key version) _
      (fun manager call allowed => step_sound false manager call allowed.1)
      (fun manager call allowed => step_reads_back key version manager call allowed.1 allowed.2)
      _ later others next base
  rw [start,← write_reads_back _ sound key version legal]
  constructor
  · intro always
    have base := always_start _ _ _ always
    exact ⟨base,(exact base).mp always⟩
  · rintro ⟨base,quiet⟩
    exact (exact base).mpr quiet

/-- The first transaction commits its version over the second one's. -/
def overtaken : List Call := [.write 7 {createdTxId := 1},.commit 1]

/-- A tombstone over a version that an aborted overwrite had stamped. -/
def undeleted : List Call :=
  [.begin,.write 7 {createdTxId := 1},.commit 1,.begin,.write 7 {createdTxId := 2},.abort 2,.begin]

theorem own_write_overtaken :
    History false ([.begin,.begin] ++ .write 7 {createdTxId := 2}::overtaken) ∧
      ¬Always step (ReadsBack 7 {createdTxId := 2})
        (after ([.begin,.begin] ++ [.write 7 {createdTxId := 2}])) overtaken ∧
      History false (undeleted ++ [.write 7 {createdTxId := 3, deletedTxId := 3}]) ∧
      ¬Always step (ReadsBack 7 {createdTxId := 3, deletedTxId := 3})
        (after (undeleted ++ [.write 7 {createdTxId := 3, deletedTxId := 3}])) [] := by
  refine ⟨?_,?_,?_,?_⟩ <;> decide

theorem own_write_iff_overtaken :
    Always step (ReadsBack 7 {createdTxId := 2})
        (after ([.begin,.begin] ++ [.write 7 {createdTxId := 2}])) overtaken ↔
      Clears 7 {createdTxId := 2} (after [.begin,.begin]) ∧
        Guarded step (Quiet 2 7) (after ([.begin,.begin] ++ [.write 7 {createdTxId := 2}]))
          overtaken :=
  own_write_iff [.begin,.begin] overtaken 7 {createdTxId := 2} (by decide) (by decide)

end LoreDB.Transaction.OwnWrites
