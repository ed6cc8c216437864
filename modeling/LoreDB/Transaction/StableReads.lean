import LoreDB.Transaction.MvccHistory

/-! What the calls of other transactions can do to a reader's view of a key. A commit
settles the versions and the stamps of the committing transaction at once, so it moves
the view of every reader with a larger id that a version or a stamp of it reaches. -/
namespace LoreDB.Transaction.StableReads
open LoreDB.Library LoreDB.Library.History MvccHistory TransactionManager

/-- The commit of `writer` brings its version into the reader's sight. -/
def Appears (txnManager : TransactionManager) (reader writer : Nat) (v : Version) : Prop :=
  v.createdTxId = writer ∧ (v.deletedTxId = 0 ∨ v.deletedTxId ≠ writer ∧ v.deletedTxId ≠ reader ∧
    ¬(txnManager.isTransactionCommitted v.deletedTxId = true ∧ v.deletedTxId < reader))

/-- The commit of `writer` takes the version under its stamp out of the reader's sight. -/
def Disappears (txnManager : TransactionManager) (reader writer : Nat) (v : Version) : Prop :=
  v.deletedTxId = writer ∧ v.createdTxId ≠ reader ∧ isVersionVisible txnManager reader v = true

/-- The calls that leave a reader's view of a key alone. A commit of a smaller id must
not move the versions that the reader's search looks at, and a committed writer with a
smaller id may only add a tombstone where the reader sees no live version. -/
def Quiet (reader : Nat) (key : UInt64) (manager : MVCCManager) : Call → Prop
  | .commit writer => writer < reader → manager.txnManager.activeTransactions writer = true →
      ∀ v ∈ VersionChain.examined (isVersionVisible manager.txnManager reader) (manager.chain key),
        ¬Appears manager.txnManager reader writer v ∧
          ¬Disappears manager.txnManager reader writer v
  | .write other version => other = key → version.createdTxId < reader →
      manager.txnManager.isTransactionCommitted version.createdTxId = true →
        version.deletedTxId ≠ 0 ∧ ∀ v ∈ manager.chain key, v.deletedTxId = 0 →
          v.createdTxId ≠ reader → isVersionVisible manager.txnManager reader v = false
  | _ => True

/-- The reader writes nothing to the key. -/
def Leaves (reader : Nat) (key : UInt64) : Call → Prop
  | .write other version => other = key → version.createdTxId ≠ reader
  | _ => True

section Instances

variable (txnManager : TransactionManager) (reader writer : Nat) (v : Version)

instance : Decidable (Appears txnManager reader writer v) := inferInstanceAs (Decidable (_ ∧ _))

instance : Decidable (Disappears txnManager reader writer v) := inferInstanceAs (Decidable (_ ∧ _))

instance (reader : Nat) (key : UInt64) (manager : MVCCManager) :
    (call : Call) → Decidable (Quiet reader key manager call)
  | .begin | .abort _ | .collect _ => .isTrue trivial
  | .commit _ => inferInstanceAs (Decidable (_ → _ → _))
  | .write _ _ => inferInstanceAs (Decidable (_ → _ → _ → _))

instance (reader : Nat) (key : UInt64) : (call : Call) → Decidable (Leaves reader key call)
  | .begin | .commit _ | .abort _ | .collect _ => .isTrue trivial
  | .write _ _ => inferInstanceAs (Decidable (_ → _))

end Instances

/-- Visibility asks only whether the creator and the deleter have committed, and only
of ids below the reader's. -/
theorem visible_congr (first second : TransactionManager) (reader : Nat) (v : Version)
    (created : v.createdTxId < reader → first.isTransactionCommitted v.createdTxId =
      second.isTransactionCommitted v.createdTxId)
    (deleted : v.deletedTxId ≠ 0 → v.deletedTxId < reader →
      first.isTransactionCommitted v.deletedTxId = second.isTransactionCommitted v.deletedTxId) :
    isVersionVisible first reader v = isVersionVisible second reader v := by
  rw [Bool.eq_iff_iff,visible_iff,visible_iff]
  by_cases below : v.createdTxId < reader
  · rw [created below]
    by_cases live : v.deletedTxId = 0
    · simp [live]
    · by_cases order : v.deletedTxId < reader
      · rw [deleted live order]
      · simp [order]
  · simp [below]

/-- A version that the commit of a smaller id brings into sight was hidden before and
is visible after. -/
theorem commit_appears {manager : TransactionManager} (wellformed : manager.Wellformed)
    (reader writer : Nat) (below : writer < reader)
    (active : manager.activeTransactions writer = true) (v : Version)
    (appears : Appears manager reader writer v) :
    isVersionVisible manager reader v = false ∧
      isVersionVisible (manager.commitTransaction writer).2 reader v = true := by
  obtain ⟨rfl,unstamped⟩ := appears
  have pending : manager.isTransactionCommitted v.createdTxId = false := by
    simp [isTransactionCommitted,active]
  constructor
  · rw [← Bool.not_eq_true,visible_iff]
    rintro (⟨own,_⟩ | ⟨_,committed,_⟩)
    · omega
    · rw [pending] at committed
      contradiction
  · rw [visible_iff,commit_committed wellformed,commit_committed wellformed]
    refine .inr ⟨below,by simp [active],?_⟩
    rcases unstamped with live | ⟨foreign,other,unsettled⟩
    · exact .inl live
    · exact .inr ⟨other,by simpa [foreign] using unsettled⟩

/-- A commit that neither shows nor hides a version leaves its visibility alone. -/
theorem commit_visible {manager : TransactionManager} (wellformed : manager.Wellformed)
    (reader writer : Nat) (v : Version)
    (quiet : writer < reader → manager.activeTransactions writer = true →
      ¬Appears manager reader writer v ∧ ¬Disappears manager reader writer v) :
    isVersionVisible (manager.commitTransaction writer).2 reader v =
      isVersionVisible manager reader v := by
  have committed := commit_committed wellformed writer
  by_cases moves : writer < reader ∧ manager.activeTransactions writer = true
  · obtain ⟨below,active⟩ := moves
    obtain ⟨hidden,kept⟩ := quiet below active
    have pending : manager.isTransactionCommitted writer = false := by
      simp [isTransactionCommitted,active]
    by_cases created : v.createdTxId = writer
    · -- the writer's own version: hidden before, and its stamp keeps it hidden
      have before : isVersionVisible manager reader v = false := by
        rw [← Bool.not_eq_true,visible_iff,created,pending]
        rintro (⟨own,_⟩ | ⟨_,absurd,_⟩)
        · omega
        · contradiction
      rw [before,← Bool.not_eq_true,visible_iff]
      rintro (⟨own,_⟩ | ⟨_,_,unstamped⟩)
      · omega
      · refine hidden ⟨created,unstamped.imp_right ?_⟩
        rintro ⟨foreign,unsettled⟩
        rw [committed] at unsettled
        refine ⟨?_,foreign,fun settled => unsettled ⟨by simp [settled.1],settled.2⟩⟩
        intro own
        exact unsettled ⟨by simp [own,active],own ▸ below⟩
    · have creator : (manager.commitTransaction writer).2.isTransactionCommitted v.createdTxId =
          manager.isTransactionCommitted v.createdTxId := by
        simp [committed,created]
      by_cases stamped : v.deletedTxId = writer
      · -- under the writer's stamp: kept only where the stamp has no force
        rw [Bool.eq_iff_iff]
        constructor
        · rw [visible_iff,visible_iff,creator]
          rintro (own | ⟨smaller,settled,unstamped⟩)
          · exact .inl own
          · refine .inr ⟨smaller,settled,unstamped.imp_right ?_⟩
            rintro ⟨foreign,_⟩
            exact ⟨foreign,by simp [stamped,pending]⟩
        · intro seen
          have own : v.createdTxId = reader := by
            by_contra foreign
            exact kept ⟨stamped,foreign,seen⟩
          rw [visible_iff] at seen ⊢
          exact .inl ⟨own,.inr (by omega)⟩
      · exact visible_congr _ _ reader v (fun _ => creator) (fun _ _ => by simp [committed,stamped])
  · have unchanged (t : Nat) (smaller : t < reader) :
        (manager.commitTransaction writer).2.isTransactionCommitted t =
          manager.isTransactionCommitted t := by
      rw [committed]
      by_cases same : t = writer
      · subst same
        have idle : manager.activeTransactions t = false := by simpa [smaller] using moves
        simp [idle]
      · simp [same]
    exact visible_congr _ _ reader v (unchanged _) (fun _ => unchanged _)

/-- A foreign stamp hides a live version only from readers on which it has force. -/
theorem stamp_visible (txnManager : TransactionManager) (reader writer : Nat) (v : Version)
    (foreign : writer ≠ reader)
    (weak : v.deletedTxId = 0 → writer < reader → txnManager.isTransactionCommitted writer = true →
      v.createdTxId ≠ reader → isVersionVisible txnManager reader v = false) :
    isVersionVisible txnManager reader (stamp writer v) = isVersionVisible txnManager reader v := by
  unfold stamp
  split
  · rename_i live
    by_cases force : txnManager.isTransactionCommitted writer = true ∧ writer < reader
    · by_cases own : v.createdTxId = reader
      · rw [Bool.eq_iff_iff,visible_iff,visible_iff]
        simp [own,live,foreign]
      · rw [weak live force.2 force.1 own,← Bool.not_eq_true,visible_iff]
        rintro (⟨mine,_⟩ | ⟨smaller,settled,unstamped⟩)
        · exact own mine
        · rcases unstamped with zero | ⟨_,unsettled⟩
          · -- the stamp of id 0 would be no stamp at all
            have seen := weak live force.2 force.1 own
            rw [← Bool.not_eq_true,visible_iff] at seen
            exact seen (.inr ⟨smaller,settled,.inl live⟩)
          · exact unsettled force
    · rw [Bool.eq_iff_iff,visible_iff,visible_iff]
      simp [live,foreign,force]
  · rfl

theorem live_last {manager : MVCCManager} (sound : Sound manager) (key : UInt64) (v : Version)
    (member : v ∈ manager.chain key) (live : v.deletedTxId = 0) :
    ∃ older, manager.chain key = older ++ [v] := by
  have linked := sound.linked key
  cases chain : manager.chain key using List.reverseRecOn with
  | nil => simp [chain] at member
  | append_singleton front last =>
    rw [chain] at member linked
    rw [List.dropLast_concat] at linked
    rcases List.mem_append.mp member with inside | final
    · exact absurd live (linked v inside)
    · exact ⟨front,by rw [List.mem_singleton.mp final]⟩

/-- A quiet call of other transactions changes nothing that the reader observes. -/
theorem step_observed (manager : MVCCManager) (call : Call) (legal : Legal false manager call)
    (sound : Sound manager) (reader : Nat) (key : UInt64) (leaves : Leaves reader key call)
    (quiet : Quiet reader key manager call) :
    (step manager call).observed key reader = manager.observed key reader := by
  rw [MVCCManager.observed_agree]
  cases call with
  | begin =>
    congr 1
    refine VersionChain.newest_congr _ _ _ fun v member => ?_
    have started := begin_committed sound.wellformed
    exact visible_congr _ _ reader v (fun _ => started _ (sound.creators key v member))
      (fun stamped _ => started _ (sound.stamps key v member stamped))
  | commit writer =>
    congr 1
    refine (VersionChain.newest_examined _ _ _ fun v member => ?_).symm
    exact (commit_visible sound.wellformed reader writer v
      (fun below active => quiet below active v member)).symm
  | abort writer =>
    congr 1
    refine VersionChain.newest_congr _ _ _ fun v _ => ?_
    exact visible_congr _ _ reader v (fun _ => abort_committed sound.wellformed writer _)
      (fun _ _ => abort_committed sound.wellformed writer _)
  | write other version =>
    obtain ⟨same,_,chains⟩ := write_step manager sound.free other version
    rw [same,chains]
    split
    · rename_i target
      subst target
      have foreign : version.createdTxId ≠ reader := leaves rfl
      have unseen : isVersionVisible manager.txnManager reader version = false := by
        rw [← Bool.not_eq_true,visible_iff]
        rintro (⟨own,_⟩ | ⟨below,settled,unstamped⟩)
        · exact foreign own
        · obtain ⟨dead,_⟩ := quiet rfl below settled
          have tombstone := legal.2.resolve_left dead
          exact (unstamped.resolve_left dead).2 ⟨tombstone ▸ settled,tombstone ▸ below⟩
      rw [written,VersionChain.newest_concat,unseen]
      refine VersionChain.newest_modifyLast Version.content _ _ _ (fun v member => ?_) ?_
      · refine stamp_visible _ reader _ v foreign fun live below settled other => ?_
        exact (quiet rfl below settled).2 v (List.mem_of_getLast? member) live other
      · intro v
        unfold stamp
        split <;> rfl
    · rfl
  | collect minActiveTxId => simp [Legal] at legal

/-- Where the reader observes a version of its own or none, the quiet calls are
exactly the ones that change nothing. -/
theorem step_observed_iff (manager : MVCCManager) (call : Call) (legal : Legal false manager call)
    (sound : Sound manager) (reader : Nat) (key : UInt64) (leaves : Leaves reader key call)
    (own : ∀ v, manager.observed key reader = .ok v → v.createdTxId = reader) :
    (step manager call).observed key reader = manager.observed key reader ↔
      Quiet reader key manager call := by
  refine ⟨fun same => ?_,step_observed manager call legal sound reader key leaves⟩
  cases call with
  | begin => trivial
  | commit writer =>
    intro below active v member
    constructor
    · intro appears
      obtain ⟨hidden,shown⟩ := commit_appears sound.wellformed reader writer below active v appears
      obtain ⟨w,found,_,unseen⟩ := VersionChain.newest_appears _ _ _ v member hidden shown
      have observes := MVCCManager.observed_found key reader (step manager (.commit writer)) w found
      have mine : w.createdTxId = reader := own w.content (same.symm.trans observes)
      have sees := (VersionChain.newest_mem _ _ w found).2
      rw [visible_iff] at sees
      rw [← Bool.not_eq_true,visible_iff] at unseen
      exact unseen (.inl ⟨mine,(sees.resolve_right (by omega)).2⟩)
    · rintro ⟨_,foreign,sees⟩
      have found := VersionChain.examined_seen _ _ v member sees
      exact foreign (own v.content (MVCCManager.observed_found key reader manager v found))
  | abort writer => trivial
  | write other version =>
    intro target below settled
    subst target
    have foreign : version.createdTxId ≠ reader := leaves rfl
    obtain ⟨sameTables,_,chains⟩ := write_step manager sound.free other version
    constructor
    · intro live
      have found : VersionChain.newest
          (isVersionVisible (step manager (.write other version)).txnManager reader)
          ((step manager (.write other version)).chain other) = some version := by
        rw [sameTables,chains,if_pos rfl,written,VersionChain.newest_concat,if_pos]
        exact (visible_iff _ _ _).mpr (.inr ⟨below,settled,.inl live⟩)
      have observes := MVCCManager.observed_found _ _ _ version found
      exact foreign (own version.content (same.symm.trans observes))
    · intro v member live other
      rw [← Bool.not_eq_true]
      intro sees
      obtain ⟨older,split⟩ := live_last sound _ v member live
      have found := VersionChain.newest_concat (isVersionVisible manager.txnManager reader) older v
      rw [← split,if_pos sees] at found
      exact other (own v.content (MVCCManager.observed_found _ _ _ v found))
  | collect minActiveTxId => trivial

end LoreDB.Transaction.StableReads
