import LoreDB.Transaction.MvccHistory

/-! Reads and collections in every reachable state of a version store. -/
namespace LoreDB.Transaction.ReachableReads
open LoreDB.Library LoreDB.Library.History MvccHistory TransactionManager

/-- A read of an issued transaction returns a version of its own or of a committed
transaction with a smaller id, and never a tombstone. Collections may have run at
any point, up to any id. -/
theorem read_clean (calls : List Call) (history : History true calls) (key : UInt64) (reader : Nat)
    (issued : (after calls).txnManager.Issued reader) (v : Version)
    (found : (after calls).readVersion key reader = .ok v) :
    (v.createdTxId = reader ∨
      (after calls).txnManager.stateOf v.createdTxId = some .committed ∧
        v.createdTxId < reader) ∧
      v.createdTxId ≠ v.deletedTxId := by
  have sound := history_sound true calls history
  obtain ⟨member,visible⟩ := VersionChain.newest_mem _ _ _ ((MVCCManager.read_found _ _ _ _).mp found)
  have creator := sound.creators key v member
  rcases (visible_iff _ _ _).mp visible with ⟨own,unstamped⟩ | ⟨below,committed,unstamped⟩
  · refine ⟨.inl own,?_⟩
    intro tombstone
    have positive := issued.1
    omega
  · refine ⟨.inr ⟨(sound.wellformed.committed_state _ creator).mp committed,below⟩,?_⟩
    intro tombstone
    rcases unstamped with live | ⟨_,pending⟩
    · have positive := creator.1
      omega
    · exact pending ⟨tombstone ▸ committed,tombstone ▸ below⟩

def overwritten : List Call :=
  [.begin,.write 7 {createdTxId := 1},.commit 1,.begin,.write 7 {createdTxId := 2}]

/-- The second transaction overwrites a committed version and reads its own. -/
theorem read_clean_overwritten :
    History true overwritten ∧ (after overwritten).txnManager.Issued 2 ∧
      ((2 = 2 ∨ (after overwritten).txnManager.stateOf 2 = some .committed ∧ 2 < 2) ∧ 2 ≠ 0) := by
  have history : History true overwritten := by decide
  have issued : (after overwritten).txnManager.Issued 2 := by decide
  exact ⟨history,issued,read_clean overwritten history 7 2 issued {createdTxId := 2} (by decide)⟩

/-- No transaction with an id below `minActiveTxId` is still active. -/
def Finished (manager : MVCCManager) (minActiveTxId : Nat) : Prop :=
  ∀ t < minActiveTxId, manager.txnManager.Issued t →
    manager.txnManager.stateOf t ≠ some .active

/-- A collection up to `minActiveTxId` changes no read of a transaction id from
there on, error texts aside. -/
def CollectionInvisible (manager : MVCCManager) (minActiveTxId : Nat) : Prop :=
  ∀ key reader, minActiveTxId ≤ reader →
    ((step manager (.collect minActiveTxId)).readVersion key reader).mapError MVCCError.code =
      (manager.readVersion key reader).mapError MVCCError.code

/-- The reader's own version, or a committed one whose stamp an aborted transaction
left, under a stamp that the collection takes for the end of its life. -/
def Exposed (txnManager : TransactionManager) (minActiveTxId reader : Nat) (v : Version) : Prop :=
  v.deletedTxId ≠ 0 ∧ v.deletedTxId < minActiveTxId ∧
    (v.createdTxId = reader ∨ v.createdTxId < reader ∧
      txnManager.isTransactionCommitted v.createdTxId = true ∧
      txnManager.stateOf v.deletedTxId = some .aborted)

/-- Every exposed version lies below a newer one that its reader sees and the
collection keeps. -/
def Covered (manager : MVCCManager) (minActiveTxId : Nat) : Prop :=
  ∀ key reader, minActiveTxId ≤ reader → ∀ older v newer,
    manager.chain key = older ++ v::newer → Exposed manager.txnManager minActiveTxId reader v →
      ∃ w ∈ newer, isVersionVisible manager.txnManager reader w = true ∧
        MVCCManager.survives minActiveTxId w = true

theorem finished_aborted {manager : MVCCManager} (sound : Sound manager) {minActiveTxId : Nat}
    (finished : Finished manager minActiveTxId) (t : Nat) (issued : manager.txnManager.Issued t)
    (below : t < minActiveTxId) :
    manager.txnManager.stateOf t = some .aborted ↔
      manager.txnManager.isTransactionCommitted t = false := by
  have settled := finished t below issued
  have committed := sound.wellformed.committed_state t issued
  obtain ⟨txn,found⟩ := Option.isSome_iff_exists.mp ((sound.wellformed.issued t).mpr issued)
  rw [← Bool.not_eq_true,committed]
  simp only [stateOf,found,Option.map_some,Option.some.injEq] at settled ⊢
  cases state : txn.state <;> simp_all

/-- Exposed are the versions that a reader from `minActiveTxId` on sees although the
collection drops them. -/
theorem exposed_iff {manager : MVCCManager} (sound : Sound manager) {minActiveTxId : Nat}
    (finished : Finished manager minActiveTxId) {reader : Nat} (bound : minActiveTxId ≤ reader)
    {key : UInt64} {v : Version} (member : v ∈ manager.chain key) :
    Exposed manager.txnManager minActiveTxId reader v ↔
      isVersionVisible manager.txnManager reader v = true ∧
        MVCCManager.survives minActiveTxId v = false := by
  have dropped : MVCCManager.survives minActiveTxId v = false ↔
      v.deletedTxId ≠ 0 ∧ v.deletedTxId < minActiveTxId := by
    simp [MVCCManager.survives]
  rw [visible_iff,dropped]
  constructor
  · rintro ⟨stamped,below,own | ⟨smaller,committed,aborted⟩⟩
    · exact ⟨.inl ⟨own,.inr (by omega)⟩,stamped,below⟩
    · have issued := sound.stamps key v member stamped
      have unsettled := (finished_aborted sound finished _ issued below).mp aborted
      exact ⟨.inr ⟨smaller,committed,.inr ⟨by omega,by simp [unsettled]⟩⟩,stamped,below⟩
  · rintro ⟨visible,stamped,below⟩
    refine ⟨stamped,below,?_⟩
    rcases visible with ⟨own,_⟩ | ⟨smaller,committed,unstamped⟩
    · exact .inl own
    · have issued := sound.stamps key v member stamped
      refine .inr ⟨smaller,committed,(finished_aborted sound finished _ issued below).mpr ?_⟩
      rcases unstamped with live | ⟨_,pending⟩
      · exact absurd live stamped
      · rw [← Bool.not_eq_true]
        exact fun settled => pending ⟨settled,by omega⟩

/-- With no active transaction below `minActiveTxId`, a collection is invisible from
there on exactly when every exposed version is covered. -/
theorem collection_invisible_iff (calls : List Call) (history : History true calls)
    (minActiveTxId : Nat) (finished : Finished (after calls) minActiveTxId) :
    CollectionInvisible (after calls) minActiveTxId ↔ Covered (after calls) minActiveTxId := by
  have sound := history_sound true calls history
  have reads (key : UInt64) (reader : Nat) :
      ((step (after calls) (.collect minActiveTxId)).readVersion key reader).mapError
          MVCCError.code = ((after calls).readVersion key reader).mapError MVCCError.code ↔
        VersionChain.Shadowed (isVersionVisible (after calls).txnManager reader)
          (MVCCManager.survives minActiveTxId) ((after calls).chain key) := by
    rw [MVCCManager.read_agree,← VersionChain.newest_filter_iff,step,MVCCManager.collect_chain]
    rfl
  unfold CollectionInvisible Covered
  refine forall₂_congr fun key reader => forall_congr' fun bound => (reads key reader).trans ?_
  refine forall₃_congr fun older v newer => forall_congr' fun split => ?_
  rw [exposed_iff sound finished bound (by rw [split]; simp : v ∈ (after calls).chain key)]
  exact ⟨fun shadowed both => shadowed both.1 both.2,fun covered sees drops => covered ⟨sees,drops⟩⟩

def abandoned : List Call :=
  [.begin,.write 7 {createdTxId := 1},.commit 1,.begin,.write 7 {createdTxId := 2},.abort 2]

/-- The aborted overwrite left its stamp on the committed version, which the
collection then takes from every later reader. -/
theorem collection_takes_committed :
    History false abandoned ∧ Finished (after abandoned) 3 ∧
      ¬CollectionInvisible (after abandoned) 3 := by
  refine ⟨by decide,by unfold Finished; decide,?_⟩
  intro invisible
  exact absurd (invisible 7 3 (Nat.le_refl 3)) (by decide)

theorem collection_invisible_iff_abandoned :
    CollectionInvisible (after abandoned) 3 ↔ Covered (after abandoned) 3 :=
  collection_invisible_iff abandoned (by decide) 3 (by unfold Finished; decide)

end LoreDB.Transaction.ReachableReads
