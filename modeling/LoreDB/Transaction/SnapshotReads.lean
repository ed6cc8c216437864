import LoreDB.Transaction.StableReads

/-! Reads of one key by a transaction that does not write it. The transaction begins
after the calls `before`, and all calls that follow may come from other transactions. -/
namespace LoreDB.Transaction.SnapshotReads
open LoreDB.Library LoreDB.Library.History MvccHistory StableReads TransactionManager

/-- The id that the next transaction to begin is issued. -/
def reader (before : List Call) : Nat := (after before).txnManager.nextTransactionId

/-- A read after `between` returns a version only of a transaction that committed
before the reader began, and a read after `later` returns the same. -/
def Snapshot (before between later : List Call) (key : UInt64) : Prop :=
  (∀ v, (after (before ++ .begin::between)).readVersion key (reader before) = .ok v →
    (after (before ++ .begin::between)).txnManager.CommittedBefore v.createdTxId (reader before)) ∧
  (after (before ++ .begin::(between ++ later))).observed key (reader before) =
    (after (before ++ .begin::between)).observed key (reader before)

/-- What a reader observes of a key it never writes is settled when it begins. -/
structure Settled (reader : Nat) (key : UInt64) (first : Except MVCCErrorCode Version)
    (manager : MVCCManager) : Prop where
  sound : Sound manager
  same : manager.observed key reader = first
  earlier : ∀ v, first = .ok v → manager.txnManager.CommittedBefore v.createdTxId reader

/-- Whatever a new transaction observes was committed before its start timestamp. -/
theorem begin_settled (manager : MVCCManager) (sound : Sound manager) (key : UInt64) :
    Settled manager.txnManager.nextTransactionId key
      ((step manager .begin).observed key manager.txnManager.nextTransactionId)
      (step manager .begin) := by
  refine ⟨step_sound false manager .begin trivial sound,rfl,?_⟩
  intro v observes
  rw [MVCCManager.observed_chain] at observes
  cases found : VersionChain.newest (isVersionVisible (step manager .begin).txnManager
      manager.txnManager.nextTransactionId) ((step manager .begin).chain key) with
  | none => simp [found] at observes
  | some w =>
    rw [found] at observes
    cases observes
    obtain ⟨member,sees⟩ := VersionChain.newest_mem _ _ w found
    have issued : manager.txnManager.Issued w.createdTxId := sound.creators key w member
    have bound := issued.2
    obtain ⟨own,_⟩ | ⟨_,committed,_⟩ := (visible_iff _ _ _).mp sees
    · omega
    · have before := begin_committed sound.wellformed w.createdTxId issued
      have state := (sound.wellformed.committed_state _ issued).mp (before.symm.trans committed)
      obtain ⟨x,lookup,ended⟩ := Option.map_eq_some_iff.mp state
      obtain ⟨x',later,_,finished⟩ := begin_continues sound.wellformed _ x lookup
      cases finished (by simp [ended])
      have order := (sound.wellformed.ended _ x lookup ended).2
      refine ⟨x,later,{id := manager.txnManager.nextTransactionId, startTimestamp :=
        manager.txnManager.currentTimestamp},?_,ended,order⟩
      simp [step,beginTransaction,getCurrentTimestamp]

theorem step_settled (reader : Nat) (key : UInt64) (first : Except MVCCErrorCode Version)
    (manager : MVCCManager) (call : Call)
    (allowed : (Legal false manager call ∧ Leaves reader key call) ∧ Quiet reader key manager call)
    (settled : Settled reader key first manager) : Settled reader key first (step manager call) where
  sound := step_sound false manager call allowed.1.1 settled.sound
  same := (step_observed manager call allowed.1.1 settled.sound reader key allowed.1.2
    allowed.2).trans settled.same
  earlier v found := step_before manager call settled.sound _ _ (settled.earlier v found)

/-- As long as every call after its start is quiet, a transaction reads a key it does
not write from one snapshot: what had committed before it began. -/
theorem snapshot_read (before between later : List Call) (key : UInt64)
    (history : History false (before ++ .begin::(between ++ later)))
    (unwritten : ∀ call ∈ between ++ later, Leaves (reader before) key call)
    (quiet : Guarded step (Quiet (reader before) key) (after (before ++ [.begin]))
      (between ++ later)) : Snapshot before between later key := by
  obtain ⟨earlier,_,rest⟩ := (guarded_append _ _ _).mp history
  have start : after (before ++ [.begin]) = step (after before) .begin := by simp [after]
  rw [start] at quiet
  have allowed := (guarded_both _ _).mpr
    ⟨(guarded_both _ _).mpr ⟨rest,(guarded_calls _ _ _).mpr unwritten⟩,quiet⟩
  obtain ⟨first,second⟩ := (guarded_append _ _ _).mp allowed
  have initially := begin_settled (after before) (history_sound false before earlier) key
  have middle := run_preserves _ (step_settled _ key _) _ between first initially
  have final := run_preserves _ (step_settled _ key _) _ later second middle
  have reached (calls : List Call) : after (before ++ .begin::calls) =
      run step (step (after before) .begin) calls := by
    simp [after]
  unfold Snapshot
  rw [reached,reached,run_append]
  refine ⟨fun v found => ?_,final.same.trans middle.same.symm⟩
  have observes := MVCCManager.observed_found _ _ _ v ((MVCCManager.read_found _ _ _ _).mp found)
  exact middle.earlier v.content (middle.same.symm.trans observes)

def overwrittenLater : List Call := [.write 7 {createdTxId := 1},.commit 1]

/-- The reader began before the writer with the smaller id committed. -/
theorem snapshot_moves :
    History false ([.begin] ++ .begin::(overwrittenLater ++ [])) ∧
      ¬Snapshot [.begin] overwrittenLater [] 7 ∧ ¬Snapshot [.begin] [] overwrittenLater 7 := by
  refine ⟨by decide,?_,?_⟩
  · intro snapshot
    exact absurd (snapshot.1 {createdTxId := 1} (by decide)) (by decide)
  · intro snapshot
    exact absurd snapshot.2 (by decide)

/-- The reader keeps the committed version while a later transaction overwrites it. -/
theorem snapshot_read_kept :
    Snapshot [.begin,.write 7 {createdTxId := 1},.commit 1] [.begin]
      [.write 7 {createdTxId := 3},.commit 3] 7 :=
  snapshot_read [.begin,.write 7 {createdTxId := 1},.commit 1] [.begin]
    [.write 7 {createdTxId := 3},.commit 3] 7 (by decide) (by decide) (by decide)

end LoreDB.Transaction.SnapshotReads
