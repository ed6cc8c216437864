import LoreDB.Transaction.LockClients

/-! Sleepers and wake-ups. Whoever gives a lock back notifies all that sleep, so a client that sleeps unnotified has
somebody to wait for. -/
namespace LoreDB.Transaction.Wakeups
open LoreDB.Library.History LockManager LockClients

variable {Client : Type} [DecidableEq Client]

/-- A resource that was never asked for has no locks, and an unnotified sleeper is still blocked. -/
structure Alert (system : System Client) : Prop where
  entered : ∀ resourceId, system.entered resourceId = false → system.manager.lockTable resourceId = []
  blocked : ∀ client attempt, system.phase client = .waiting attempt false →
    hasConflict attempt.txId attempt.mode (system.manager.lockTable attempt.resourceId) = true

omit [DecidableEq Client] in
theorem notified_all (phase : Client → Phase) (client : Client) (attempt : Attempt) :
    notifyAll phase client ≠ .waiting attempt false := by
  unfold notifyAll
  cases phase client <;> simp

/-- Further entries do not unblock anybody. -/
theorem conflict_grows (attempt : Attempt) (requests more : List LockRequest)
    (conflict : hasConflict attempt.txId attempt.mode requests = true) :
    hasConflict attempt.txId attempt.mode (requests ++ more) = true := by
  unfold hasConflict at *
  rw [List.any_append,conflict,Bool.true_or]

theorem granted_blocks (manager granted : LockManager) (attempt waiting : Attempt)
    (table : granted.lockTable = Function.update manager.lockTable attempt.resourceId
      (manager.lockTable attempt.resourceId ++ [⟨attempt.txId,attempt.mode,true⟩]))
    (conflict : hasConflict waiting.txId waiting.mode (manager.lockTable waiting.resourceId) = true) :
    hasConflict waiting.txId waiting.mode (granted.lockTable waiting.resourceId) = true := by
  rw [table,Function.update_apply]
  split
  · rename_i same
    rw [same] at conflict
    exact conflict_grows waiting _ _ conflict
  · exact conflict

theorem pass_alert (client : Client) (attempt : Attempt) (system : System Client) (alert : Alert system) :
    Alert (pass client attempt system).2 := by
  have cases := lock_cases system.manager attempt
  unfold LockClients.pass
  dsimp only at cases ⊢
  cases done : system.manager.lock attempt.txId attempt.resourceId attempt.mode with
  | mk outcome manager =>
    rw [done] at cases
    have entered (table : manager.lockTable = system.manager.lockTable ∨ manager.lockTable =
          Function.update system.manager.lockTable attempt.resourceId
            (system.manager.lockTable attempt.resourceId ++ [⟨attempt.txId,attempt.mode,true⟩]))
        (resourceId : ResourceId) (absent : Function.update system.entered attempt.resourceId true resourceId = false) :
        manager.lockTable resourceId = [] := by
      have other : resourceId ≠ attempt.resourceId := by
        rintro rfl
        simp at absent
      rw [Function.update_of_ne other] at absent
      rcases table with same | grown
      · rw [same]
        exact alert.entered resourceId absent
      · rw [grown,Function.update_of_ne other]
        exact alert.entered resourceId absent
    obtain ⟨_,granted,table,_⟩ | ⟨_,refused,table,_⟩ | ⟨conflict,waits,table,_⟩ := cases
    · refine ⟨entered (.inr table),fun other waiting asleep => ?_⟩
      dsimp only at granted asleep
      rw [granted,if_neg (by simp),Function.update_apply] at asleep
      split at asleep
      · cases asleep
      · exact granted_blocks system.manager manager attempt waiting table (alert.blocked other waiting asleep)
    · refine ⟨entered (.inl table),fun other waiting asleep => ?_⟩
      dsimp only at refused table asleep
      rw [refused,if_neg (by simp),Function.update_apply] at asleep
      split at asleep
      · cases asleep
      · dsimp only
        rw [table]
        exact alert.blocked other waiting asleep
    · refine ⟨entered (.inl table),fun other waiting asleep => ?_⟩
      dsimp only at waits table asleep ⊢
      rw [waits,if_pos rfl,Function.update_apply] at asleep
      rw [table]
      split at asleep
      · cases asleep
        exact conflict
      · exact alert.blocked other waiting asleep

theorem step_alert (system : System Client) (call : Call Client) (alert : Alert system) : Alert (step system call) := by
  obtain ⟨client,attempt,_,stepped⟩ | ⟨_,txId,resourceId,_,_,stepped⟩ | ⟨_,txId,_,_,stepped⟩ | stepped :=
    step_cases system call
  · rw [stepped]
    exact pass_alert client attempt system alert
  · rw [stepped]
    refine ⟨fun other absent => ?_,fun client attempt asleep => ?_⟩
    · refine List.eq_nil_iff_forall_not_mem.mpr fun request member => ?_
      have before := unlock_fewer txId resourceId other _ request member
      rw [alert.entered other absent] at before
      cases before
    · cases entry : system.entered resourceId with
      | true =>
        simp only [entry,if_true] at asleep
        exact absurd asleep (notified_all system.phase client attempt)
      | false =>
        have unlocked : (system.manager.unlock txId resourceId).lockTable = system.manager.lockTable := by
          simp [unlock,alert.entered resourceId entry]
        simp only [entry] at asleep
        dsimp only
        rw [unlocked]
        exact alert.blocked client attempt asleep
  · rw [stepped]
    refine ⟨fun other absent => ?_,fun client attempt asleep => ?_⟩
    · refine List.eq_nil_iff_forall_not_mem.mpr fun request member => ?_
      have before := unlockAll_fewer txId other _ request member
      rw [alert.entered other absent] at before
      cases before
    · exact absurd asleep (notified_all system.phase client attempt)
  · rwa [stepped]

omit [DecidableEq Client] in
theorem initial_alert : Alert ({} : System Client) where
  entered _ _ := rfl
  blocked _ _ asleep := by cases asleep

/-- No wake-up is lost. Whoever sleeps without having been notified waits for another transaction that holds a lock
at that moment. -/
theorem sleeper_blocked (calls : List (Call Client)) (client : Client) (attempt : Attempt)
    (asleep : (run step {} calls).phase client = .waiting attempt false) :
    ∃ holder, holder ≠ attempt.txId ∧ Blocker (run step {} calls).manager attempt holder := by
  have alert := run_keeps Alert step_alert {} calls initial_alert
  obtain ⟨request,member,blocking⟩ := List.any_eq_true.mp (alert.blocked client attempt asleep)
  refine ⟨request.txId,?_,request,member,blocking,rfl⟩
  rintro own
  simp [blocks,own] at blocking

/-- Two sleepers are notified when the first transaction gives its lock back; the one that runs first takes it, and
the other one sleeps again. -/
def reawakened : List (Call Nat) := [.lock 1 ⟨1,5,.exclusive⟩,.lock 2 ⟨2,5,.exclusive⟩,.lock 3 ⟨3,5,.shared⟩,
  .unlock 1 1 5,.wake 3,.wake 2]

theorem sleeper_blocked_reawakened :
    ∃ holder, holder ≠ 2 ∧ Blocker (run step {} reawakened).manager ⟨2,5,.exclusive⟩ holder :=
  sleeper_blocked reawakened 2 ⟨2,5,.exclusive⟩ (by decide)

end LoreDB.Transaction.Wakeups
