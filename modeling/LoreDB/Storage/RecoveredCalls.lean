import LoreDB.Storage.WalReading

/-! How often a recovery hands a record over. Whatever the file holds, a record takes at least its frame of 29
bytes, and so does every attempt that does not end the recovery. -/
namespace LoreDB.Storage.RecoveredCalls
open LoreDB.Library.ByteStream WalReading WALManager

/-- An `apply_fn` that counts its calls. -/
def counted {α : Type} (apply : α → WALRecord → Except Error Unit × α) (state : α × ℕ) (record : WALRecord) :
    Except Error Unit × α × ℕ :=
  ((apply state.1 record).1,(apply state.1 record).2,state.2 + 1)

/-- An attempt to read a record gets past a frame or runs into the end of the file. -/
theorem readRecord_progress (file : InStream) (good : file.good = true) :
    Ended (readRecord file).2 ∨
      (readRecord file).2.good = true ∧ (readRecord file).2.remaining.length + 29 ≤ file.remaining.length := by
  rw [good_stream file good]
  by_cases long : 29 ≤ file.remaining.length
  · obtain ⟨type,data,next,-,reads,fine,shorter⟩ | ⟨e,next,reads,ended⟩ | ⟨⟨e,reads⟩,-⟩ :=
      readRecord_cases file.remaining file.unset long
    · rw [reads]
      exact .inr ⟨fine,shorter⟩
    · rw [reads]
      exact .inl ended
    · rw [reads]
      refine .inr ⟨rfl,?_⟩
      rw [List.length_drop]
      exact Nat.le_of_eq (Nat.sub_add_cancel long)
  · obtain ⟨e,next,reads,ended⟩ := readRecord_short file.remaining file.unset (Nat.lt_of_not_le long)
    rw [reads]
    exact .inl ended

/-- A record is handed over only from a stream that is still good. -/
theorem readRecord_delivers (file next : InStream) (record : WALRecord)
    (reads : readRecord file = (.ok record,next)) : next.fail = false := by
  simp only [readRecord] at reads
  split at reads
  · cases reads
  · split at reads
    · cases reads
    · split at reads
      · cases reads
      · split at reads
        · cases reads
        · rename_i fine
          cases reads
          exact Bool.eq_false_iff.mpr fine

section Succeeding

variable {α : Type} (apply : α → WALRecord → Except Error Unit × α)
  (succeeds : ∀ state record, (apply state record).1 = .ok ())
include succeeds

/-- A loop that has an iteration for every 29 bytes, and one more, comes to its end. -/
theorem recoverLoop_counted (fuel : ℕ) (file : InStream) (enough : file.remaining.length < 29 * fuel) (state : α)
    (calls : ℕ) (maxLsn : LSN) : ∃ final more last,
      recoverLoop (counted apply) fuel file (state,calls) maxLsn = some (.ok (),(final,calls + more),last) ∧
        29 * more ≤ file.remaining.length := by
  induction fuel generalizing file state calls maxLsn with
  | zero => omega
  | succ fuel ih =>
    rw [recoverLoop]
    cases good : file.good with
    | false => exact ⟨state,0,maxLsn,rfl,by omega⟩
    | true =>
      rw [Bool.not_true,if_neg Bool.false_ne_true]
      have progress := readRecord_progress file good
      have delivers := readRecord_delivers file
      cases reads : readRecord file with
      | mk result next =>
        rw [reads] at progress delivers
        cases result with
        | error e =>
          rcases progress with ⟨eof,-⟩ | ⟨fine,shorter⟩
          · dsimp only at eof ⊢
            rw [if_pos eof]
            exact ⟨state,0,maxLsn,rfl,by omega⟩
          · have going : ¬next.eof = true := by
              simp only [InStream.good,Bool.and_eq_true,Bool.not_eq_true'] at fine
              simp [fine.1]
            dsimp only at shorter ⊢
            rw [if_neg going]
            obtain ⟨final,more,last,outcome,bound⟩ := ih next (by omega) state calls maxLsn
            exact ⟨final,more,last,outcome,by omega⟩
        | ok record =>
          have shorter : next.remaining.length + 29 ≤ file.remaining.length := by
            rcases progress with ⟨-,fail⟩ | ⟨-,shorter⟩
            · rw [show next.fail = false from delivers next record rfl] at fail
              cases fail
            · exact shorter
          obtain ⟨final,more,last,outcome,bound⟩ :=
            ih next (by omega) (apply state record).2 (calls + 1) (max maxLsn record.lsn)
          refine ⟨final,more + 1,last,?_,by omega⟩
          simp only [counted,succeeds]
          rwa [show calls + (more + 1) = calls + 1 + more by omega]

/-- Whatever the file holds and whatever stands in variables that were not read, a recovery ends. Each of its
iterations gets past the 29 bytes of a frame or runs into the end of the file. -/
theorem recovery_ends (unset : ℕ → ℕ) (state : α) (manager : WALManager) :
    (∃ result final calls next,
      manager.recoverFromLog unset (counted apply) (state,0) = some (result,(final,calls),next) ∧
        calls ≤ (manager.logFile.disk.length - 24) / 29) ∧
    ∀ file : InStream, file.good = true → Ended (readRecord file).2 ∨
      (readRecord file).2.good = true ∧ (readRecord file).2.remaining.length + 29 ≤ file.remaining.length := by
  refine ⟨?_,readRecord_progress⟩
  rw [recoverFromLog]
  split
  · exact ⟨_,state,0,manager,rfl,Nat.zero_le _⟩
  · have room : (manager.logFile.disk.drop 24).length < 29 * (manager.logFile.disk.length + 1) := by
      rw [List.length_drop]
      omega
    obtain ⟨final,more,last,outcome,bound⟩ := recoverLoop_counted apply succeeds _
      {remaining := manager.logFile.disk.drop 24, unset := unset} room state 0 0
    rw [outcome]
    refine ⟨_,final,_,_,rfl,?_⟩
    rw [List.length_drop] at bound
    rw [Nat.le_div_iff_mul_le (by decide)]
    omega

end Succeeding

/-- Sixty bytes of ones are one frame of an unknown type and a torn one. -/
theorem recovery_ends_ones :
    (∃ result final calls next,
      WALManager.recoverFromLog (fun _ => 0) (counted fun (state : Unit) _ => (.ok (),state)) ((),0)
          {logFile := {disk := List.replicate 60 0xFF}} = some (result,(final,calls),next) ∧
        calls ≤ ((List.replicate 60 (0xFF : UInt8)).length - 24) / 29) ∧
    ∀ file : InStream, file.good = true → Ended (readRecord file).2 ∨
      (readRecord file).2.good = true ∧ (readRecord file).2.remaining.length + 29 ≤ file.remaining.length :=
  recovery_ends (fun state _ => (.ok (),state)) (fun _ _ => rfl) (fun _ => 0) ()
    {logFile := {disk := List.replicate 60 0xFF}}

end LoreDB.Storage.RecoveredCalls
