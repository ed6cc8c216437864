import LoreDB.Storage.RecoveredCalls
import LoreDB.Storage.TornTail

/-! What a recovery hands over. The records depend on the file alone, and an `apply_fn` that refuses one of them is
not handed any later one. -/
namespace LoreDB.Storage.HandedOver
open LoreDB.Library.ByteStream WalReading WALManager WalRoundTrip TornTail RecoveredCalls

/-- Records one after the other, up to the first one that is refused, and the largest sequence number of these. -/
def handOver {α : Type} (apply : α → WALRecord → Except Error Unit × α) :
    List WALRecord → α → LSN → Except Error Unit × α × LSN
  | [], state, maxLsn => (.ok (),state,maxLsn)
  | record::rest, state, maxLsn =>
    match apply state record with
    | (.error e,state) => (.error e,state,max maxLsn record.lsn)
    | (.ok (),state) => handOver apply rest state (max maxLsn record.lsn)

/-- A recovery that is refused a record leaves the counter as it was. -/
def concluded {α : Type} (manager : WALManager) : Except Error Unit × α × LSN → Except Error Unit × α × WALManager
  | (.error e,state,_) => (.error e,state,manager)
  | (.ok (),state,maxLsn) => (.ok (),state,{manager with currentLsn := maxLsn + 1})

/-- The records that can be read from a stream. -/
def recordsFrom : ℕ → InStream → List WALRecord
  | 0, _ => []
  | fuel + 1, file =>
    if !file.good then []
    else
      match readRecord file with
      | (.error _,file) => if file.eof then [] else recordsFrom fuel file
      | (.ok record,file) => record::recordsFrom fuel file

/-- The records that can be read behind the header of a file. -/
def records (unset : ℕ → ℕ) (disk : Bytes) : List WALRecord :=
  recordsFrom (disk.length + 1) {remaining := disk.drop 24, unset := unset}

/-- What is left of a good stream when a record has been read or skipped. -/
theorem readRecord_shorter (file next : InStream) (result : Except Error WALRecord) (good : file.good = true)
    (reads : readRecord file = (result,next)) (going : next.eof = false ∨ ∃ record, result = .ok record) :
    next.remaining.length < file.remaining.length := by
  have progress := readRecord_progress file good
  rw [reads] at progress
  rcases progress with ⟨eof,fail⟩ | ⟨-,shorter⟩
  · rcases going with more | ⟨record,rfl⟩
    · cases eof.symm.trans more
    · cases fail.symm.trans (readRecord_delivers file next record reads)
  · dsimp only at shorter
    omega

theorem recoverLoop_hands {α : Type} (apply : α → WALRecord → Except Error Unit × α) (fuel : ℕ) (file : InStream)
    (enough : file.remaining.length < fuel) (state : α) (maxLsn : LSN) :
    recoverLoop apply fuel file state maxLsn = some (handOver apply (recordsFrom fuel file) state maxLsn) := by
  induction fuel generalizing file state maxLsn with
  | zero => omega
  | succ fuel ih =>
    rw [recoverLoop,recordsFrom]
    cases good : file.good with
    | false => rfl
    | true =>
      have shorter := readRecord_shorter file
      rw [Bool.not_true,if_neg Bool.false_ne_true,if_neg Bool.false_ne_true]
      cases reads : readRecord file with
      | mk result next =>
        cases result with
        | error e =>
          dsimp only
          cases eof : next.eof with
          | true => rfl
          | false =>
            have left := shorter next (.error e) good reads (.inl eof)
            exact ih next (by omega) state maxLsn
        | ok record =>
          have left := shorter next (.ok record) good reads (.inr ⟨record,rfl⟩)
          dsimp only [handOver]
          cases applied : apply state record with
          | mk outcome later =>
            cases outcome with
            | error e => rfl
            | ok _ => exact ih next (by omega) later (max maxLsn record.lsn)

/-- Whatever the file holds, a recovery hands over its records in order, up to the first one that is refused. What it
hands over does not depend on what is done with it, so that a recovery after a refusal starts over. -/
theorem recovery_hands_over {α : Type} (unset : ℕ → ℕ) (apply : α → WALRecord → Except Error Unit × α) (state : α)
    (manager : WALManager) : manager.recoverFromLog unset apply state =
      if manager.logFile.isOpen then
        some (concluded manager (handOver apply (records unset manager.logFile.disk) state 0))
      else some (.error ⟨.ioError,"Cannot open log for recovery"⟩,state,manager) := by
  rw [recoverFromLog]
  cases manager.logFile.isOpen with
  | false => rfl
  | true =>
    have room : (manager.logFile.disk.drop 24).length < manager.logFile.disk.length + 1 := by
      rw [List.length_drop]
      omega
    have loop := recoverLoop_hands apply _ {remaining := manager.logFile.disk.drop 24, unset := unset} room state 0
    rw [Bool.not_true,if_neg Bool.false_ne_true,if_pos rfl,loop,records]
    cases handOver apply (recordsFrom (manager.logFile.disk.length + 1) _) state 0 with
    | mk outcome rest => cases outcome <;> rfl

/-! Logs that a crash has cut. -/

def collect (list : List WALRecord) (record : WALRecord) : Except Error Unit × List WALRecord := (.ok (),list ++ [record])

theorem handOver_collect (records list : List WALRecord) (maxLsn : LSN) :
    ∃ last, handOver collect records list maxLsn = (.ok (),list ++ records,last) := by
  induction records generalizing list maxLsn with
  | nil => exact ⟨maxLsn,by rw [handOver,List.append_nil]⟩
  | cons record rest ih =>
    obtain ⟨last,same⟩ := ih (list ++ [record]) (max maxLsn record.lsn)
    rw [List.append_assoc,List.singleton_append] at same
    exact ⟨last,same⟩

/-- What a recovery collects is what the file holds. -/
theorem records_collected (unset : ℕ → ℕ) (manager next : WALManager) (list : List WALRecord)
    (isOpen : manager.logFile.isOpen = true)
    (ran : manager.recoverFromLog unset collect [] = some (.ok (),list,next)) :
    records unset manager.logFile.disk = list := by
  obtain ⟨last,all⟩ := handOver_collect (records unset manager.logFile.disk) [] 0
  rw [recovery_hands_over,if_pos isOpen,all,concluded,List.nil_append] at ran
  cases ran
  rfl

/-- After a crash a recovery hands over the complete records, up to the first one that is refused. A refusal leaves the
counter as it was, and otherwise it is set behind the largest number. -/
theorem torn_hands_over {α : Type} (clock : UInt64) (calls : List (UInt64 × LogCall))
    (readable : ∀ timed ∈ calls, Readable timed.2) (cut : ℕ) (behind : 24 ≤ cut) (unset others : ℕ → ℕ)
    (apply : α → WALRecord → Except Error Unit × α) (state : α) :
    let opened := openExisting unset ((after clock calls).logFile.content.take cut)
    opened.recoverFromLog others apply state = some (concluded opened
      (handOver apply ((complete (cut - 24) (written 1 calls)).map delivered) state 0)) := by
  intro opened
  obtain ⟨header,torn,genuine,content,origin⟩ := cut_content clock calls cut behind
  have all := written_readsBack 1 calls readable
  have readsBack : ∀ r ∈ complete (cut - 24) (written 1 calls), ReadsBack r :=
    fun r member => all r (complete_subset _ _ r member)
  have ends := torn_ends (written 1 calls) all torn origin
  obtain ⟨logged,empty,-⟩ := openExisting_torn _ readsBack torn unset ends header genuine
  rw [← content] at logged empty
  have ran := recover_records _ readsBack torn others (ends others) opened logged empty (fun list r => list ++ [r]) []
  rw [foldl_collect,List.nil_append] at ran
  rw [recovery_hands_over,if_pos logged.isOpen,records_collected others opened _ _ logged.isOpen ran]

/-- An `apply_fn` that wants no nodes. -/
def withoutNodes (count : ℕ) (record : WALRecord) : Except Error Unit × ℕ :=
  if record.type = .createNode then (.error ⟨.invalidArgument,"no nodes"⟩,count) else (.ok (),count + 1)

theorem torn_hands_over_refused :
    let opened := openExisting (fun _ => 7) ((after 4 committedNode).logFile.content.take 2000)
    opened.recoverFromLog (fun _ => 9) withoutNodes 0 = some (.error ⟨.invalidArgument,"no nodes"⟩,1,opened) := by
  intro opened
  have ran := torn_hands_over 4 committedNode (by decide) 2000 (by decide) (fun _ => 7) (fun _ => 9) withoutNodes 0
  exact ran.trans (by rfl)

end LoreDB.Storage.HandedOver
