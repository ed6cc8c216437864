import Mathlib.Data.List.Induction
import Mathlib.Data.List.Nodup
import LoreDB.Storage.TornTail

/-! Sequence numbers over the lifetime of a log file: calls of every record type, recovery
on a live manager, and clean restarts. The counter is derived again from the file by a
reader that does not understand every record the writer can produce. -/
namespace LoreDB.Storage.LsnHistory
open LoreDB.Library LoreDB.Library.ByteStream WALManager WalRoundTrip TornTail

/-- The callback of a recovery may decide by all the records it has been handed so far. -/
inductive Event where
  | log (clock : UInt64) (call : LogCall)
  | recover (unset : Nat → Nat) (apply : List WALRecord → WALRecord → Except Error Unit)
  | reopen (unset : Nat → Nat)

/-- A manager, and every record that was ever written to its file. -/
structure Log where
  manager : WALManager
  records : List WALRecord

def opened (clock : UInt64) : Log := {manager := WALManager.create clock, records := []}

def step (log : Log) : Event → Log
  | .log clock call => {
    manager := WalRoundTrip.step log.manager (clock,call)
    records :=
      if succeeds log.manager (clock,call) then
        log.records ++ (record log.manager.currentLsn clock call).toList
      else log.records}
  | .recover unset apply =>
    match log.manager.recoverFromLog unset (fun seen r => (apply seen r,seen ++ [r])) [] with
    | some (_,_,manager) => {log with manager := manager}
    | none => log
  | .reopen unset =>
    -- the destructor syncs before it closes the file
    {log with manager := openExisting unset log.manager.forceSync.2.logFile.disk}

def NeverReused (log : Log) : Prop :=
  (log.records.map WALRecord.lsn).Nodup ∧ ∀ r ∈ log.records, r.lsn < log.manager.currentLsn

/-- Recovery has a reader for the record, and the reader consumes all of it. -/
def HasReader (r : WALRecord) : Prop :=
  match r.data with
  | .node _ properties =>
    r.type ≠ .deleteNode ∧ properties.length < 2 ^ 32 ∧ ∀ prop ∈ properties, prop.key.length < 2 ^ 32
  | .edge _ _ _ _ _ => False
  | _ => True

instance (r : WALRecord) : Decidable (HasReader r) :=
  match found : r.data with
  | .node _ properties => decidable_of_iff (r.type ≠ .deleteNode ∧ properties.length < 2 ^ 32 ∧
      ∀ prop ∈ properties, prop.key.length < 2 ^ 32) (by simp [HasReader,found])
  | .edge _ _ _ _ _ => .isFalse (by simp [HasReader,found])
  | .none => .isTrue (by simp [HasReader,found])
  | .lsn _ => .isTrue (by simp [HasReader,found])

/-- Only the last record may be one that leaves bytes of its own in the stream. -/
def Recoverable (records : List WALRecord) : Prop :=
  (∀ r ∈ records.dropLast, HasReader r) ∧
    ∀ r ∈ records.getLast?, HasReader r ∨ r.type = .deleteNode

instance (records : List WALRecord) : Decidable (Recoverable records) :=
  inferInstanceAs (Decidable (_ ∧ ∀ r ∈ records.getLast?,_))

/-- The calls after which the counter is still ahead of the file. -/
def Allowed (log : Log) : Event → Prop
  | .log _ _ => log.records.length + 2 < 2 ^ 64
  | .recover _ _ => (log.records = [] ∨ log.manager.logFile.buffer = []) ∧ Recoverable log.records
  | .reopen _ => Recoverable log.records

instance (log : Log) : (event : Event) → Decidable (Allowed log event)
  | .log _ _ => inferInstanceAs (Decidable (_ < _))
  | .recover _ _ => inferInstanceAs (Decidable (_ ∧ _))
  | .reopen _ => inferInstanceAs (Decidable (Recoverable _))

theorem record_lsn (lsn : LSN) (clock : UInt64) (call : LogCall) (r : WALRecord)
    (logs : record lsn clock call = some r) : r.lsn = lsn := by
  cases call with
  | forceSync => cases logs
  | begin => cases logs; rfl
  | commit => cases logs; rfl
  | abort => cases logs; rfl
  | createNode => cases logs; rfl
  | updateNode => cases logs; rfl
  | deleteNode => cases logs; rfl
  | createEdge => cases logs; rfl
  | updateEdge => cases logs; rfl
  | deleteEdge => cases logs; rfl
  | checkpoint => cases logs; rfl

theorem hasReader_readsBack (lsn : LSN) (clock : UInt64) (call : LogCall) (r : WALRecord)
    (logs : record lsn clock call = some r) (reader : HasReader r) : ReadsBack r := by
  refine fun rest unset => readRecord_encode rest unset lsn clock call ?_ r logs
  cases call with
  | begin => trivial
  | commit => trivial
  | abort => trivial
  | checkpoint => trivial
  | forceSync => trivial
  | createNode =>
    cases logs
    exact reader.2
  | updateNode =>
    cases logs
    exact reader.2
  | deleteNode =>
    cases logs
    exact reader.1 rfl
  | createEdge =>
    cases logs
    exact reader
  | updateEdge =>
    cases logs
    exact reader
  | deleteEdge =>
    cases logs
    exact reader

/-- The reader finds nothing more, or one record and then nothing more. -/
def Closes (tail : Bytes) (lsns : List LSN) : Prop :=
  ∀ unset, (lsns = [] ∧ ∃ e file, readRecord {remaining := tail, unset := unset} = (.error e,file) ∧
      Ended file) ∨
    ∃ r rest, tail ≠ [] ∧ lsns = [r.lsn] ∧ readRecord {remaining := tail, unset := unset} =
      (.ok r,{remaining := rest, unset := unset}) ∧
      ∃ e file, readRecord {remaining := rest, unset := unset} = (.error e,file) ∧ Ended file

theorem closes_nil : Closes [] [] :=
  fun unset => .inl ⟨rfl,WalReading.readRecord_short [] unset (by decide)⟩

/-- The reader leaves the property count of a deleted node in the stream, which is too
short for another record. -/
theorem closes_deleteNode (lsn : LSN) (clock : UInt64) (call : LogCall) (r : WALRecord)
    (logs : record lsn clock call = some r) (deletes : r.type = .deleteNode) :
    Closes r.encode [r.lsn] := by
  intro unset
  cases call with
  | deleteNode txId nodeId =>
    cases logs
    refine .inr ⟨⟨lsn,txId,.deleteNode,clock,8,.node nodeId []⟩,littleEndian 4 0,?_,rfl,?_,
      WalReading.readRecord_short _ unset (by simp)⟩
    · intro none
      have size := encode_length ⟨lsn,txId,.deleteNode,clock,8,.node nodeId []⟩
      simp [none] at size
    · have split : WALRecord.encode ⟨lsn,txId,.deleteNode,clock,8,.node nodeId []⟩ =
          WALRecord.encode ⟨lsn,txId,.deleteNode,clock,8,.lsn nodeId⟩ ++ littleEndian 4 0 := by
        simp [WALRecord.encode,WALRecord.encodeData,WALRecord.encodeProperties]
      rw [split]
      apply readRecord_header (littleEndian 4 0) unset
        ⟨lsn,txId,.deleteNode,clock,8,.lsn nodeId⟩ (.node nodeId [])
      rw [readData,WALRecord.encodeData,readNumber_littleEndian _ _ 8 _ (word_bound nodeId)]
      simp
  | begin => cases logs; contradiction
  | commit => cases logs; contradiction
  | abort => cases logs; contradiction
  | createNode => cases logs; contradiction
  | updateNode => cases logs; contradiction
  | createEdge => cases logs; contradiction
  | updateEdge => cases logs; contradiction
  | deleteEdge => cases logs; contradiction
  | checkpoint => cases logs; contradiction
  | forceSync => cases logs

section Closing

variable (tail : Bytes) (lsns : List LSN) (closes : Closes tail lsns) (unset : Nat → Nat)
  (fuel : Nat) (maxLsn : LSN)
include closes

theorem scanLoop_closes :
    scanLoop (fuel + 2) {remaining := tail, unset := unset} maxLsn = lsns.foldl max maxLsn := by
  rcases closes unset with ⟨rfl,ends⟩ | ⟨r,rest,some,rfl,reads,ends⟩
  · exact scanLoop_ended tail unset (fuel + 1) maxLsn ends
  · have remains : tail.isEmpty = false := by simpa using some
    rw [scanLoop,reads]
    simp only [remains,Bool.not_false,Bool.and_false,Bool.false_eq_true,if_false]
    exact scanLoop_ended rest unset fuel _ ends

theorem recoverLoop_closes {α : Type} (apply : α → WALRecord → Except Error Unit × α) (state : α) :
    ∃ result final last, recoverLoop apply (fuel + 2) {remaining := tail, unset := unset} state maxLsn =
      some (result,final,last) ∧ (result = .ok () → last = lsns.foldl max maxLsn) := by
  rcases closes unset with ⟨rfl,ends⟩ | ⟨r,rest,_,rfl,reads,ends⟩
  · exact ⟨_,_,_,recoverLoop_ended apply tail unset (fuel + 1) state maxLsn ends,fun _ => rfl⟩
  · rw [recoverLoop,reads]
    simp only [InStream.good,Bool.not_false,Bool.and_self,Bool.not_true,Bool.false_eq_true,if_false]
    cases answers : apply state r with
    | mk answer next =>
      cases answer with
      | error e =>
        refine ⟨_,_,_,rfl,fun absurd => ?_⟩
        contradiction
      | ok _ =>
        exact ⟨_,_,_,recoverLoop_ended apply rest unset fuel next _ ends,fun _ => rfl⟩

/-- Whatever the callback answers, recovery comes to an end, and when it succeeds it has
seen the sequence numbers of all records. -/
theorem recoverLoop_applies {α : Type} (apply : α → WALRecord → Except Error Unit × α)
    (records : List WALRecord) (readsBack : ∀ r ∈ records, ReadsBack r) (state : α) :
    ∃ result final last, recoverLoop apply (records.length + (fuel + 2))
        {remaining := records.flatMap WALRecord.encode ++ tail, unset := unset} state maxLsn =
        some (result,final,last) ∧
      (result = .ok () → last = (records.map WALRecord.lsn ++ lsns).foldl max maxLsn) := by
  induction records generalizing state maxLsn with
  | nil => simpa using recoverLoop_closes tail lsns closes unset fuel maxLsn apply state
  | cons r records ih =>
    have reads := readsBack r (by simp) (records.flatMap WALRecord.encode ++ tail) unset
    have count : (r::records).length + (fuel + 2) = (records.length + (fuel + 2)) + 1 := by
      simp only [List.length_cons]
      omega
    rw [count,recoverLoop,List.flatMap_cons,List.append_assoc,reads]
    simp only [InStream.good,Bool.not_false,Bool.and_self,Bool.not_true,Bool.false_eq_true,if_false]
    cases answers : apply state (delivered r) with
    | mk answer next =>
      cases answer with
      | error e =>
        refine ⟨_,_,_,rfl,fun absurd => ?_⟩
        contradiction
      | ok _ =>
        obtain ⟨result,final,last,ran,seen⟩ := ih (max maxLsn (delivered r).lsn)
          (fun other member => readsBack other (List.mem_cons_of_mem _ member)) next
        rw [delivered_lsn] at ran seen
        refine ⟨result,final,last,?_,seen⟩
        rw [delivered_lsn]
        exact ran

end Closing

/-- The records are numbered one by one, and the counter is one ahead of them. -/
structure Counted (log : Log) : Prop where
  logged : Logged log.manager (log.records.flatMap WALRecord.encode)
  genuine : ∀ r ∈ log.records, ∃ lsn clock call, record lsn clock call = some r
  numbered : (log.records.map fun r => r.lsn.toNat) = List.range' 1 log.records.length
  counted : log.manager.currentLsn.toNat = log.records.length + 1

theorem opened_counted (clock : UInt64) : Counted (opened clock) where
  logged := create_logged clock
  genuine := by simp [opened]
  numbered := rfl
  counted := rfl

theorem largest_numbered (records : List WALRecord)
    (numbered : (records.map fun r => r.lsn.toNat) = List.range' 1 records.length) :
    (largest records).toNat = records.length := by
  induction records using List.reverseRecOn with
  | nil => rfl
  | append_singleton records r ih =>
    rw [List.map_append,List.length_append,List.length_singleton,List.range'_concat] at numbered
    obtain ⟨before,last⟩ := List.append_inj' numbered rfl
    have number : r.lsn.toNat = records.length + 1 := by
      have single : r.lsn.toNat = 1 + 1 * records.length := List.singleton_inj.mp last
      rw [single,Nat.add_comm,Nat.one_mul]
    have front := ih before
    have order : largest records ≤ r.lsn := by
      apply UInt64.le_iff_toNat_le.mpr
      omega
    have split : largest (records ++ [r]) = max (largest records) r.lsn := by
      simp [largest]
    have greater : max (largest records) r.lsn = r.lsn := if_pos order
    rw [split,greater,List.length_append,List.length_singleton,number]

theorem counted_neverReused (log : Log) (holds : Counted log) : NeverReused log := by
  obtain ⟨_,_,numbered,counted⟩ := holds
  constructor
  · apply List.Nodup.of_map UInt64.toNat
    rw [List.map_map]
    have distinct : (log.records.map fun r => r.lsn.toNat).Nodup := by
      rw [numbered]
      exact List.nodup_range'
    exact distinct
  · intro r member
    have inside : r.lsn.toNat ∈ List.range' 1 log.records.length :=
      numbered ▸ List.mem_map_of_mem member
    rw [List.mem_range'_1] at inside
    apply UInt64.lt_iff_toNat_lt.mpr
    omega

/-- The bytes of a recoverable log: records that are read back, and a close. -/
theorem recoverable_split (records : List WALRecord)
    (genuine : ∀ r ∈ records, ∃ lsn clock call, record lsn clock call = some r)
    (recoverable : Recoverable records) :
    ∃ (front : List WALRecord) (tail : Bytes) (lsns : List LSN), (∀ r ∈ front, ReadsBack r) ∧ Closes tail lsns ∧
      records.flatMap WALRecord.encode = front.flatMap WALRecord.encode ++ tail ∧
      records.map WALRecord.lsn = front.map WALRecord.lsn ++ lsns := by
  have back (r : WALRecord) (member : r ∈ records) (reader : HasReader r) : ReadsBack r := by
    obtain ⟨lsn,clock,call,logs⟩ := genuine r member
    exact hasReader_readsBack lsn clock call r logs reader
  rcases List.eq_nil_or_concat' records with rfl | ⟨front,last,rfl⟩
  · exact ⟨[],[],[],by simp,closes_nil,rfl,rfl⟩
  · obtain ⟨before,final⟩ := recoverable
    rw [List.dropLast_concat] at before
    have read : ∀ r ∈ front, ReadsBack r := fun r member => back r (by simp [member]) (before r member)
    rcases final last (by simp) with reader | deletes
    · refine ⟨front ++ [last],[],[],?_,closes_nil,by simp,by simp⟩
      intro r member
      rcases List.mem_append.mp member with inside | single
      · exact read r inside
      · rw [List.mem_singleton.mp single]
        exact back last (by simp) reader
    · obtain ⟨lsn,clock,call,logs⟩ := genuine last (by simp)
      exact ⟨front,last.encode,[last.lsn],read,closes_deleteNode lsn clock call last logs deletes,
        by simp,by simp⟩

section Steps

variable {log : Log} (holds : Counted log)
include holds

theorem log_counted (clock : UInt64) (call : LogCall) (room : log.records.length + 2 < 2 ^ 64) :
    Counted (step log (.log clock call)) := by
  obtain ⟨logged,genuine,numbered,counted⟩ := holds
  obtain ⟨appended,next,returned⟩ := step_logged logged clock call
  have stepped : step log (.log clock call) = ⟨WalRoundTrip.step log.manager (clock,call),
      log.records ++ (record log.manager.currentLsn clock call).toList⟩ := by
    simp [step,returned]
  rw [stepped]
  cases logs : record log.manager.currentLsn clock call with
  | none =>
    rw [logs] at appended next
    rw [Option.toList_none,List.append_nil]
    exact ⟨by simpa using appended,genuine,numbered,by simpa [next] using counted⟩
  | some r =>
    rw [logs] at appended next
    have number := record_lsn _ clock call r logs
    rw [Option.toList_some] at appended ⊢
    constructor
    · simpa using appended
    · intro other member
      rcases List.mem_append.mp member with before | last
      · exact genuine other before
      · rw [List.mem_singleton.mp last]
        exact ⟨_,clock,call,logs⟩
    · simp only [List.map_append,List.map_singleton,List.length_append,List.length_singleton,
        List.range'_concat,numbered,number,counted]
      congr 2
      omega
    · have one : (1 : UInt64).toNat = 1 := rfl
      simp only [next,Option.isSome_some,if_true,UInt64.toNat_add,counted,List.length_append,
        List.length_singleton,one]
      omega

/-- The counter derived from the file is the one that the manager had. -/
theorem derived_counter : largest log.records + 1 = log.manager.currentLsn := by
  obtain ⟨_,_,numbered,counted⟩ := holds
  have bound := log.manager.currentLsn.toNat_lt
  have one : (1 : UInt64).toNat = 1 := rfl
  apply UInt64.toNat_inj.mp
  rw [UInt64.toNat_add,largest_numbered log.records numbered,counted,one]
  apply Nat.mod_eq_of_lt
  rwa [← counted]

theorem reopen_counted (unset : Nat → Nat) (recoverable : Recoverable log.records) :
    Counted (step log (.reopen unset)) := by
  have derived := derived_counter holds
  obtain ⟨logged,genuine,numbered,counted⟩ := holds
  obtain ⟨front,tail,lsns,readsBack,closes,split,numbers⟩ :=
    recoverable_split log.records genuine recoverable
  obtain ⟨synced,empty,_,_⟩ := forceSync_logged logged
  obtain ⟨header,kept,content⟩ := synced.content
  rw [FileStream.content_empty _ empty synced.atEnd synced.inside] at content
  obtain ⟨manager,opens,reopened,_,scanned⟩ :=
    openExisting_whole unset header kept (log.records.flatMap WALRecord.encode)
  have bound := records_length front
  obtain ⟨fuel,enough⟩ : ∃ fuel, (log.records.flatMap WALRecord.encode).length + 25 =
      front.length + (fuel + 2) := by
    refine ⟨(log.records.flatMap WALRecord.encode).length + 23 - front.length,?_⟩
    rw [split,List.length_append]
    omega
  rw [enough,split,scanLoop_records front readsBack tail unset (fuel + 2) 0,
    scanLoop_closes tail lsns closes unset fuel _,← List.foldl_append,← numbers] at scanned
  have stepped : step log (.reopen unset) = ⟨manager,log.records⟩ := by
    rw [step,content,opens]
  rw [stepped]
  refine ⟨reopened,genuine,numbered,?_⟩
  change manager.currentLsn = largest log.records + 1 at scanned
  rw [scanned,derived,counted]

/-- However the callback answers, a recovery leaves the counter as it was. -/
theorem recover_keeps (unset : Nat → Nat) (apply : List WALRecord → WALRecord → Except Error Unit)
    (synced : log.records = [] ∨ log.manager.logFile.buffer = [])
    (recoverable : Recoverable log.records) : step log (.recover unset apply) = log := by
  have derived := derived_counter holds
  obtain ⟨logged,genuine,_,_⟩ := holds
  have kept (result : Except Error Unit) (final : List WALRecord) (last : LSN)
      (ran : recoverLoop (fun seen r => (apply seen r,seen ++ [r])) (log.manager.logFile.disk.length + 1)
        {remaining := log.manager.logFile.disk.drop 24, unset := unset} [] 0 = some (result,final,last))
      (seen : result = .ok () → last = largest log.records) : step log (.recover unset apply) = log := by
    simp only [step,recoverFromLog,logged.isOpen,ran]
    cases result with
    | error e => rfl
    | ok _ =>
      simp only [seen rfl,derived]
      rfl
  obtain ⟨_,_,inside,atEnd,_,header,_,content⟩ := logged
  rcases synced with none | empty
  · have length := FileStream.content_length log.manager.logFile atEnd
    rw [content,none,List.length_append,encodeHeader_length] at length
    have missing : log.manager.logFile.disk.drop 24 = [] := by
      rw [FileStream.AtEnd,← length] at atEnd
      exact List.drop_eq_nil_of_le atEnd
    apply kept (.ok ()) [] 0
    · rw [missing]
      exact recoverLoop_ended _ [] unset _ [] 0 (WalReading.readRecord_short [] unset (by decide))
    · intro _
      rw [none]
      rfl
  · obtain ⟨front,tail,lsns,readsBack,closes,split,numbers⟩ :=
      recoverable_split log.records genuine recoverable
    rw [FileStream.content_empty _ empty atEnd inside] at content
    have bodies : log.manager.logFile.disk.drop 24 = front.flatMap WALRecord.encode ++ tail := by
      rw [content,← encodeHeader_length header,List.drop_left,split]
    have bound := records_length front
    obtain ⟨fuel,enough⟩ : ∃ fuel, log.manager.logFile.disk.length + 1 = front.length + (fuel + 2) := by
      refine ⟨log.manager.logFile.disk.length - front.length - 1,?_⟩
      rw [content,split,List.length_append,List.length_append,encodeHeader_length]
      omega
    obtain ⟨result,final,last,ran,seen⟩ := recoverLoop_applies tail lsns closes unset fuel 0
      (fun seen r => (apply seen r,seen ++ [r])) front readsBack []
    rw [← enough,← bodies] at ran
    apply kept result final last ran
    intro succeeds
    rw [seen succeeds,← numbers,largest]

end Steps

theorem step_counted (log : Log) (event : Event) (allowed : Allowed log event) (holds : Counted log) :
    Counted (step log event) := by
  cases event with
  | log clock call => exact log_counted holds clock call allowed
  | recover unset apply =>
    rw [recover_keeps holds unset apply allowed.1 allowed.2]
    exact holds
  | reopen unset => exact reopen_counted holds unset allowed

/-- As long as the file can be read to its end whenever the counter is derived from it, and
nothing waits in the buffer when a live manager recovers, no sequence number is used twice
and the counter stays ahead of the file. -/
theorem lsns_never_reused (clock : UInt64) (events : List Event)
    (allowed : History.Guarded step Allowed (opened clock) events) :
    let log := History.run step (opened clock) events
    (∃ header, log.manager.logFile.content =
      encodeHeader header ++ log.records.flatMap WALRecord.encode) ∧ NeverReused log := by
  have holds := History.run_preserves Counted step_counted _ events allowed (opened_counted clock)
  obtain ⟨header,_,content⟩ := holds.logged.content
  exact ⟨⟨header,content⟩,counted_neverReused _ holds⟩

def restarted : List Event :=
  [.log 5 (.begin 1),.log 6 (.createNode 1 7 [⟨[107],.integer 5⟩]),.log 7 .checkpoint,
    .recover (fun _ => 0) (fun _ _ => .ok ()),.log 8 (.deleteNode 1 7),.reopen (fun _ => 0)]

theorem lsns_never_reused_restarted :
    let log := History.run step (opened 4) restarted
    (∃ header, log.manager.logFile.content =
      encodeHeader header ++ log.records.flatMap WALRecord.encode) ∧ NeverReused log :=
  lsns_never_reused 4 restarted (by decide +kernel)

/-- The scan of a restart stops at an edge record, and a recovery that finds only a part of
the records in the file takes the counter back. -/
theorem lsns_reused :
    (∃ r ∈ (History.run step (opened 4)
        [.log 5 (.begin 1),.log 6 (.createEdge 1 3 7 8 [108] []),.reopen (fun _ => 0)]).records,
      (History.run step (opened 4)
        [.log 5 (.begin 1),.log 6 (.createEdge 1 3 7 8 [108] []),
          .reopen (fun _ => 0)]).manager.currentLsn ≤ r.lsn) ∧
      ¬((History.run step (opened 4) [.log 5 (.begin 1),.recover (fun _ => 0) (fun _ _ => .ok ()),
        .log 6 (.begin 2)]).records.map WALRecord.lsn).Nodup := by
  decide +kernel

end LoreDB.Storage.LsnHistory
