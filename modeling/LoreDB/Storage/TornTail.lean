import LoreDB.Storage.WalRoundTrip

/-! Logs that a crash cuts at some byte. The reader stops at the last record that is
complete; a manager that opens the cut file appends behind whatever the crash has left,
and what it appends is read back only where the crash has left whole records. -/
namespace LoreDB.Storage.TornTail
open LoreDB.Library LoreDB.Library.ByteStream WALManager WalRoundTrip

/-- The records that lie completely in the first `size` bytes. -/
def complete : Nat → List WALRecord → List WALRecord
  | _, [] => []
  | size, r::rest =>
    if r.encode.length ≤ size then r::complete (size - r.encode.length) rest else []

/-- What is left behind the complete records is a front part of one more. -/
theorem complete_split (size : Nat) (records : List WALRecord) :
    ∃ torn : Bytes, (records.flatMap WALRecord.encode).take size =
        (complete size records).flatMap WALRecord.encode ++ torn ∧
      (torn = [] ∨ ∃ r ∈ records, ∃ missing, missing ≠ [] ∧ r.encode = torn ++ missing) := by
  induction records generalizing size with
  | nil => exact ⟨[],by simp [complete],.inl rfl⟩
  | cons r records ih =>
    rw [complete,List.flatMap_cons]
    split
    · rename_i whole
      obtain ⟨torn,split,origin⟩ := ih (size - r.encode.length)
      refine ⟨torn,?_,?_⟩
      · rw [List.take_append,List.take_of_length_le whole,split,List.flatMap_cons,List.append_assoc]
      · rcases origin with none | ⟨other,member,rest⟩
        · exact .inl none
        · exact .inr ⟨other,List.mem_cons_of_mem _ member,rest⟩
    · rename_i short
      refine ⟨r.encode.take size,?_,.inr ⟨r,by simp,r.encode.drop size,?_,?_⟩⟩
      · rw [List.take_append_of_le_length (by omega),List.flatMap_nil,List.nil_append]
      · intro none
        exact short (List.drop_eq_nil_iff.mp none)
      · exact (List.take_append_drop size _).symm

theorem complete_subset (size : Nat) (records : List WALRecord) :
    ∀ r ∈ complete size records, r ∈ records := by
  induction records generalizing size with
  | nil => simp [complete]
  | cons first records ih =>
    intro r member
    rw [complete] at member
    split at member
    · rcases List.mem_cons.mp member with rfl | inside
      · simp
      · exact List.mem_cons_of_mem _ (ih _ r inside)
    · simp at member

/-- In such a front part the reader runs into the end. -/
theorem torn_ends (records : List WALRecord) (readsBack : ∀ r ∈ records, ReadsBack r) (torn : Bytes)
    (origin : torn = [] ∨ ∃ r ∈ records, ∃ missing, missing ≠ [] ∧ r.encode = torn ++ missing)
    (unset : Nat → Nat) :
    ∃ e file, readRecord {remaining := torn, unset := unset} = (.error e,file) ∧ Ended file := by
  rcases origin with rfl | ⟨r,member,missing,some,split⟩
  · exact WalReading.readRecord_short [] unset (by decide)
  · have whole := readsBack r member [] unset
    rw [List.append_nil,split] at whole
    exact WalReading.readRecord_torn torn unset missing unset _ _ whole rfl
      (List.length_pos_iff.mpr some)

theorem decodeHeader_encode (header : WALHeader) (rest : Bytes) :
    decodeHeader (encodeHeader header ++ rest) = header := by
  have bytes : encodeHeader header ++ rest = littleEndian 4 header.magic.toNat ++
      (littleEndian 4 header.version.toNat ++ (littleEndian 8 header.creationTime.toNat ++
        (littleEndian 8 header.lastCheckpointLsn.toNat ++ rest))) := by
    simp only [encodeHeader,List.append_assoc]
  have magic := number_field [] (littleEndian 4 header.version.toNat ++
    (littleEndian 8 header.creationTime.toNat ++
      (littleEndian 8 header.lastCheckpointLsn.toNat ++ rest))) 0 4 _ rfl (half_bound header.magic)
  have version := number_field (littleEndian 4 header.magic.toNat)
    (littleEndian 8 header.creationTime.toNat ++
      (littleEndian 8 header.lastCheckpointLsn.toNat ++ rest)) 4 4 _
    (littleEndian_length ..) (half_bound header.version)
  have creation := number_field (littleEndian 4 header.magic.toNat ++ littleEndian 4 header.version.toNat)
    (littleEndian 8 header.lastCheckpointLsn.toNat ++ rest) 8 8 _
    (by simp only [List.length_append,littleEndian_length]) (word_bound header.creationTime)
  have checkpoint := number_field (littleEndian 4 header.magic.toNat ++
    littleEndian 4 header.version.toNat ++ littleEndian 8 header.creationTime.toNat) rest 16 8 _
    (by simp only [List.length_append,littleEndian_length]) (word_bound header.lastCheckpointLsn)
  simp only [List.nil_append,List.drop_zero,List.append_assoc] at magic version creation checkpoint
  rw [bytes]
  simp only [decodeHeader,magic,version,creation,checkpoint,UInt32.ofNat_toNat,UInt64.ofNat_toNat]

/-- The constructor on a file with a whole header scans what follows it. -/
theorem openExisting_whole (unset : Nat → Nat) (header : WALHeader) (genuine : Genuine header)
    (body : Bytes) : ∃ manager, openExisting unset (encodeHeader header ++ body) = manager ∧
      Logged manager body ∧ manager.logFile.buffer = [] ∧ manager.currentLsn =
        scanLoop (body.length + 25) {remaining := body, unset := unset} 0 + 1 := by
  have size := encodeHeader_length header
  have decoded := decodeHeader_encode header ((encodeHeader {}).drop (encodeHeader header).length)
  have reads := read_exact body unset (encodeHeader header)
  have written : (encodeHeader header ++ body).length + 1 = body.length + 25 := by
    rw [List.length_append,size]
    omega
  rw [size] at reads decoded
  refine ⟨_,rfl,?_⟩
  simp only [openExisting,reads,decoded,size]
  rw [if_neg (by simp),if_neg (by simp [genuine.1,genuine.2]),written]
  refine ⟨⟨rfl,rfl,Nat.le_refl _,Nat.le_refl _,genuine,header,genuine,?_⟩,rfl,rfl⟩
  exact FileStream.content_empty _ rfl (Nat.le_refl _) (Nat.le_refl _)

theorem scanLoop_ended (tail : Bytes) (unset : Nat → Nat) (fuel : Nat) (maxLsn : LSN)
    (ends : ∃ e file, readRecord {remaining := tail, unset := unset} = (.error e,file) ∧ Ended file) :
    scanLoop (fuel + 1) {remaining := tail, unset := unset} maxLsn = maxLsn := by
  obtain ⟨e,file,reads,_⟩ := ends
  rw [scanLoop,reads]
  split <;> rfl

section Cut

variable (records : List WALRecord) (readsBack : ∀ r ∈ records, ReadsBack r) (torn : Bytes)
  (unset : Nat → Nat)
  (ends : ∀ unset, ∃ e file, readRecord {remaining := torn, unset := unset} = (.error e,file) ∧ Ended file)
include readsBack ends

/-- A manager opened on these records and a torn one counts on behind the records. -/
theorem openExisting_torn (header : WALHeader) (genuine : Genuine header) :
    let manager := openExisting unset (encodeHeader header ++ (records.flatMap WALRecord.encode ++ torn))
    Logged manager (records.flatMap WALRecord.encode ++ torn) ∧ manager.logFile.buffer = [] ∧
      manager.currentLsn = largest records + 1 := by
  intro manager
  obtain ⟨_,rfl,logged,empty,scanned⟩ := openExisting_whole unset header genuine
    (records.flatMap WALRecord.encode ++ torn)
  refine ⟨logged,empty,scanned.trans ?_⟩
  have bound := records_length records
  obtain ⟨fuel,enough⟩ : ∃ fuel, (records.flatMap WALRecord.encode ++ torn).length + 25 =
      records.length + (fuel + 1) := by
    refine ⟨(records.flatMap WALRecord.encode ++ torn).length + 24 - records.length,?_⟩
    rw [List.length_append]
    omega
  rw [enough,scanLoop_records records readsBack torn unset (fuel + 1) 0,
    scanLoop_ended torn unset fuel _ (ends unset),largest]

end Cut

/-- What is left of a log that is cut behind its header. -/
theorem cut_content (clock : UInt64) (calls : List (UInt64 × LogCall)) (cut : Nat)
    (behind : 24 ≤ cut) :
    ∃ header torn, Genuine header ∧ (after clock calls).logFile.content.take cut =
        encodeHeader header ++
          ((complete (cut - 24) (written 1 calls)).flatMap WALRecord.encode ++ torn) ∧
      (torn = [] ∨ ∃ r ∈ written 1 calls, ∃ missing, missing ≠ [] ∧ r.encode = torn ++ missing) := by
  obtain ⟨header,genuine,content⟩ := (run_logged calls _ [] (create_logged clock)).1.content
  obtain ⟨torn,split,origin⟩ := complete_split (cut - 24) (written 1 calls)
  refine ⟨header,torn,genuine,?_,origin⟩
  have body : (after clock calls).logFile.content =
      encodeHeader header ++ (written 1 calls).flatMap WALRecord.encode := content
  rw [body,List.take_append,encodeHeader_length,split,
    List.take_of_length_le (by rw [encodeHeader_length]; exact behind)]

/-- Opening a log that is cut anywhere behind its header and recovering it delivers the
complete records, whatever the variables of failed reads hold. -/
theorem torn_tail_delivers {α : Type} (clock : UInt64) (calls : List (UInt64 × LogCall))
    (readable : ∀ timed ∈ calls, Readable timed.2) (cut : Nat) (behind : 24 ≤ cut)
    (unset others : Nat → Nat) (deliver : α → WALRecord → α) (state : α) :
    let opened := openExisting unset ((after clock calls).logFile.content.take cut)
    let records := complete (cut - 24) (written 1 calls)
    opened.currentLsn = largest records + 1 ∧
      opened.recoverFromLog others (fun state r => (.ok (),deliver state r)) state =
        some (.ok (),(records.map delivered).foldl deliver state,
          {opened with currentLsn := largest records + 1}) := by
  intro opened records
  obtain ⟨header,torn,genuine,content,origin⟩ := cut_content clock calls cut behind
  have all := written_readsBack 1 calls readable
  have readsBack : ∀ r ∈ records, ReadsBack r := fun r member =>
    all r (complete_subset _ _ r member)
  have ends := torn_ends (written 1 calls) all torn origin
  obtain ⟨logged,empty,counted⟩ := openExisting_torn records readsBack torn unset ends header genuine
  rw [← content] at logged empty counted
  exact ⟨counted,recover_records records readsBack torn others (ends others) opened logged empty deliver state⟩

/-- The node record of a log that is cut in its key, behind a checkpoint and a begin. -/
theorem torn_tail_delivers_cut :
    let opened := openExisting (fun _ => 7) ((after 4 committedNode).logFile.content.take 80)
    let records := complete 56 (written 1 committedNode)
    opened.currentLsn = largest records + 1 ∧
      opened.recoverFromLog (fun _ => 9) (fun list r => (.ok (),list ++ [r])) [] =
        some (.ok (),(records.map delivered).foldl (fun list r => list ++ [r]) [],
          {opened with currentLsn := largest records + 1}) :=
  torn_tail_delivers 4 committedNode (by decide) 80 (by decide) (fun _ => 7) (fun _ => 9)
    (fun list r => list ++ [r]) []

/-- After a cut the log can be carried on: every further call succeeds, and once they are
synced, recovery delivers the records that were complete and then the further ones. -/
def CarriesOn (clock : UInt64) (calls : List (UInt64 × LogCall)) (cut : Nat) (unset : Nat → Nat) :
    Prop :=
  let opened := openExisting unset ((after clock calls).logFile.content.take cut)
  ∀ further : List (UInt64 × LogCall), (∀ timed ∈ further, Readable timed.2) →
    History.Guarded step (fun manager timed => succeeds manager timed = true) opened further ∧
      ∀ others, ∃ manager, (History.run step opened further).forceSync.2.recoverFromLog others
          (fun list r => (.ok (),list ++ [r])) [] = some (.ok (),
        (complete (cut - 24) (written 1 calls) ++ written opened.currentLsn further).map delivered,
          manager)

/-- The cut leaves the header and whole records. -/
def BetweenRecords (clock : UInt64) (calls : List (UInt64 × LogCall)) (cut : Nat) : Prop :=
  24 ≤ cut ∧ ((after clock calls).logFile.content.take cut).drop 24 =
    (complete (cut - 24) (written 1 calls)).flatMap WALRecord.encode

instance (clock : UInt64) (calls : List (UInt64 × LogCall)) (cut : Nat) :
    Decidable (BetweenRecords clock calls cut) :=
  inferInstanceAs (Decidable (_ ∧ _))

theorem foldl_collect {α : Type} (front list : List α) :
    list.foldl (fun list r => list ++ [r]) front = front ++ list := by
  induction list generalizing front with
  | nil => simp
  | cons r list ih => simp [ih]

theorem short_refuses (unset : Nat → Nat) (disk : Bytes) (short : disk.length < 24) :
    succeeds (openExisting unset disk) (0,.begin 0) = false := by
  have reads := read_short unset disk 24 short
  have stopped (manager : WALManager) (failed : manager.logFile.fail = true) :
      (manager.logBeginTransaction 0 0).1.isOk = false := by
    unfold logBeginTransaction logRecord writeRecord
    cases manager.logFile.isOpen with
    | false => rfl
    | true =>
      simp [FileStream.write,FileStream.good,failed]
      rfl
  apply stopped
  simp [openExisting,reads]

theorem recoverLoop_extends (fuel : Nat) (file : InStream) (list final : List WALRecord)
    (maxLsn last : LSN) (result : Except Error Unit)
    (ran : recoverLoop (fun list r => (.ok (),list ++ [r])) fuel file list maxLsn =
      some (result,final,last)) : list <+: final := by
  induction fuel generalizing file list maxLsn with
  | zero => simp [recoverLoop] at ran
  | succ fuel ih =>
    rw [recoverLoop] at ran
    split at ran
    · cases ran
      exact List.prefix_refl _
    · split at ran
      · split at ran
        · cases ran
          exact List.prefix_refl _
        · exact ih _ _ _ ran
      · exact (List.prefix_append _ _).trans (ih _ _ _ ran)

/-- The reader has a reader for the payload of a record that it reads back. -/
theorem readsBack_reader (r : WALRecord) (readsBack : ReadsBack r) (front : Bytes)
    (rest : Bytes) (split : r.encode = front ++ rest) (enough : 29 ≤ front.length) (behind : Bytes) :
    ∃ type, WalReading.frameType (front ++ behind) = some type ∧
      ∀ file, (readData type file).1.isSome = true := by
  have same : WalReading.frameType (front ++ behind) = WalReading.frameType (front ++ rest) := by
    have byte (tail : Bytes) : ((front ++ tail).drop 16).take 1 = (front.drop 16).take 1 := by
      rw [List.drop_append_of_le_length (by omega),
        List.take_append_of_le_length (by rw [List.length_drop]; omega)]
    rw [WalReading.frameType,byte,WalReading.frameType,byte]
  have whole := readsBack [] (fun _ => 0)
  rw [List.append_nil,split,WalReading.readRecord_frame _ _ (by rw [List.length_append]; omega)] at whole
  rw [same]
  cases found : WalReading.frameType (front ++ rest) with
  | none => simp [found] at whole
  | some type =>
    refine ⟨type,rfl,?_⟩
    rcases WalReading.readData_reader type with reader | none
    · exact reader
    · simp [found,none] at whole

/-- Behind a torn record no record is read back whose type the torn frame does not show. -/
theorem torn_disturbs (r : WALRecord) (readsBack : ReadsBack r) (torn missing : Bytes)
    (split : r.encode = torn ++ missing) (next : Bytes) (size : next.length = 29)
    (added : WALRecord) (other : WalReading.frameType (torn ++ next) ≠ some added.type)
    (unset : Nat → Nat) (fuel : Nat) (list final : List WALRecord) (maxLsn last : LSN)
    (result : Except Error Unit)
    (ran : recoverLoop (fun list r => (.ok (),list ++ [r])) fuel
      {remaining := torn ++ next, unset := unset} list maxLsn = some (result,final,last)) :
    final ≠ list ++ [added] := by
  have enough : 29 ≤ (torn ++ next).length := by
    rw [List.length_append]
    omega
  intro same
  subst same
  cases fuel with
  | zero => simp [recoverLoop] at ran
  | succ fuel =>
    rw [recoverLoop] at ran
    simp only [InStream.good] at ran
    obtain ⟨type,data,file,shown,reads,_,_⟩ | ⟨e,file,reads,eof,_⟩ | ⟨⟨e,reads⟩,unread⟩ :=
      WalReading.readRecord_cases (torn ++ next) unset enough
    · -- a record is handed over, and it is of another type
      rw [reads] at ran
      have kept := recoverLoop_extends _ _ _ _ _ _ _ ran
      rw [List.prefix_append_right_inj,List.cons_prefix_cons] at kept
      apply other
      rw [shown,← kept.1]
      rfl
    · -- the payload of the torn frame runs into the end
      rw [reads] at ran
      simp [eof] at ran
    · -- the frame is skipped, and what is left is too short for another one
      have short : torn.length < 29 := by
        by_contra long
        obtain ⟨type,shown,reader⟩ := readsBack_reader r readsBack torn missing split (by omega) next
        have none := unread type shown {remaining := []}
        simpa [none] using reader {remaining := []}
      have left : ((torn ++ next).drop 29).length < 29 := by
        rw [List.length_drop,List.length_append]
        omega
      rw [reads] at ran
      cases fuel with
      | zero => simp [recoverLoop] at ran
      | succ fuel =>
        simp only [Bool.not_false,Bool.and_self,Bool.not_true,Bool.false_eq_true,if_false] at ran
        rw [recoverLoop_ended _ _ _ _ _ _ (WalReading.readRecord_short _ unset left)] at ran
        simp at ran

/-- The type that shows behind torn bytes comes from before the next record's own type, so
a begin or an abort differs from it. -/
theorem other_type (torn : Bytes) (some : torn ≠ []) (lsn : LSN) :
    ∃ call added, Readable call ∧ record lsn 0 call = .some added ∧ added.encode.length = 29 ∧
      delivered added = added ∧ WalReading.frameType (torn ++ added.encode) ≠ .some added.type := by
  have long : 17 ≤ (torn ++ (littleEndian 8 lsn.toNat ++ littleEndian 8 0)).length := by
    have positive := List.length_pos_iff.mpr some
    simp only [List.length_append,littleEndian_length]
    omega
  have shown (type : WALRecordType) :
      WalReading.frameType (torn ++ WALRecord.encode ⟨lsn,0,type,0,0,.none⟩) =
        WalReading.frameType (torn ++ (littleEndian 8 lsn.toNat ++ littleEndian 8 0)) := by
    have split : torn ++ WALRecord.encode ⟨lsn,0,type,0,0,.none⟩ =
        (torn ++ (littleEndian 8 lsn.toNat ++ littleEndian 8 0)) ++
          (littleEndian 1 type.code ++ (littleEndian 8 0 ++ littleEndian 4 0)) := by
      simp [WALRecord.encode,WALRecord.encodeData]
    rw [WalReading.frameType,split,List.drop_append_of_le_length (by omega),
      List.take_append_of_le_length (by rw [List.length_drop]; omega),WalReading.frameType]
  have size (type : WALRecordType) : (WALRecord.encode ⟨lsn,0,type,0,0,.none⟩).length = 29 := by
    simp [WALRecord.encode,WALRecord.encodeData]
  by_cases begins : WalReading.frameType (torn ++ (littleEndian 8 lsn.toNat ++ littleEndian 8 0)) =
      .some .beginTransaction
  · refine ⟨.abort 0,_,trivial,rfl,size _,rfl,?_⟩
    rw [shown,begins]
    intro absurd
    cases absurd
  · exact ⟨.begin 0,_,trivial,rfl,size _,rfl,by rwa [shown]⟩

/-- What recovery delivers of a file, it delivers of the records first and then of the rest. -/
theorem recover_behind (records : List WALRecord) (readsBack : ∀ r ∈ records, ReadsBack r)
    (rest : Bytes) (manager next : WALManager)
    (logged : Logged manager (records.flatMap WALRecord.encode ++ rest))
    (flushed : manager.logFile.buffer = []) (unset : Nat → Nat) (result : Except Error Unit)
    (final : List WALRecord)
    (ran : manager.recoverFromLog unset (fun list r => (.ok (),list ++ [r])) [] =
      some (result,final,next)) :
    ∃ fuel maxLsn last, recoverLoop (fun list r => (.ok (),list ++ [r])) fuel
      {remaining := rest, unset := unset} (records.map delivered) maxLsn = some (result,final,last) := by
  obtain ⟨isOpen,_,inside,atEnd,_,header,_,content⟩ := logged
  rw [FileStream.content_empty _ flushed atEnd inside] at content
  have bodies : manager.logFile.disk.drop 24 = records.flatMap WALRecord.encode ++ rest := by
    rw [content,← encodeHeader_length header,List.drop_left]
  have bound := records_length records
  obtain ⟨fuel,enough⟩ : ∃ fuel, manager.logFile.disk.length + 1 = records.length + fuel := by
    refine ⟨manager.logFile.disk.length + 1 - records.length,?_⟩
    rw [content,List.length_append,List.length_append]
    omega
  have loop := recoverLoop_records records readsBack rest unset fuel 0
    (fun list r => list ++ [r]) []
  rw [foldl_collect,List.nil_append] at loop
  rw [recoverFromLog,isOpen,bodies,enough,loop] at ran
  refine ⟨fuel,largest records,?_⟩
  change ∃ last, recoverLoop _ fuel _ _ ((records.map WALRecord.lsn).foldl max 0) = _
  cases found : recoverLoop (fun list r => ((.ok () : Except Error Unit),list ++ [r])) fuel
      {remaining := rest, unset := unset} (records.map delivered)
      ((records.map WALRecord.lsn).foldl max 0) with
  | none => simp [found] at ran
  | some outcome =>
    obtain ⟨outcome,state,last⟩ := outcome
    rw [found] at ran
    cases outcome with
    | error e =>
      cases ran
      exact ⟨last,rfl⟩
    | ok _ =>
      cases ran
      exact ⟨last,rfl⟩

theorem torn_loses (opened : WALManager) (records : List WALRecord)
    (readsBack : ∀ r ∈ records, ReadsBack r) (r : WALRecord) (torn missing : Bytes)
    (some : torn ≠ []) (back : ReadsBack r) (split : r.encode = torn ++ missing)
    (logged : Logged opened (records.flatMap WALRecord.encode ++ torn)) (unset : Nat → Nat) :
    ∃ call, Readable call ∧ ∀ manager,
      (History.run step opened [(0,call)]).forceSync.2.recoverFromLog unset
          (fun list r => (.ok (),list ++ [r])) [] ≠
        .some (.ok (),(records ++ written opened.currentLsn [(0,call)]).map delivered,manager) := by
  obtain ⟨call,added,allowed,logs,size,same,other⟩ := other_type torn some opened.currentLsn
  refine ⟨call,allowed,fun manager recovered => ?_⟩
  obtain ⟨kept,flushed,_,_⟩ := forceSync_logged (step_logged logged 0 call).1
  rw [logs,Option.toList_some,List.flatMap_singleton,List.append_assoc] at kept
  obtain ⟨fuel,maxLsn,last,ran⟩ := recover_behind records readsBack (torn ++ added.encode) _ manager
    kept flushed unset _ _ recovered
  apply torn_disturbs r back torn missing split added.encode size added other unset fuel _ _ _ _ _ ran
  simp [written,logs,same]

/-- A log can be carried on after a cut exactly when the cut lies between two records. -/
theorem carries_on_iff (clock : UInt64) (calls : List (UInt64 × LogCall))
    (readable : ∀ timed ∈ calls, Readable timed.2) (cut : Nat) (unset : Nat → Nat) :
    CarriesOn clock calls cut unset ↔ BetweenRecords clock calls cut := by
  by_cases behind : 24 ≤ cut
  · obtain ⟨header,torn,genuine,content,origin⟩ := cut_content clock calls cut behind
    have all := written_readsBack 1 calls readable
    have readsBack : ∀ r ∈ complete (cut - 24) (written 1 calls), ReadsBack r := fun r member =>
      all r (complete_subset _ _ r member)
    have ends := torn_ends (written 1 calls) all torn origin
    obtain ⟨logged,_,_⟩ := openExisting_torn _ readsBack torn unset ends header genuine
    rw [← content] at logged
    have between : BetweenRecords clock calls cut ↔ torn = [] := by
      have whole : ((after clock calls).logFile.content.take cut).drop 24 =
          (complete (cut - 24) (written 1 calls)).flatMap WALRecord.encode ++ torn := by
        rw [content,← encodeHeader_length header,List.drop_left]
      rw [BetweenRecords,whole]
      simp [behind]
    rw [between]
    constructor
    · intro carries
      by_contra some
      obtain none | ⟨r,member,missing,_,split⟩ := origin
      · exact some none
      · obtain ⟨call,allowed,lost⟩ := torn_loses _ _ readsBack r torn missing some (all r member)
          split logged unset
        obtain ⟨manager,recovered⟩ := (carries [(0,call)] (by simpa using allowed)).2 unset
        exact lost manager recovered
    · intro none further allowed
      subst none
      rw [List.append_nil] at logged
      obtain ⟨later,succeed⟩ := run_logged further _ _ logged
      obtain ⟨synced,flushed,_,_⟩ := forceSync_logged later
      refine ⟨succeed,fun others => ?_⟩
      rw [← List.flatMap_append,← List.append_nil (List.flatMap _ _)] at synced
      have recovered := recover_records _ (fun r member => ?_) [] others
        (WalReading.readRecord_short [] others (by decide)) _ synced flushed
        (fun list r => list ++ [r]) []
      · rw [foldl_collect,List.nil_append] at recovered
        exact ⟨_,recovered⟩
      · rcases List.mem_append.mp member with before | after
        · exact readsBack r before
        · exact written_readsBack _ further allowed r after
  · have short : ((after clock calls).logFile.content.take cut).length < 24 := by
      rw [List.length_take]
      omega
    have refused := short_refuses unset _ short
    constructor
    · intro carries
      have answered := (carries [(0,.begin 0)] (by simp [Readable])).1.1
      exact absurd (refused.symm.trans answered) (by decide)
    · intro between
      exact absurd between.1 behind

def begun : List (UInt64 × LogCall) := [(0,.begin 1)]

/-- Six bytes of the record are left in the one case, and a part of the header in the other. -/
theorem cut_spoils : ¬CarriesOn 0 begun 30 (fun _ => 0) ∧ ¬CarriesOn 0 begun 10 (fun _ => 0) := by
  constructor
  · intro carries
    obtain ⟨manager,recovered⟩ := (carries [(0,.begin 2)] (by simp [Readable])).2 (fun _ => 0)
    have delivers := congrArg (Option.map fun outcome => outcome.2.1) recovered
    simp only [Option.map_some] at delivers
    exact absurd delivers (by decide +kernel)
  · intro carries
    exact absurd (carries [(0,.begin 2)] (by simp [Readable])).1.1 (by decide +kernel)

theorem carries_on_begun : CarriesOn 4 committedNode 53 (fun _ => 0) :=
  (carries_on_iff 4 committedNode (by decide) 53 (fun _ => 0)).mpr (by decide +kernel)

end LoreDB.Storage.TornTail
