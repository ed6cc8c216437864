import LoreDB.Storage.WalManager

/-! How the record reader moves through a file: a fixed frame of 29 bytes first, and then
the payload that the frame's type calls for. On a file cut short it delivers what it
delivers of the whole file, or it runs into the end. -/
namespace LoreDB.Storage.WalReading
open LoreDB.Library.ByteStream

variable (bytes : Bytes) (unset : Nat → Nat)

theorem readNumber_front (width : Nat) (enough : width ≤ bytes.length) :
    InStream.readNumber width {remaining := bytes, unset := unset} =
      (number (bytes.take width),{remaining := bytes.drop width, unset := unset}) := by
  rw [InStream.readNumber,read_front unset bytes width enough]
  simp

theorem readNumber_short (width : Nat) (short : bytes.length < width) :
    Ended (InStream.readNumber width {remaining := bytes, unset := unset}).2 := by
  rw [InStream.readNumber,read_short unset bytes width short]
  exact ⟨rfl,rfl⟩

theorem readFilled_front (count : Nat) (enough : count ≤ bytes.length) :
    InStream.readFilled count {remaining := bytes, unset := unset} =
      (bytes.take count,{remaining := bytes.drop count, unset := unset}) := by
  rw [InStream.readFilled,read_front unset bytes count enough]
  simp [enough]

theorem readFilled_short (count : Nat) (short : bytes.length < count) :
    Ended (InStream.readFilled count {remaining := bytes, unset := unset}).2 := by
  rw [InStream.readFilled,read_short unset bytes count short]
  exact ⟨rfl,rfl⟩

/-- The stream stands `count` bytes behind the start, or it has run into the end. -/
def Advanced (count : Nat) (file : InStream) : Prop :=
  Ended file ∨ count ≤ bytes.length ∧ file = {remaining := bytes.drop count, unset := unset}

theorem readNumber_advanced (width count : Nat) (file : InStream)
    (stands : Advanced bytes unset count file) :
    Advanced bytes unset (count + width) (file.readNumber width).2 := by
  rcases stands with ended | ⟨inside,rfl⟩
  · exact .inl (readNumber_ended width file ended)
  · by_cases enough : width ≤ (bytes.drop count).length
    · rw [readNumber_front _ _ _ enough]
      refine .inr ⟨?_,by simp [List.drop_drop]⟩
      rw [List.length_drop] at enough
      omega
    · exact .inl (readNumber_short _ _ _ (Nat.lt_of_not_le enough))

theorem readRecord_short (short : bytes.length < 29) :
    ∃ e file, readRecord {remaining := bytes, unset := unset} = (.error e,file) ∧ Ended file := by
  have start : Advanced bytes unset 0 {remaining := bytes, unset := unset} :=
    .inr ⟨Nat.zero_le _,by simp⟩
  have lsn := readNumber_advanced bytes unset 8 0 _ start
  have txId := readNumber_advanced bytes unset 8 _ _ lsn
  have type := readNumber_advanced bytes unset 1 _ _ txId
  have timestamp := readNumber_advanced bytes unset 8 _ _ type
  have dataSize := readNumber_advanced bytes unset 4 _ _ timestamp
  rcases dataSize with ended | ⟨inside,_⟩
  · exact ⟨_,_,if_pos ended.2,ended⟩
  · omega

/-- The record of a frame with its payload. -/
def framed (type : WALRecordType) (data : WALData) : WALRecord := {
  lsn := UInt64.ofNat (number (bytes.take 8))
  txId := UInt64.ofNat (number ((bytes.drop 8).take 8))
  type := type
  timestamp := UInt64.ofNat (number ((bytes.drop 17).take 8))
  dataSize := UInt32.ofNat (number ((bytes.drop 25).take 4))
  data := data}

def frameType : Option WALRecordType := WALRecordType.ofCode (number ((bytes.drop 16).take 1))

theorem readRecord_frame (enough : 29 ≤ bytes.length) :
    readRecord {remaining := bytes, unset := unset} =
      match frameType bytes with
      | none => (.error ⟨.corruption,"Unknown WAL record type"⟩,
          {remaining := bytes.drop 29, unset := unset})
      | some type =>
        match readData type {remaining := bytes.drop 29, unset := unset} with
        | (none,file) => (.error ⟨.corruption,"Unknown WAL record type"⟩,file)
        | (some data,file) =>
          if file.fail then (.error ⟨.ioError,"Failed to read record data"⟩,file)
          else (.ok (framed bytes type data),file) := by
  rw [readRecord,readNumber_front _ _ 8 (by omega)]
  dsimp only
  rw [readNumber_front _ _ 8 (by simp only [List.length_drop]; omega)]
  dsimp only
  rw [readNumber_front _ _ 1 (by simp only [List.length_drop]; omega)]
  dsimp only
  rw [readNumber_front _ _ 8 (by simp only [List.length_drop]; omega)]
  dsimp only
  rw [readNumber_front _ _ 4 (by simp only [List.length_drop]; omega)]
  simp only [List.drop_drop,Nat.reduceAdd,Bool.false_eq_true,if_false,frameType]
  cases WALRecordType.ofCode (number ((bytes.drop 16).take 1)) with
  | none => rfl
  | some type => rfl

theorem readProperties_ended (count : Nat) (file : InStream) (ended : Ended file) :
    Ended (readProperties count file).2 := by
  induction count generalizing file with
  | zero => exact ended
  | succ count ih =>
    apply ih
    apply readNumber_ended
    apply readFilled_ended
    exact readNumber_ended 4 file ended

theorem readProperties_good (count : Nat) (file : InStream) (good : file.good = true) :
    (readProperties count file).2.good = true ∨ Ended (readProperties count file).2 := by
  induction count generalizing file with
  | zero => exact .inl good
  | succ count ih =>
    rcases readNumber_good 4 file good with length | past
    · rcases readFilled_good (file.readNumber 4).1 _ length with key | past
      · rcases readNumber_good 4 _ key with value | past
        · exact ih _ value
        · exact .inr (readProperties_ended count _ past)
      · exact .inr (readProperties_ended count _ (readNumber_ended 4 _ past))
    · exact .inr (readProperties_ended count _ (readNumber_ended 4 _ (readFilled_ended _ _ past)))

theorem readData_good (type : WALRecordType) (file : InStream) (good : file.good = true) :
    (readData type file).2.good = true ∨ Ended (readData type file).2 := by
  have node : (readProperties ((file.readNumber 8).2.readNumber 4).1
        ((file.readNumber 8).2.readNumber 4).2).2.good = true ∨
      Ended (readProperties ((file.readNumber 8).2.readNumber 4).1
        ((file.readNumber 8).2.readNumber 4).2).2 := by
    rcases readNumber_good 8 file good with id | past
    · rcases readNumber_good 4 _ id with count | past
      · exact readProperties_good _ _ count
      · exact .inr (readProperties_ended _ _ past)
    · exact .inr (readProperties_ended _ _ (readNumber_ended 4 _ past))
  cases type with
  | beginTransaction => exact .inl good
  | commitTransaction => exact .inl good
  | abortTransaction => exact .inl good
  | createNode => exact node
  | updateNode => exact node
  | deleteNode => exact readNumber_good 8 file good
  | checkpoint => exact readNumber_good 8 file good
  | createEdge => exact .inl good
  | updateEdge => exact .inl good
  | deleteEdge => exact .inl good

/-- Whether a payload has a reader depends on its type alone, and a type without one
leaves the stream where it is. -/
theorem readData_reader (type : WALRecordType) :
    (∀ file, (readData type file).1.isSome = true) ∨ ∀ file, readData type file = (none,file) := by
  cases type with
  | beginTransaction => exact .inl fun _ => rfl
  | commitTransaction => exact .inl fun _ => rfl
  | abortTransaction => exact .inl fun _ => rfl
  | createNode => exact .inl fun _ => rfl
  | updateNode => exact .inl fun _ => rfl
  | deleteNode => exact .inl fun _ => rfl
  | checkpoint => exact .inl fun _ => rfl
  | createEdge => exact .inr fun _ => rfl
  | updateEdge => exact .inr fun _ => rfl
  | deleteEdge => exact .inr fun _ => rfl

theorem readProperties_shrinks (count : Nat) (file : InStream) :
    (readProperties count file).2.remaining.length ≤ file.remaining.length := by
  induction count generalizing file with
  | zero => exact Nat.le_refl _
  | succ count ih =>
    have key := Nat.le_trans (readFilled_shrinks (file.readNumber 4).1 _) (readNumber_shrinks 4 file)
    exact Nat.le_trans (ih _) (Nat.le_trans (readNumber_shrinks 4 _) key)

theorem readData_shrinks (type : WALRecordType) (file : InStream) :
    (readData type file).2.remaining.length ≤ file.remaining.length := by
  have count := Nat.le_trans (readNumber_shrinks 4 (file.readNumber 8).2) (readNumber_shrinks 8 file)
  cases type with
  | createNode => exact Nat.le_trans (readProperties_shrinks _ _) count
  | updateNode => exact Nat.le_trans (readProperties_shrinks _ _) count
  | deleteNode => exact readNumber_shrinks 8 file
  | checkpoint => exact readNumber_shrinks 8 file
  | _ => exact Nat.le_refl _

/-- What the reader makes of 29 bytes or more: it hands over a record of the frame's type,
it runs into the end, or it goes on behind a frame whose payload has no reader. -/
theorem readRecord_cases (enough : 29 ≤ bytes.length) :
    (∃ type data file, frameType bytes = some type ∧
      readRecord {remaining := bytes, unset := unset} = (.ok (framed bytes type data),file) ∧
      file.good = true ∧ file.remaining.length + 29 ≤ bytes.length) ∨
    (∃ e file, readRecord {remaining := bytes, unset := unset} = (.error e,file) ∧ Ended file) ∨
    (∃ e, readRecord {remaining := bytes, unset := unset} =
      (.error e,{remaining := bytes.drop 29, unset := unset})) ∧
      ∀ type, frameType bytes = some type → ∀ file, readData type file = (none,file) := by
  rw [readRecord_frame bytes unset enough]
  cases found : frameType bytes with
  | none => exact .inr (.inr ⟨⟨_,rfl⟩,fun _ absurd => nomatch absurd⟩)
  | some type =>
    dsimp only
    rcases readData_reader type with reader | none
    · have moved := readData_good type {remaining := bytes.drop 29, unset := unset} rfl
      have shrinks := readData_shrinks type {remaining := bytes.drop 29, unset := unset}
      have some := reader {remaining := bytes.drop 29, unset := unset}
      cases read : readData type {remaining := bytes.drop 29, unset := unset} with
      | mk result file =>
        rw [read] at moved some shrinks
        obtain ⟨data,rfl⟩ := Option.isSome_iff_exists.mp some
        rcases moved with good | ended
        · have fine := good
          simp only [InStream.good,Bool.and_eq_true,Bool.not_eq_true'] at good
          simp only [List.length_drop] at shrinks
          exact .inl ⟨type,data,file,rfl,if_neg (by simp [good.2]),fine,by omega⟩
        · exact .inr (.inl ⟨_,file,if_pos ended.2,ended⟩)
    · rw [none]
      refine .inr (.inr ⟨⟨_,rfl⟩,fun other same => ?_⟩)
      cases same
      exact none

theorem good_stream (file : InStream) (good : file.good = true) :
    file = {remaining := file.remaining, unset := file.unset} := by
  simp only [InStream.good,Bool.and_eq_true,Bool.not_eq_true'] at good
  obtain ⟨eof,fail⟩ := good
  cases file
  simp_all

/-- Every step of a recovery but the last consumes a frame, so that it comes to an end. -/
theorem recoverLoop_total {α : Type} (apply : α → WALRecord → Except Error Unit × α) (fuel : Nat)
    (file : InStream) (enough : file.remaining.length < fuel) (state : α) (maxLsn : LSN) :
    (WALManager.recoverLoop apply fuel file state maxLsn).isSome = true := by
  induction fuel generalizing file state maxLsn with
  | zero => omega
  | succ fuel ih =>
    rw [WALManager.recoverLoop]
    split
    · rfl
    · rename_i good
      rw [Bool.not_eq_true,Bool.not_eq_false'] at good
      have stream := good_stream file good
      by_cases long : 29 ≤ file.remaining.length
      · obtain ⟨type,data,next,_,reads,_,shorter⟩ | ⟨e,next,reads,eof,_⟩ | ⟨⟨e,reads⟩,_⟩ :=
          readRecord_cases file.remaining file.unset long
        · rw [stream,reads]
          dsimp only
          split
          · rfl
          · exact ih next (by omega) _ _
        · rw [stream,reads]
          simp [eof]
        · rw [stream,reads]
          exact ih _ (by rw [List.length_drop]; omega) _ _
      · obtain ⟨e,next,reads,eof,_⟩ :=
          readRecord_short file.remaining file.unset (Nat.lt_of_not_le long)
        rw [stream,reads]
        simp [eof]

theorem recoverFromLog_total {α : Type} (apply : α → WALRecord → Except Error Unit × α) (state : α)
    (manager : WALManager) : (manager.recoverFromLog unset apply state).isSome = true := by
  rw [WALManager.recoverFromLog]
  split
  · rfl
  · have ran := recoverLoop_total apply (manager.logFile.disk.length + 1)
      {remaining := manager.logFile.disk.drop 24, unset := unset}
      (by rw [List.length_drop]; omega) state 0
    obtain ⟨⟨result,final,last⟩,outcome⟩ := Option.isSome_iff_exists.mp ran
    rw [outcome]
    cases result with
    | error e => rfl
    | ok _ => rfl

section Torn

variable {tail : Bytes} {full torn : InStream}

theorem readNumber_before (width : Nat) (file : InStream)
    (works : (file.readNumber width).2.good = true) : file.good = true := by
  rw [InStream.readNumber] at works
  have source := read_works width file
  cases found : file.read width with
  | mk bytes next =>
    rw [found] at works source
    dsimp only at works
    split at works
    · rename_i failed
      simp [InStream.good,failed] at works
    · exact (source works).1

theorem readFilled_before (count : Nat) (file : InStream)
    (works : (file.readFilled count).2.good = true) : file.good = true :=
  (read_works count file works).1

theorem readProperties_before (count : Nat) (file : InStream)
    (works : (readProperties count file).2.good = true) : file.good = true := by
  induction count generalizing file with
  | zero => exact works
  | succ count ih =>
    exact readNumber_before 4 _ (readFilled_before _ _ (readNumber_before 4 _ (ih _ works)))

theorem readProperties_torn (count : Nat) (related : Torn tail full torn)
    (works : (readProperties count full).2.good = true) :
    Torn tail (readProperties count full).2 (readProperties count torn).2 := by
  induction count generalizing full torn with
  | zero => exact related
  | succ count ih =>
    have last := readProperties_before count _ works
    have middle := readNumber_before 4 _ last
    obtain ⟨length,same⟩ := readNumber_torn 4 related (readFilled_before _ _ middle)
    by_cases past : Ended (torn.readNumber 4).2
    · refine .inl (readProperties_ended count _ ?_)
      apply readNumber_ended
      exact readFilled_ended _ _ past
    · have fine : (torn.readNumber 4).2.fail = false := by
        rcases length with ended | ⟨_,good,_⟩
        · exact absurd ended past
        · simp only [InStream.good,Bool.and_eq_true,Bool.not_eq_true'] at good
          exact good.2
      have moved : (readProperties (count + 1) torn).2 = (readProperties count
          (((torn.readNumber 4).2.readFilled (full.readNumber 4).1).2.readNumber 4).2).2 := by
        rw [← same fine]
        rfl
      rw [moved]
      have key := (readFilled_torn (full.readNumber 4).1 length middle).1
      exact ih (readNumber_torn 4 key last).1 works

/-- On torn bytes the payload reader follows the run on the whole ones. -/
theorem readData_torn (type : WALRecordType) (related : Torn tail full torn)
    (data : WALData) (delivers : (readData type full).1 = some data)
    (works : (readData type full).2.good = true) :
    (readData type torn).1.isSome = true ∧
      Torn tail (readData type full).2 (readData type torn).2 := by
  have ended_or (width : Nat) (file : InStream) (next : InStream)
      (step : Torn tail next (file.readNumber width).2) : Ended (file.readNumber width).2 ∨
        (file.readNumber width).2.fail = false := by
    rcases step with past | ⟨_,good,_⟩
    · exact .inl past
    · simp only [InStream.good,Bool.and_eq_true,Bool.not_eq_true'] at good
      exact .inr good.2
  have node (works : (readProperties ((full.readNumber 8).2.readNumber 4).1
      ((full.readNumber 8).2.readNumber 4).2).2.good = true) :
      Torn tail (readProperties ((full.readNumber 8).2.readNumber 4).1
          ((full.readNumber 8).2.readNumber 4).2).2
        (readProperties ((torn.readNumber 8).2.readNumber 4).1
          ((torn.readNumber 8).2.readNumber 4).2).2 := by
    have counted := readProperties_before _ _ works
    have id := (readNumber_torn 8 related (readNumber_before 4 _ counted)).1
    obtain ⟨count,same⟩ := readNumber_torn 4 id counted
    rcases ended_or 4 _ _ count with past | fine
    · exact .inl (readProperties_ended _ _ past)
    · rw [same fine]
      exact readProperties_torn _ count works
  cases type with
  | beginTransaction => exact ⟨rfl,related⟩
  | commitTransaction => exact ⟨rfl,related⟩
  | abortTransaction => exact ⟨rfl,related⟩
  | createNode => exact ⟨rfl,node works⟩
  | updateNode => exact ⟨rfl,node works⟩
  | deleteNode => exact ⟨rfl,(readNumber_torn 8 related works).1⟩
  | checkpoint => exact ⟨rfl,(readNumber_torn 8 related works).1⟩
  | createEdge => contradiction
  | updateEdge => contradiction
  | deleteEdge => contradiction

end Torn

/-- Cut inside a record that the whole file would deliver, the reader runs into the end. -/
theorem readRecord_torn (tail : Bytes) (others : Nat → Nat) (record : WALRecord)
    (next : InStream) (whole : readRecord {remaining := bytes ++ tail, unset := others} =
      (.ok record,next)) (works : next.good = true) (missing : next.remaining.length < tail.length) :
    ∃ e file, readRecord {remaining := bytes, unset := unset} = (.error e,file) ∧ Ended file := by
  by_cases enough : 29 ≤ bytes.length
  · have front (count width : Nat) (inside : count + width ≤ 29) :
        ((bytes ++ tail).drop count).take width = (bytes.drop count).take width := by
      rw [List.drop_append_of_le_length (by omega),
        List.take_append_of_le_length (by rw [List.length_drop]; omega)]
    have type : frameType (bytes ++ tail) = frameType bytes := by
      rw [frameType,front 16 1 (by omega),frameType]
    rw [readRecord_frame _ _ (by rw [List.length_append]; omega),type] at whole
    rw [readRecord_frame _ _ enough]
    cases found : frameType bytes with
    | none => simp [found] at whole
    | some type =>
      simp only [found] at whole ⊢
      have related : Torn tail {remaining := (bytes ++ tail).drop 29, unset := others}
          {remaining := bytes.drop 29, unset := unset} :=
        .inr ⟨rfl,rfl,List.drop_append_of_le_length enough⟩
      have follows := readData_torn type related
      cases first : readData type {remaining := (bytes ++ tail).drop 29, unset := others} with
      | mk read file =>
        rw [first] at whole follows
        cases read with
        | none => simp at whole
        | some data =>
          dsimp only at whole
          split at whole
          · simp at whole
          · cases whole
            obtain ⟨reads,torn⟩ := follows data rfl works
            cases second : readData type {remaining := bytes.drop 29, unset := unset} with
            | mk other rest =>
              rw [second] at reads torn
              obtain ⟨payload,rfl⟩ := Option.isSome_iff_exists.mp reads
              rcases torn with past | ⟨_,_,split⟩
              · exact ⟨_,rest,if_pos past.2,past⟩
              · rw [split,List.length_append] at missing
                omega
  · exact readRecord_short bytes unset (Nat.lt_of_not_le enough)

end LoreDB.Storage.WalReading
