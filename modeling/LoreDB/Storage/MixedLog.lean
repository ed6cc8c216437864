import LoreDB.Storage.TornTail

/-! Structured records and text lines of the older interface in one file. The text has no
frame around it, so that the reader cuts it into frames of 29 bytes and takes what it finds
at the place of the type for a type. -/
namespace LoreDB.Storage.MixedLog
open LoreDB.Library LoreDB.Library.ByteStream WALManager WalRoundTrip TornTail WalReading

inductive Call where
  | operation (jsonLine : Bytes)
  | log (clock : UInt64) (call : LogCall)

/-- The records in the file, each with the text in front of it, and the text behind them. -/
structure Mixed where
  manager : WALManager
  blocks : List (Bytes × WALRecord)
  tail : Bytes

def opened (clock : UInt64) : Mixed := {manager := WALManager.create clock, blocks := [], tail := []}

def step (mixed : Mixed) : Call → Mixed
  | .operation jsonLine => {mixed with
    manager := (mixed.manager.logOperation jsonLine).2
    tail := mixed.tail ++ (jsonLine ++ [10])}
  | .log clock call =>
    let manager := WalRoundTrip.step mixed.manager (clock,call)
    match record mixed.manager.currentLsn clock call with
    | some r => {manager := manager, blocks := mixed.blocks ++ [(mixed.tail,r)], tail := []}
    | none => {mixed with manager := manager}

def after (clock : UInt64) (calls : List Call) : Mixed := History.run step (opened clock) calls

/-- The structured calls among all. -/
def structured (calls : List Call) : List (UInt64 × LogCall) :=
  calls.filterMap fun
    | .operation _ => none
    | .log clock call => some (clock,call)

def content (blocks : List (Bytes × WALRecord)) (tail : Bytes) : Bytes :=
  blocks.flatMap (fun block => block.1 ++ block.2.encode) ++ tail

/-- Recovery of the synced log delivers exactly the records of the structured calls. -/
def Exact (clock : UInt64) (calls : List Call) (unset : Nat → Nat) : Prop :=
  ∃ manager, (after clock calls).manager.forceSync.2.recoverFromLog unset
      (fun list r => (.ok (),list ++ [r])) [] =
    some (.ok (),(written 1 (structured calls)).map delivered,manager)

/-- The reader has nothing to read behind this frame. -/
def unread (bytes : Bytes) : Bool :=
  match frameType bytes with
  | none | some .createEdge | some .updateEdge | some .deleteEdge => true
  | _ => false

/-- The text is made of frames, and the reader skips all of them. -/
def Framed (text : Bytes) : Prop :=
  text.length % 29 = 0 ∧ ∀ i < text.length / 29, unread (text.drop (29 * i)) = true

/-- The number of bytes that the reader takes for this many properties. -/
def propertiesDemand : Nat → Bytes → Nat
  | 0, _ => 0
  | count + 1, bytes =>
    let keyLen := number (bytes.take 4)
    4 + keyLen + 4 + propertiesDemand count (bytes.drop (4 + keyLen + 4))

def demand (bytes : Bytes) : WALRecordType → Nat
  | .createNode | .updateNode =>
    8 + 4 + propertiesDemand (number ((bytes.drop 8).take 4)) (bytes.drop (8 + 4))
  | .deleteNode | .checkpoint => 8
  | _ => 0

/-- The frame or what belongs behind it is longer than what is left. -/
def Overruns (bytes : Bytes) : Prop :=
  bytes.length < 29 ∨
    ∃ type ∈ frameType bytes, (bytes.drop 29).length < demand (bytes.drop 29) type

/-- The reader skips frames until it runs into the end. -/
def Silent (tail : Bytes) : Prop :=
  ∃ n ≤ tail.length / 29, (∀ i < n, unread (tail.drop (29 * i)) = true) ∧ Overruns (tail.drop (29 * n))

def Harmless (blocks : List (Bytes × WALRecord)) (tail : Bytes) : Prop :=
  (∀ block ∈ blocks, Framed block.1) ∧ Silent tail

/-- What stands behind a record and in front of the next one, and everything behind that
one, shows the next record's first 29 bytes only where it stands itself. -/
def Unrepeated : List (Bytes × WALRecord) → Bytes → Prop
  | [], _ => True
  | (text,r)::rest, tail =>
    (∀ i < (content ((text,r)::rest) tail).length,
      ((content ((text,r)::rest) tail).drop i).take 29 = r.encode.take 29 → i = text.length) ∧
      Unrepeated rest tail

instance (text : Bytes) : Decidable (Framed text) := inferInstanceAs (Decidable (_ ∧ _))

instance (bytes : Bytes) : Decidable (Overruns bytes) :=
  inferInstanceAs (Decidable (_ ∨ ∃ type ∈ frameType bytes,_))

instance (tail : Bytes) : Decidable (Silent tail) := inferInstanceAs (Decidable (∃ n ≤ _,_))

instance (blocks : List (Bytes × WALRecord)) (tail : Bytes) : Decidable (Harmless blocks tail) :=
  inferInstanceAs (Decidable (_ ∧ _))

instance decidableUnrepeated : (blocks : List (Bytes × WALRecord)) → (tail : Bytes) →
    Decidable (Unrepeated blocks tail)
  | [], _ => .isTrue trivial
  | _::rest, tail => @instDecidableAnd _ _ inferInstance (decidableUnrepeated rest tail)

section Payload

variable (bytes : Bytes) (unset : Nat → Nat)

theorem readProperties_fail (count : Nat) :
    (readProperties count {remaining := bytes, unset := unset}).2.fail = true ↔
      bytes.length < propertiesDemand count bytes := by
  induction count generalizing bytes with
  | zero => simp [readProperties,propertiesDemand]
  | succ count ih =>
    rw [readProperties,propertiesDemand]
    dsimp only
    by_cases length : 4 ≤ bytes.length
    · rw [readNumber_front _ _ _ length]
      dsimp only
      by_cases key : number (bytes.take 4) ≤ (bytes.drop 4).length
      · rw [readFilled_front _ _ _ key]
        dsimp only
        rw [List.length_drop] at key
        rw [List.drop_drop]
        by_cases value : 4 ≤ (bytes.drop (4 + number (bytes.take 4))).length
        · rw [readNumber_front _ _ _ value]
          dsimp only
          rw [List.length_drop] at value
          rw [List.drop_drop,ih,List.length_drop]
          omega
        · have past := readProperties_ended count _
            (readNumber_short _ unset 4 (Nat.lt_of_not_le value))
          rw [List.length_drop] at value
          exact iff_of_true past.2 (by omega)
      · have past := readProperties_ended count _ (readNumber_ended 4 _
          (readFilled_short _ unset _ (Nat.lt_of_not_le key)))
        rw [List.length_drop] at key
        exact iff_of_true past.2 (by omega)
    · have past := readProperties_ended count _ (readNumber_ended 4 _ (readFilled_ended
        (InStream.readNumber 4 {remaining := bytes, unset := unset}).1 _
          (readNumber_short bytes unset 4 (Nat.lt_of_not_le length))))
      exact iff_of_true past.2 (by omega)

theorem readData_fail (type : WALRecordType) :
    (readData type {remaining := bytes, unset := unset}).2.fail = true ↔
      bytes.length < demand bytes type := by
  have number (width : Nat) : (InStream.readNumber width {remaining := bytes, unset := unset}).2.fail =
      true ↔ bytes.length < width := by
    by_cases enough : width ≤ bytes.length
    · rw [readNumber_front _ _ _ enough]
      simp [enough]
    · exact iff_of_true (readNumber_short _ _ _ (Nat.lt_of_not_le enough)).2 (Nat.lt_of_not_le enough)
  have node : (readProperties
      ((InStream.readNumber 8 {remaining := bytes, unset := unset}).2.readNumber 4).1
      ((InStream.readNumber 8 {remaining := bytes, unset := unset}).2.readNumber 4).2).2.fail = true ↔
        bytes.length <
          8 + 4 + propertiesDemand (ByteStream.number ((bytes.drop 8).take 4)) (bytes.drop (8 + 4)) := by
    by_cases id : 8 ≤ bytes.length
    · rw [readNumber_front _ _ _ id]
      dsimp only
      by_cases count : 4 ≤ (bytes.drop 8).length
      · rw [readNumber_front _ _ _ count]
        dsimp only
        rw [List.length_drop] at count
        rw [List.drop_drop,readProperties_fail,List.length_drop]
        omega
      · have past := readProperties_ended
          (InStream.readNumber 4 {remaining := bytes.drop 8, unset := unset}).1 _
          (readNumber_short _ unset 4 (Nat.lt_of_not_le count))
        rw [List.length_drop] at count
        exact iff_of_true past.2 (by omega)
    · have past := readProperties_ended
        ((InStream.readNumber 8 {remaining := bytes, unset := unset}).2.readNumber 4).1 _
        (readNumber_ended 4 _ (readNumber_short bytes unset 8 (Nat.lt_of_not_le id)))
      exact iff_of_true past.2 (by omega)
  cases type with
  | createNode => exact node
  | updateNode => exact node
  | deleteNode => exact number 8
  | checkpoint => exact number 8
  | _ => simp [readData,demand]

end Payload

theorem code_ofCode (code : Nat) (type : WALRecordType) (known : WALRecordType.ofCode code = some type) :
    type.code = code := by
  unfold WALRecordType.ofCode at known
  split at known <;> cases known <;> rfl

theorem number_back (bytes : Bytes) (width value : Nat) (size : bytes.length = width)
    (same : number bytes = value) : bytes = littleEndian width value := by
  rw [← same,← size,littleEndian_number]

/-- A record that the reader hands over shows its first 29 bytes where it was read. -/
theorem framed_bytes (bytes : Bytes) (enough : 29 ≤ bytes.length) (type : WALRecordType)
    (data : WALData) (shown : frameType bytes = some type) (r : WALRecord)
    (same : delivered r = framed bytes type data) : bytes.take 29 = r.encode.take 29 := by
  have fields : delivered r = {r with data := (delivered r).data} := by
    unfold delivered
    split <;> rfl
  rw [fields] at same
  have word (offset width : Nat) (inside : offset + width ≤ 29) :
      ((bytes.drop offset).take width).length = width := by
    rw [List.length_take,List.length_drop]
    omega
  have bound (offset width : Nat) (inside : offset + width ≤ 29) :
      number ((bytes.drop offset).take width) < 256 ^ width := by
    have below := number_lt ((bytes.drop offset).take width)
    rwa [word offset width inside] at below
  have lsn : bytes.take 8 = littleEndian 8 r.lsn.toNat := by
    apply number_back _ 8 _ (word 0 8 (by omega))
    have value := congrArg (fun r => r.lsn.toNat) same
    simp only [framed,UInt64.toNat_ofNat'] at value
    rw [value]
    exact (Nat.mod_eq_of_lt (bound 0 8 (by omega))).symm
  have txId : (bytes.drop 8).take 8 = littleEndian 8 r.txId.toNat := by
    apply number_back _ 8 _ (word 8 8 (by omega))
    have value := congrArg (fun r => r.txId.toNat) same
    simp only [framed,UInt64.toNat_ofNat'] at value
    rw [value]
    exact (Nat.mod_eq_of_lt (bound 8 8 (by omega))).symm
  have code : (bytes.drop 16).take 1 = littleEndian 1 r.type.code := by
    apply number_back _ 1 _ (word 16 1 (by omega))
    have value := congrArg (fun r => r.type) same
    simp only [framed] at value
    rw [value]
    exact (code_ofCode _ type shown).symm
  have timestamp : (bytes.drop 17).take 8 = littleEndian 8 r.timestamp.toNat := by
    apply number_back _ 8 _ (word 17 8 (by omega))
    have value := congrArg (fun r => r.timestamp.toNat) same
    simp only [framed,UInt64.toNat_ofNat'] at value
    rw [value]
    exact (Nat.mod_eq_of_lt (bound 17 8 (by omega))).symm
  have dataSize : (bytes.drop 25).take 4 = littleEndian 4 r.dataSize.toNat := by
    apply number_back _ 4 _ (word 25 4 (by omega))
    have value := congrArg (fun r => r.dataSize.toNat) same
    simp only [framed,UInt32.toNat_ofNat'] at value
    rw [value]
    exact (Nat.mod_eq_of_lt (bound 25 4 (by omega))).symm
  have split : bytes.take 29 = bytes.take 8 ++ ((bytes.drop 8).take 8 ++ ((bytes.drop 16).take 1 ++
      ((bytes.drop 17).take 8 ++ (bytes.drop 25).take 4))) := by
    rw [show 29 = 8 + (8 + (1 + (8 + 4))) from rfl,List.take_add,List.take_add,List.take_add,List.take_add]
    simp only [List.drop_drop]
  have encoded : r.encode = (littleEndian 8 r.lsn.toNat ++ (littleEndian 8 r.txId.toNat ++
      (littleEndian 1 r.type.code ++ (littleEndian 8 r.timestamp.toNat ++
        littleEndian 4 r.dataSize.toNat)))) ++ WALRecord.encodeData r.data := by
    simp only [WALRecord.encode,List.append_assoc]
  rw [split,lsn,txId,code,timestamp,dataSize,encoded,List.take_append_of_le_length,List.take_of_length_le]
  all_goals simp only [List.length_append,littleEndian_length,Nat.reduceAdd,Nat.le_refl]

theorem overruns_ends (bytes : Bytes) (unset : Nat → Nat) : Overruns bytes ↔
    ∃ e file, readRecord {remaining := bytes, unset := unset} = (.error e,file) ∧ Ended file := by
  by_cases enough : 29 ≤ bytes.length
  · have long : ¬bytes.length < 29 := Nat.not_lt_of_le enough
    rw [readRecord_frame bytes unset enough]
    simp only [Overruns,long,false_or]
    cases found : frameType bytes with
    | none => simp [Ended]
    | some type =>
      have fails := readData_fail (bytes.drop 29) unset type
      have moved := readData_good type {remaining := bytes.drop 29, unset := unset} rfl
      simp only [Option.mem_some,exists_eq_left']
      rcases readData_reader type with reader | unreadable
      · have delivers := reader {remaining := bytes.drop 29, unset := unset}
        cases read : readData type {remaining := bytes.drop 29, unset := unset} with
        | mk result file =>
          rw [read] at moved delivers fails
          obtain ⟨data,rfl⟩ := Option.isSome_iff_exists.mp delivers
          dsimp only at fails moved ⊢
          rw [← fails]
          constructor
          · intro failed
            rcases moved with good | ended
            · simp [InStream.good,failed] at good
            · exact ⟨_,file,if_pos failed,ended⟩
          · rintro ⟨e,next,reads,ended⟩
            cases failed : file.fail with
            | true => rfl
            | false => simp [failed] at reads
      · rw [← fails,unreadable]
        constructor
        · intro failed
          contradiction
        · rintro ⟨e,next,reads,ended⟩
          cases reads
          exact absurd ended.1 (by simp)
  · have short := Nat.lt_of_not_le enough
    exact iff_of_true (.inl short) (readRecord_short bytes unset short)

theorem unread_iff (bytes : Bytes) : unread bytes = true ↔
    ∀ type, frameType bytes = some type → ∀ file, readData type file = (none,file) := by
  rw [unread]
  cases frameType bytes with
  | none => simp
  | some type =>
    cases type with
    | createEdge => simp [readData]
    | updateEdge => simp [readData]
    | deleteEdge => simp [readData]
    | _ =>
      simp only [readData,Bool.false_eq_true,false_iff]
      intro unreadable
      cases unreadable _ rfl {remaining := []}

/-- What the reader makes of a frame, by the type that it shows. -/
theorem unread_skips (bytes : Bytes) (unset : Nat → Nat) (enough : 29 ≤ bytes.length)
    (skipped : unread bytes = true) : ∃ e, readRecord {remaining := bytes, unset := unset} =
      (.error e,{remaining := bytes.drop 29, unset := unset}) := by
  have unreadable := (unread_iff bytes).mp skipped
  rw [readRecord_frame bytes unset enough]
  cases found : frameType bytes with
  | none => exact ⟨_,rfl⟩
  | some type =>
    dsimp only
    rw [unreadable type found]
    exact ⟨_,rfl⟩

/-- The type of a frame stands in its first 17 bytes. -/
theorem unread_append (text rest : Bytes) (enough : 17 ≤ text.length) :
    unread (text ++ rest) = unread text := by
  rw [unread,frameType,List.drop_append_of_le_length (by omega),
    List.take_append_of_le_length (by rw [List.length_drop]; omega),unread,frameType]

theorem framed_nil : Framed [] := ⟨rfl,fun i less => absurd less (Nat.not_lt_zero i)⟩

theorem framed_next (text : Bytes) (enough : 29 ≤ text.length) :
    Framed text ↔ unread text = true ∧ Framed (text.drop 29) := by
  have count : text.length / 29 = (text.drop 29).length / 29 + 1 := by
    rw [List.length_drop]
    omega
  have rest : (text.drop 29).length % 29 = text.length % 29 := by
    rw [List.length_drop]
    omega
  rw [Framed,Framed,rest,count,Nat.forall_lt_succ_left]
  simp only [Nat.mul_zero,List.drop_zero,List.drop_drop,Nat.mul_add,Nat.mul_one,Nat.add_comm 29]
  tauto

theorem silent_next (tail : Bytes) (skipped : unread tail = true) (silent : Silent (tail.drop 29)) :
    Silent tail := by
  obtain ⟨n,inside,skips,past⟩ := silent
  by_cases enough : 29 ≤ tail.length
  · refine ⟨n + 1,?_,?_,?_⟩
    · rw [List.length_drop] at inside
      omega
    · rw [Nat.forall_lt_succ_left]
      refine ⟨skipped,fun i less => ?_⟩
      have later := skips i less
      rw [List.drop_drop] at later
      rw [Nat.mul_add,Nat.mul_one,Nat.add_comm]
      exact later
    · rw [List.drop_drop] at past
      rw [Nat.mul_add,Nat.mul_one,Nat.add_comm]
      exact past
  · exact ⟨0,Nat.zero_le _,fun i less => absurd less (Nat.not_lt_zero i),.inl (Nat.lt_of_not_le enough)⟩

theorem silent_cases (tail : Bytes) (silent : Silent tail) :
    Overruns tail ∨ 29 ≤ tail.length ∧ unread tail = true ∧ Silent (tail.drop 29) := by
  obtain ⟨n,inside,skips,past⟩ := silent
  cases n with
  | zero => exact .inl past
  | succ n =>
    refine .inr ⟨by omega,skips 0 (Nat.zero_lt_succ n),n,?_,fun i less => ?_,?_⟩
    · rw [List.length_drop]
      omega
    · have later := skips (i + 1) (Nat.succ_lt_succ less)
      rw [Nat.mul_add,Nat.mul_one,Nat.add_comm] at later
      rw [List.drop_drop]
      exact later
    · rw [Nat.mul_add,Nat.mul_one,Nat.add_comm] at past
      rw [List.drop_drop]
      exact past

theorem content_cons (text : Bytes) (r : WALRecord) (rest : List (Bytes × WALRecord)) (tail : Bytes) :
    content ((text,r)::rest) tail = text ++ (r.encode ++ content rest tail) := by
  simp [content]

theorem content_drop (text : Bytes) (r : WALRecord) (rest : List (Bytes × WALRecord)) (tail : Bytes)
    (count : Nat) (inside : count ≤ text.length) :
    (content ((text,r)::rest) tail).drop count = content ((text.drop count,r)::rest) tail := by
  rw [content_cons,content_cons,List.drop_append_of_le_length inside]

section Loop

variable (unset : Nat → Nat)

theorem harmless_delivers (fuel : Nat) (blocks : List (Bytes × WALRecord)) (tail : Bytes)
    (readsBack : ∀ block ∈ blocks, ReadsBack block.2) (harmless : Harmless blocks tail)
    (list final : List WALRecord) (maxLsn last : LSN) (result : Except Error Unit)
    (ran : recoverLoop (fun list r => (.ok (),list ++ [r])) fuel
      {remaining := content blocks tail, unset := unset} list maxLsn = some (result,final,last)) :
    result = .ok () ∧ final = list ++ blocks.map fun block => delivered block.2 := by
  induction fuel generalizing blocks tail list maxLsn with
  | zero => simp [recoverLoop] at ran
  | succ fuel ih =>
    obtain ⟨framed,silent⟩ := harmless
    cases blocks with
    | nil =>
      rcases silent_cases tail silent with past | ⟨enough,skipped,later⟩
      · rw [content,List.flatMap_nil,List.nil_append,recoverLoop_ended _ tail unset fuel list maxLsn
          ((overruns_ends tail unset).mp past)] at ran
        cases ran
        simp
      · obtain ⟨e,reads⟩ := unread_skips tail unset enough skipped
        rw [content,List.flatMap_nil,List.nil_append,recoverLoop,reads] at ran
        exact ih [] (tail.drop 29) (by simp) ⟨by simp,later⟩ _ _ ran
    | cons block rest =>
      obtain ⟨text,r⟩ := block
      have others := fun block member => readsBack block (List.mem_cons_of_mem _ member)
      have texts := fun block member => framed block (List.mem_cons_of_mem _ member)
      have whole := framed (text,r) (by simp)
      by_cases enough : 29 ≤ text.length
      · obtain ⟨skipped,next⟩ := (framed_next text enough).mp whole
        rw [← unread_append text (r.encode ++ content rest tail) (by omega),← content_cons] at skipped
        obtain ⟨e,reads⟩ := unread_skips (content ((text,r)::rest) tail) unset
          (by rw [content_cons,List.length_append]; omega) skipped
        rw [recoverLoop,reads,content_drop text r rest tail 29 enough] at ran
        refine ih ((text.drop 29,r)::rest) tail ?_ ⟨?_,silent⟩ _ _ ran
        · exact List.forall_mem_cons.mpr ⟨readsBack (text,r) (by simp),others⟩
        · exact List.forall_mem_cons.mpr ⟨next,texts⟩
      · have none : text = [] := by
          apply List.length_eq_zero_iff.mp
          have divides : text.length % 29 = 0 := whole.1
          omega
        subst none
        have reads := readsBack ([],r) (by simp) (content rest tail) unset
        rw [content_cons,List.nil_append,recoverLoop,reads] at ran
        obtain ⟨fine,delivers⟩ := ih rest tail others ⟨texts,silent⟩ _ _ ran
        exact ⟨fine,by simp [delivers]⟩

/-- The first record that is delivered stands somewhere in the file. -/
theorem recoverLoop_first (fuel : Nat) (bytes : Bytes) (list rest : List WALRecord) (r : WALRecord)
    (maxLsn last : LSN) (result : Except Error Unit)
    (ran : recoverLoop (fun list r => (.ok (),list ++ [r])) fuel
      {remaining := bytes, unset := unset} list maxLsn = some (result,list ++ r::rest,last)) :
    ∃ i type data, 29 ≤ (bytes.drop i).length ∧ frameType (bytes.drop i) = some type ∧
      r = framed (bytes.drop i) type data := by
  induction fuel generalizing bytes maxLsn with
  | zero => simp [recoverLoop] at ran
  | succ fuel ih =>
    by_cases enough : 29 ≤ bytes.length
    · rw [recoverLoop] at ran
      obtain ⟨type,data,file,shown,reads,_,_⟩ | ends | ⟨⟨e,reads⟩,_⟩ :=
        readRecord_cases bytes unset enough
      · rw [reads] at ran
        have kept := recoverLoop_extends _ _ _ _ _ _ _ ran
        rw [List.prefix_append_right_inj,List.cons_prefix_cons] at kept
        exact ⟨0,type,data,enough,shown,kept.1.symm⟩
      · rw [← recoverLoop,recoverLoop_ended _ bytes unset fuel list maxLsn ends] at ran
        simp at ran
      · rw [reads] at ran
        obtain ⟨i,found⟩ := ih _ _ ran
        rw [List.drop_drop] at found
        exact ⟨29 + i,found⟩
    · rw [recoverLoop_ended _ bytes unset fuel list maxLsn
        (readRecord_short bytes unset (Nat.lt_of_not_le enough))] at ran
      simp at ran

theorem unrepeated_drop (text : Bytes) (r : WALRecord) (rest : List (Bytes × WALRecord)) (tail : Bytes)
    (inside : 29 ≤ text.length) (unrepeated : Unrepeated ((text,r)::rest) tail) :
    Unrepeated ((text.drop 29,r)::rest) tail := by
  refine ⟨fun i bound shows => ?_,unrepeated.2⟩
  rw [← content_drop text r rest tail 29 inside] at bound shows
  rw [List.length_drop] at bound
  rw [List.drop_drop] at shows
  have place := unrepeated.1 (29 + i) (by omega) shows
  rw [List.length_drop]
  omega

/-- Where no copy of a record can stand in for it, only harmless texts let recovery
deliver the records. -/
theorem delivers_harmless (fuel : Nat) (blocks : List (Bytes × WALRecord)) (tail : Bytes)
    (readsBack : ∀ block ∈ blocks, ReadsBack block.2) (unrepeated : Unrepeated blocks tail)
    (list : List WALRecord) (maxLsn last : LSN) (result : Except Error Unit)
    (ran : recoverLoop (fun list r => (.ok (),list ++ [r])) fuel
      {remaining := content blocks tail, unset := unset} list maxLsn =
        some (result,list ++ blocks.map fun block => delivered block.2,last)) :
    Harmless blocks tail := by
  induction fuel generalizing blocks tail list maxLsn with
  | zero => simp [recoverLoop] at ran
  | succ fuel ih =>
    -- nothing is delivered, so that there was no record
    have past (ends : ∃ e file, readRecord {remaining := content blocks tail, unset := unset} =
        (.error e,file) ∧ Ended file) : Harmless blocks tail := by
      rw [recoverLoop_ended _ _ unset fuel list maxLsn ends] at ran
      have none : blocks = [] := by
        simp only [Option.some.injEq,Prod.mk.injEq,List.self_eq_append_right,List.map_eq_nil_iff] at ran
        exact ran.2.1
      subst none
      rw [content,List.flatMap_nil,List.nil_append] at ends
      refine ⟨by simp,0,Nat.zero_le _,fun i less => absurd less (Nat.not_lt_zero i),?_⟩
      exact (overruns_ends tail unset).mpr ends
    by_cases enough : 29 ≤ (content blocks tail).length
    · obtain ⟨type,data,file,shown,reads,_,_⟩ | ends | ⟨⟨e,reads⟩,unreadable⟩ :=
        readRecord_cases (content blocks tail) unset enough
      · have kept := ran
        rw [recoverLoop,reads] at kept
        replace kept := recoverLoop_extends _ _ _ _ _ _ _ kept
        rw [List.prefix_append_right_inj] at kept
        cases blocks with
        | nil => simp at kept
        | cons block rest =>
          obtain ⟨text,r⟩ := block
          rw [List.map_cons,List.cons_prefix_cons] at kept
          have shows := framed_bytes _ enough type data shown r kept.1.symm
          have place := unrepeated.1 0 (by omega) shows
          have none : text = [] := List.length_eq_zero_iff.mp place.symm
          subst none
          have back := readsBack ([],r) (by simp) (content rest tail) unset
          rw [content_cons,List.nil_append,recoverLoop,back] at ran
          have later := ih rest tail (fun block member => readsBack block (List.mem_cons_of_mem _ member))
            unrepeated.2 (list ++ [delivered r]) _ (by simpa [InStream.good] using ran)
          exact ⟨List.forall_mem_cons.mpr ⟨framed_nil,later.1⟩,later.2⟩
      · exact past ends
      · have skipped := (unread_iff _).mpr unreadable
        cases blocks with
        | nil =>
          rw [recoverLoop,reads] at ran
          exact ⟨by simp,silent_next tail skipped (ih [] (tail.drop 29) (by simp) trivial list _ ran).2⟩
        | cons block rest =>
          obtain ⟨text,r⟩ := block
          have back := readsBack (text,r) (by simp)
          by_cases long : 29 ≤ text.length
          · rw [recoverLoop,reads,content_drop text r rest tail 29 long] at ran
            have later := ih ((text.drop 29,r)::rest) tail ?_
              (unrepeated_drop text r rest tail long unrepeated) list _ ran
            · obtain ⟨first,others⟩ := List.forall_mem_cons.mp later.1
              rw [content_cons,unread_append _ _ (by omega)] at skipped
              exact ⟨List.forall_mem_cons.mpr ⟨(framed_next text long).mpr ⟨skipped,first⟩,others⟩,later.2⟩
            · exact List.forall_mem_cons.mpr
                ⟨back,fun block member => readsBack block (List.mem_cons_of_mem _ member)⟩
          · exfalso
            by_cases none : text = []
            · subst none
              rw [content_cons,List.nil_append,back] at reads
              exact absurd (congrArg Prod.fst reads) (by simp)
            · -- the reader jumps over the start of the record
              rw [recoverLoop,reads] at ran
              obtain ⟨i,type,data,inside,shown,found⟩ := recoverLoop_first unset fuel _ list _ _ _ _ _ ran
              have shows := framed_bytes _ inside type data shown r found
              rw [List.drop_drop] at shows inside
              rw [List.length_drop] at inside
              have place := unrepeated.1 (29 + i) (by omega) shows
              omega
    · exact past (readRecord_short _ unset (Nat.lt_of_not_le enough))

end Loop

theorem logOperation_logged (manager : WALManager) (body jsonLine : Bytes)
    (logged : Logged manager body) :
    Logged (manager.logOperation jsonLine).2 (body ++ (jsonLine ++ [10])) ∧
      (manager.logOperation jsonLine).2.currentLsn = manager.currentLsn := by
  have line := write_logged logged jsonLine
    {manager with logFile := manager.logFile.write jsonLine} rfl rfl
  have ended := write_logged line [10]
    {manager with logFile := (manager.logFile.write jsonLine).write [10]} rfl rfl
  have returned : (manager.logOperation jsonLine).2 =
      {manager with logFile := (manager.logFile.write jsonLine).write [10]} := by
    simp [logOperation,logged.isOpen]
  rw [returned,← List.append_assoc]
  exact ⟨ended,rfl⟩

theorem run_mixed (calls : List Call) (mixed : Mixed)
    (logged : Logged mixed.manager (content mixed.blocks mixed.tail)) :
    let later := History.run step mixed calls
    Logged later.manager (content later.blocks later.tail) ∧ later.blocks.map Prod.snd =
      mixed.blocks.map Prod.snd ++ written mixed.manager.currentLsn (structured calls) := by
  induction calls generalizing mixed with
  | nil => exact ⟨logged,by simp [structured,written]⟩
  | cons call rest ih =>
    rw [History.run_cons]
    cases call with
    | operation jsonLine =>
      obtain ⟨appended,counter⟩ := logOperation_logged _ _ jsonLine logged
      have later := ih (step mixed (.operation jsonLine)) (by
        simpa only [step,content,List.append_assoc] using appended)
      simp only [step,counter] at later
      exact later
    | log clock call =>
      obtain ⟨appended,counter,_⟩ := step_logged logged clock call
      have skipped : structured (.log clock call::rest) = (clock,call)::structured rest := rfl
      rw [skipped,written]
      cases logs : record mixed.manager.currentLsn clock call with
      | none =>
        rw [logs] at appended counter
        have later := ih (step mixed (.log clock call)) (by
          simpa only [step,logs,Option.toList_none,List.flatMap_nil,List.append_nil] using appended)
        simp only [step,logs,counter] at later ⊢
        exact later
      | some r =>
        rw [logs] at appended counter
        have later := ih (step mixed (.log clock call)) (by
          simp only [step,logs]
          simpa [content] using appended)
        simp only [step,logs,counter] at later ⊢
        simpa using later

theorem opened_logged (clock : UInt64) :
    Logged (opened clock).manager (content (opened clock).blocks (opened clock).tail) :=
  create_logged clock

/-- Harmless texts do not disturb recovery, and they are the only ones, unless a text
repeats the bytes of a record and stands in for it. -/
theorem mixed_exact (clock : UInt64) (calls : List Call)
    (readable : ∀ timed ∈ structured calls, Readable timed.2) (unset : Nat → Nat) :
    (Harmless (after clock calls).blocks (after clock calls).tail → Exact clock calls unset) ∧
      (Unrepeated (after clock calls).blocks (after clock calls).tail → Exact clock calls unset →
        Harmless (after clock calls).blocks (after clock calls).tail) := by
  obtain ⟨logged,records⟩ := run_mixed calls (opened clock) (opened_logged clock)
  change Logged (after clock calls).manager _ at logged
  change (after clock calls).blocks.map Prod.snd = written 1 (structured calls) at records
  have readsBack : ∀ block ∈ (after clock calls).blocks, ReadsBack block.2 := fun block member =>
    written_readsBack 1 _ readable block.2 (records ▸ List.mem_map_of_mem member)
  have same : (written 1 (structured calls)).map delivered =
      (after clock calls).blocks.map fun block => delivered block.2 := by
    rw [← records,List.map_map]
    rfl
  obtain ⟨synced,flushed,_,_⟩ := forceSync_logged logged
  constructor
  · intro harmless
    obtain ⟨⟨result,final,manager⟩,ran⟩ := Option.isSome_iff_exists.mp (recoverFromLog_total unset
      (fun list r => ((.ok () : Except Error Unit),list ++ [r])) [] (after clock calls).manager.forceSync.2)
    obtain ⟨fuel,maxLsn,last,loop⟩ :=
      recover_behind [] (by simp) _ _ manager synced flushed unset result final ran
    obtain ⟨rfl,rfl⟩ := harmless_delivers unset fuel _ _ readsBack harmless _ _ _ _ _ loop
    rw [List.map_nil,List.nil_append,← same] at ran
    exact ⟨manager,ran⟩
  · rintro unrepeated ⟨manager,ran⟩
    obtain ⟨fuel,maxLsn,last,loop⟩ :=
      recover_behind [] (by simp) _ _ manager synced flushed unset _ _ ran
    rw [same] at loop
    exact delivers_harmless unset fuel _ _ readsBack unrepeated [] _ _ _ loop

/-- Twenty-eight letters and the end of the line make a frame. -/
def aligned : List Call :=
  [.log 5 (.begin 1),.operation (List.replicate 28 97),.log 6 (.createNode 1 7 [⟨[107],.integer 5⟩]),
    .log 7 (.commit 1),.operation [97]]

theorem mixed_exact_aligned : Exact 4 aligned (fun _ => 0) ∧
    Harmless (after 4 aligned).blocks (after 4 aligned).tail := by
  have ⟨harmless,unrepeated⟩ : Harmless (after 4 aligned).blocks (after 4 aligned).tail ∧
      Unrepeated (after 4 aligned).blocks (after 4 aligned).tail := by decide +kernel
  have both := mixed_exact 4 aligned (by decide) (fun _ => 0)
  exact ⟨both.1 harmless,both.2 unrepeated (both.1 harmless)⟩

/-- A short line hides the record behind it. -/
theorem text_spoils : ¬Exact 4 [.operation [123,125],.log 5 (.begin 1)] (fun _ => 0) := by
  rintro ⟨manager,recovered⟩
  have delivers := congrArg (Option.map fun outcome => outcome.2.1) recovered
  simp only [Option.map_some] at delivers
  exact absurd delivers (by decide +kernel)

end LoreDB.Storage.MixedLog
