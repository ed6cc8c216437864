import LoreDB.Library.History
import LoreDB.Storage.WalReading

/-! What recovery delivers of the structured calls on a fresh log. -/
namespace LoreDB.Storage.WalRoundTrip
open LoreDB.Library LoreDB.Library.ByteStream WALManager

inductive LogCall where
  | begin (txId : UInt64)
  | commit (txId : UInt64)
  | abort (txId : UInt64)
  | createNode (txId : UInt64) (nodeId : NodeId) (properties : List Property)
  | updateNode (txId : UInt64) (nodeId : NodeId) (properties : List Property)
  | deleteNode (txId : UInt64) (nodeId : NodeId)
  | createEdge (txId : UInt64) (edgeId : EdgeId) (fromNode toNode : NodeId) (label : Bytes)
      (properties : List Property)
  | updateEdge (txId : UInt64) (edgeId : EdgeId) (properties : List Property)
  | deleteEdge (txId : UInt64) (edgeId : EdgeId)
  | checkpoint
  | forceSync
  deriving DecidableEq, Repr

/-- A call comes with the clock reading that it stamps its record with. -/
def step (manager : WALManager) : UInt64 × LogCall → WALManager
  | (clock,.begin txId) => (manager.logBeginTransaction clock txId).2
  | (clock,.commit txId) => (manager.logCommitTransaction clock txId).2
  | (clock,.abort txId) => (manager.logAbortTransaction clock txId).2
  | (clock,.createNode txId nodeId properties) => (manager.logCreateNode clock txId nodeId properties).2
  | (clock,.updateNode txId nodeId properties) => (manager.logUpdateNode clock txId nodeId properties).2
  | (clock,.deleteNode txId nodeId) => (manager.logDeleteNode clock txId nodeId).2
  | (clock,.createEdge txId edgeId fromNode toNode label properties) =>
    (manager.logCreateEdge clock txId edgeId fromNode toNode label properties).2
  | (clock,.updateEdge txId edgeId properties) => (manager.logUpdateEdge clock txId edgeId properties).2
  | (clock,.deleteEdge txId edgeId) => (manager.logDeleteEdge clock txId edgeId).2
  | (clock,.checkpoint) => (manager.checkpoint clock).2
  | (_,.forceSync) => manager.forceSync.2

/-- Whether the call returns a value. -/
def succeeds (manager : WALManager) : UInt64 × LogCall → Bool
  | (clock,.begin txId) => (manager.logBeginTransaction clock txId).1.isOk
  | (clock,.commit txId) => (manager.logCommitTransaction clock txId).1.isOk
  | (clock,.abort txId) => (manager.logAbortTransaction clock txId).1.isOk
  | (clock,.createNode txId nodeId properties) =>
    (manager.logCreateNode clock txId nodeId properties).1.isOk
  | (clock,.updateNode txId nodeId properties) =>
    (manager.logUpdateNode clock txId nodeId properties).1.isOk
  | (clock,.deleteNode txId nodeId) => (manager.logDeleteNode clock txId nodeId).1.isOk
  | (clock,.createEdge txId edgeId fromNode toNode label properties) =>
    (manager.logCreateEdge clock txId edgeId fromNode toNode label properties).1.isOk
  | (clock,.updateEdge txId edgeId properties) =>
    (manager.logUpdateEdge clock txId edgeId properties).1.isOk
  | (clock,.deleteEdge txId edgeId) => (manager.logDeleteEdge clock txId edgeId).1.isOk
  | (clock,.checkpoint) => (manager.checkpoint clock).1.isOk
  | (_,.forceSync) => manager.forceSync.1.isOk

def after (clock : UInt64) (calls : List (UInt64 × LogCall)) : WALManager :=
  History.run step (WALManager.create clock) calls

/-- The record that a call logs under the sequence number `lsn`. -/
def record (lsn : LSN) (clock : UInt64) : LogCall → Option WALRecord
  | .begin txId => some ⟨lsn,txId,.beginTransaction,clock,0,.none⟩
  | .commit txId => some ⟨lsn,txId,.commitTransaction,clock,0,.none⟩
  | .abort txId => some ⟨lsn,txId,.abortTransaction,clock,0,.none⟩
  | .createNode txId nodeId properties =>
    some ⟨lsn,txId,.createNode,clock,estimated (.node nodeId properties),.node nodeId properties⟩
  | .updateNode txId nodeId properties =>
    some ⟨lsn,txId,.updateNode,clock,estimated (.node nodeId properties),.node nodeId properties⟩
  | .deleteNode txId nodeId => some ⟨lsn,txId,.deleteNode,clock,8,.node nodeId []⟩
  | .createEdge txId edgeId fromNode toNode label properties =>
    some ⟨lsn,txId,.createEdge,clock,estimated (.edge edgeId fromNode toNode label properties),
      .edge edgeId fromNode toNode label properties⟩
  | .updateEdge txId edgeId properties =>
    some ⟨lsn,txId,.updateEdge,clock,estimated (.edge edgeId 0 0 [] properties),
      .edge edgeId 0 0 [] properties⟩
  | .deleteEdge txId edgeId => some ⟨lsn,txId,.deleteEdge,clock,8,.edge edgeId 0 0 [] []⟩
  | .checkpoint => some ⟨lsn,0,.checkpoint,clock,8,.lsn lsn⟩
  | .forceSync => none

/-- The records of a sequence of calls, numbered from `lsn` on. -/
def written (lsn : LSN) : List (UInt64 × LogCall) → List WALRecord
  | [] => []
  | (clock,call)::rest =>
    match record lsn clock call with
    | some r => r::written (lsn + 1) rest
    | none => written lsn rest

/-- The calls whose records recovery has a reader for. -/
def Readable : LogCall → Prop
  | .createNode _ _ properties | .updateNode _ _ properties =>
    properties.length < 2 ^ 32 ∧ ∀ prop ∈ properties, prop.key.length < 2 ^ 32
  | .deleteNode _ _ | .createEdge _ _ _ _ _ _ | .updateEdge _ _ _ | .deleteEdge _ _ => False
  | _ => True

instance : (call : LogCall) → Decidable (Readable call)
  | .createNode _ _ _ | .updateNode _ _ _ => inferInstanceAs (Decidable (_ < _ ∧ ∀ _ ∈ _, _))
  | .deleteNode _ _ | .createEdge _ _ _ _ _ _ | .updateEdge _ _ _ | .deleteEdge _ _ => .isFalse id
  | .begin _ | .commit _ | .abort _ | .checkpoint | .forceSync => .isTrue trivial

/-- A record as recovery delivers it: property values give way to the placeholder. -/
def delivered (r : WALRecord) : WALRecord :=
  match r.data with
  | .node nodeId properties =>
    {r with data := .node nodeId (properties.map fun prop => ⟨prop.key,placeholder⟩)}
  | _ => r

section Decoding

variable (rest : Bytes) (unset : Nat → Nat)

theorem word_bound (x : UInt64) : x.toNat < 256 ^ 8 := x.toNat_lt

theorem half_bound (x : UInt32) : x.toNat < 256 ^ 4 := x.toNat_lt

theorem readProperties_encode (properties : List Property)
    (keys : ∀ prop ∈ properties, prop.key.length < 2 ^ 32) :
    readProperties properties.length
        {remaining := properties.flatMap WALRecord.encodeProperty ++ rest, unset := unset} =
      (properties.map fun prop => ⟨prop.key,placeholder⟩,{remaining := rest, unset := unset}) := by
  induction properties with
  | nil => rfl
  | cons prop properties ih =>
    have short : prop.key.length < 2 ^ 32 := keys prop (by simp)
    have index : prop.value.index < 256 ^ 4 := by
      cases prop.value <;> simp [PropertyValue.index]
    have later := ih (fun other member => keys other (by simp [member]))
    simp only [List.length_cons,List.flatMap_cons,List.map_cons,readProperties,
      WALRecord.encodeProperty,Nat.mod_eq_of_lt short,List.take_length,List.append_assoc]
    rw [readNumber_littleEndian _ _ 4 prop.key.length (by simpa using short)]
    simp only
    rw [readFilled_exact]
    simp only
    rw [readNumber_littleEndian _ _ 4 prop.value.index index]
    simp only
    rw [later]

theorem readNode_encode (nodeId : NodeId) (properties : List Property)
    (short : properties.length < 2 ^ 32) (keys : ∀ prop ∈ properties, prop.key.length < 2 ^ 32)
    (type : WALRecordType) (node : type = .createNode ∨ type = .updateNode) :
    readData type
        {remaining := WALRecord.encodeData (.node nodeId properties) ++ rest, unset := unset} =
      (some (.node nodeId (properties.map fun prop => ⟨prop.key,placeholder⟩)),
        {remaining := rest, unset := unset}) := by
  have bytes : WALRecord.encodeData (.node nodeId properties) ++ rest =
      littleEndian 8 nodeId.toNat ++ (littleEndian 4 properties.length ++
        (properties.flatMap WALRecord.encodeProperty ++ rest)) := by
    simp only [WALRecord.encodeData,WALRecord.encodeProperties,Nat.mod_eq_of_lt short,List.append_assoc]
  rw [bytes]
  rcases node with rfl | rfl
  all_goals
    rw [readData,readNumber_littleEndian _ _ 8 _ (word_bound nodeId)]
    simp only
    rw [readNumber_littleEndian _ _ 4 _ (by simpa using short)]
    simp only
    rw [readProperties_encode rest unset properties keys]
    simp

/-- The fixed part is read back field by field, and the payload is left to its reader. -/
theorem readRecord_header (r : WALRecord) (data : WALData)
    (payload : readData r.type {remaining := WALRecord.encodeData r.data ++ rest, unset := unset} =
      (some data,{remaining := rest, unset := unset})) :
    readRecord {remaining := r.encode ++ rest, unset := unset} =
      (.ok {r with data := data},{remaining := rest, unset := unset}) := by
  have bytes : r.encode ++ rest = littleEndian 8 r.lsn.toNat ++ (littleEndian 8 r.txId.toNat ++
      (littleEndian 1 r.type.code ++ (littleEndian 8 r.timestamp.toNat ++
        (littleEndian 4 r.dataSize.toNat ++ (WALRecord.encodeData r.data ++ rest))))) := by
    simp [WALRecord.encode]
  have code : r.type.code < 256 ^ 1 := r.type.code_lt
  rw [bytes,readRecord,readNumber_littleEndian _ _ 8 _ (word_bound _)]
  simp only
  rw [readNumber_littleEndian _ _ 8 _ (word_bound _)]
  simp only
  rw [readNumber_littleEndian _ _ 1 _ code]
  simp only
  rw [readNumber_littleEndian _ _ 8 _ (word_bound _)]
  simp only
  rw [readNumber_littleEndian _ _ 4 _ (half_bound _)]
  simp only [WALRecordType.ofCode_code,Bool.false_eq_true,if_false]
  rw [payload]
  simp

/-- Recovery reads back the record of a readable call, up to its property values. -/
theorem readRecord_encode (lsn : LSN) (clock : UInt64) (call : LogCall) (readable : Readable call)
    (r : WALRecord) (logged : record lsn clock call = some r) :
    readRecord {remaining := r.encode ++ rest, unset := unset} =
      (.ok (delivered r),{remaining := rest, unset := unset}) := by
  cases call with
  | begin txId =>
    cases logged
    exact readRecord_header rest unset _ .none rfl
  | commit txId =>
    cases logged
    exact readRecord_header rest unset _ .none rfl
  | abort txId =>
    cases logged
    exact readRecord_header rest unset _ .none rfl
  | createNode txId nodeId properties =>
    cases logged
    exact readRecord_header rest unset _ _
      (readNode_encode rest unset nodeId properties readable.1 readable.2 _ (.inl rfl))
  | updateNode txId nodeId properties =>
    cases logged
    exact readRecord_header rest unset _ _
      (readNode_encode rest unset nodeId properties readable.1 readable.2 _ (.inr rfl))
  | checkpoint =>
    cases logged
    apply readRecord_header rest unset _ (.lsn lsn)
    rw [readData,WALRecord.encodeData,readNumber_littleEndian _ _ 8 _ (word_bound lsn)]
    simp
  | deleteNode txId nodeId => exact readable.elim
  | createEdge txId edgeId fromNode toNode label properties => exact readable.elim
  | updateEdge txId edgeId properties => exact readable.elim
  | deleteEdge txId edgeId => exact readable.elim
  | forceSync => cases logged

end Decoding

def Genuine (header : WALHeader) : Prop := header.magic = 0xDEADBEEF ∧ header.version = 1

/-- The log stream works and stands behind a header and these bytes. -/
structure Logged (manager : WALManager) (body : Bytes) : Prop where
  isOpen : manager.logFile.isOpen = true
  good : manager.logFile.good = true
  inside : manager.logFile.position ≤ manager.logFile.disk.length
  atEnd : manager.logFile.AtEnd
  genuine : Genuine manager.header
  content : ∃ header : WALHeader, Genuine header ∧
    manager.logFile.content = encodeHeader header ++ body

@[simp] theorem encodeHeader_length (header : WALHeader) : (encodeHeader header).length = 24 := by
  simp only [encodeHeader,List.length_append,littleEndian_length]

theorem writeHeader_fresh (header : WALHeader) :
    (writeHeader {logFile := {}, header := header}).2 =
      {logFile := {buffer := encodeHeader header}, header := header} := by
  have seek : ({} : FileStream).seekp 0 = {} := rfl
  simp only [writeHeader,seek]
  generalize encodeHeader header = bytes
  rfl

theorem fresh_logged (header : WALHeader) (genuine : Genuine header) :
    Logged {logFile := {buffer := encodeHeader header}, header := header} [] where
  isOpen := rfl
  good := rfl
  inside := Nat.le_refl 0
  atEnd := Nat.zero_le _
  genuine := genuine
  content := ⟨header,genuine,by simp [FileStream.content,FileStream.commit,overwrite]⟩

theorem create_logged (clock : UInt64) : Logged (WALManager.create clock) [] := by
  have created := writeHeader_fresh {creationTime := clock}
  have fresh := fresh_logged {creationTime := clock} ⟨rfl,rfl⟩
  rw [← created] at fresh
  exact fresh

section Logging

variable {manager : WALManager} {body : Bytes} (logged : Logged manager body)
include logged

theorem write_logged (bytes : Bytes) (next : WALManager) (header : next.header = manager.header)
    (wrote : next.logFile = manager.logFile.write bytes) : Logged next (body ++ bytes) := by
  obtain ⟨isOpen,good,inside,atEnd,genuine,kept,genuineKept,content⟩ := logged
  have appended := FileStream.write_content manager.logFile bytes good atEnd
  have stream := FileStream.write_good manager.logFile bytes good
  constructor
  · rw [wrote,stream]
    exact isOpen
  · rw [wrote,stream]
    exact good
  · rw [wrote,stream]
    exact inside
  · rw [wrote]
    exact appended.2
  · rw [header]
    exact genuine
  · exact ⟨kept,genuineKept,by simp [wrote,appended.1,content]⟩

theorem writeRecord_logged (r : WALRecord) :
    ∃ next, writeRecord r manager = (.ok r.lsn,next) ∧ Logged next (body ++ r.encode) ∧
      next.currentLsn = manager.currentLsn := by
  have noFail := ((FileStream.good_flags _).mp logged.good).2
  have stream := FileStream.write_good manager.logFile r.encode logged.good
  have returned : writeRecord r manager =
      (.ok r.lsn,{manager with logFile := manager.logFile.write r.encode}) := by
    simp only [writeRecord,logged.isOpen,stream,noFail]
    rfl
  exact ⟨_,returned,write_logged logged r.encode _ rfl rfl,rfl⟩

theorem recount_logged (lsn : LSN) : Logged {manager with currentLsn := lsn} body := {logged with}

theorem logRecord_logged (clock txId : UInt64) (type : WALRecordType) (data : WALData)
    (dataSize : UInt32) :
    ∃ next, logRecord clock txId type data dataSize manager = (.ok manager.currentLsn,next) ∧
      Logged next (body ++ WALRecord.encode ⟨manager.currentLsn,txId,type,clock,dataSize,data⟩) ∧
      next.currentLsn = manager.currentLsn + 1 :=
  writeRecord_logged (recount_logged logged (manager.currentLsn + 1))
    ⟨manager.currentLsn,txId,type,clock,dataSize,data⟩

theorem forceSync_logged : Logged manager.forceSync.2 body ∧
    manager.forceSync.2.logFile.buffer = [] ∧ manager.forceSync.2.currentLsn = manager.currentLsn ∧
    manager.forceSync.1 = .ok () := by
  obtain ⟨isOpen,good,inside,atEnd,genuine,header,kept,content⟩ := logged
  have noFail := ((FileStream.good_flags _).mp good).2
  have synced : manager.forceSync = (.ok (),{manager with logFile := manager.logFile.commit}) := by
    simp only [forceSync,isOpen,FileStream.flush,good,FileStream.commit,noFail]
    rfl
  have committed := FileStream.commit_content manager.logFile atEnd
  rw [synced]
  refine ⟨⟨isOpen,good,?_,committed.2,genuine,header,kept,committed.1.trans content⟩,rfl,rfl,rfl⟩
  simp only [FileStream.commit_eq _ atEnd,Nat.le_refl]

theorem reheader_logged (next : WALManager) (genuine : Genuine next.header)
    (moved : next.logFile = ((manager.logFile.seekp 0).write (encodeHeader next.header)).seekp
      manager.logFile.tellp) : Logged next body := by
  obtain ⟨isOpen,good,_,atEnd,_,old,_,content⟩ := logged
  have length := FileStream.content_length manager.logFile atEnd
  rw [content,List.length_append,encodeHeader_length,← encodeHeader_length next.header,
    ← List.length_append] at length
  have stream := FileStream.rewrite_start manager.logFile good atEnd (encodeHeader old)
    (encodeHeader next.header) _ content (by simp only [encodeHeader_length])
  rw [← moved] at stream
  constructor
  · rw [stream]
    exact isOpen
  · rw [stream]
    exact good
  · rw [stream]
    exact Nat.le_of_eq length.symm
  · rw [stream]
    exact Nat.le_of_eq length
  · exact genuine
  · refine ⟨next.header,genuine,?_⟩
    rw [stream,FileStream.content_empty _ rfl (Nat.le_of_eq length) (Nat.le_of_eq length.symm)]

theorem checkpoint_logged (clock : UInt64) :
    Logged (manager.checkpoint clock).2 (body ++
        WALRecord.encode ⟨manager.currentLsn,0,.checkpoint,clock,8,.lsn manager.currentLsn⟩) ∧
      (manager.checkpoint clock).2.logFile.buffer = [] ∧
      (manager.checkpoint clock).2.currentLsn = manager.currentLsn + 1 ∧
      (manager.checkpoint clock).1 = .ok manager.currentLsn := by
  obtain ⟨next,returned,appended,counted⟩ :=
    logRecord_logged logged clock 0 .checkpoint (.lsn manager.currentLsn) 8
  simp only [checkpoint,returned,writeHeader,FileStream.seekp_start]
  rw [← counted]
  obtain ⟨kept,empty,lsn,_⟩ := forceSync_logged (reheader_logged appended
    {next with
      logFile := ((next.logFile.seekp 0).write
        (encodeHeader {next.header with lastCheckpointLsn := manager.currentLsn})).seekp next.logFile.tellp
      lastCheckpointLsn := manager.currentLsn
      header := {next.header with lastCheckpointLsn := manager.currentLsn}} appended.genuine rfl)
  exact ⟨kept,empty,lsn,trivial⟩

theorem commit_logged (clock txId : UInt64) :
    Logged (manager.logCommitTransaction clock txId).2 (body ++
        WALRecord.encode ⟨manager.currentLsn,txId,.commitTransaction,clock,0,.none⟩) ∧
      (manager.logCommitTransaction clock txId).2.logFile.buffer = [] ∧
      (manager.logCommitTransaction clock txId).2.currentLsn = manager.currentLsn + 1 ∧
      (manager.logCommitTransaction clock txId).1 = .ok manager.currentLsn := by
  obtain ⟨next,returned,appended,counted⟩ := logRecord_logged logged clock txId .commitTransaction .none 0
  simp only [logCommitTransaction,returned]
  rw [← counted]
  obtain ⟨kept,empty,lsn,_⟩ := forceSync_logged appended
  exact ⟨kept,empty,lsn,trivial⟩

/-- Every call succeeds and appends its record, and takes one sequence number with it. -/
theorem step_logged (clock : UInt64) (call : LogCall) :
    Logged (step manager (clock,call))
        (body ++ (record manager.currentLsn clock call).toList.flatMap WALRecord.encode) ∧
      (step manager (clock,call)).currentLsn =
        (if (record manager.currentLsn clock call).isSome then manager.currentLsn + 1
        else manager.currentLsn) ∧
      succeeds manager (clock,call) = true := by
  have simple (txId : UInt64) (type : WALRecordType) (data : WALData) (dataSize : UInt32) :
      Logged (logRecord clock txId type data dataSize manager).2 (body ++
          [WALRecord.mk manager.currentLsn txId type clock dataSize data].flatMap WALRecord.encode) ∧
        (logRecord clock txId type data dataSize manager).2.currentLsn = manager.currentLsn + 1 ∧
        (logRecord clock txId type data dataSize manager).1.isOk = true := by
    obtain ⟨next,returned,appended,counted⟩ := logRecord_logged logged clock txId type data dataSize
    rw [returned,List.flatMap_singleton]
    exact ⟨appended,counted,rfl⟩
  cases call with
  | begin txId => exact simple txId .beginTransaction .none 0
  | commit txId =>
    obtain ⟨appended,_,counted,returned⟩ := commit_logged logged clock txId
    rw [record,Option.toList_some,List.flatMap_singleton]
    exact ⟨appended,counted,by rw [succeeds,returned]; rfl⟩
  | abort txId => exact simple txId .abortTransaction .none 0
  | createNode txId nodeId properties => exact simple txId .createNode _ _
  | updateNode txId nodeId properties => exact simple txId .updateNode _ _
  | deleteNode txId nodeId => exact simple txId .deleteNode _ _
  | createEdge txId edgeId fromNode toNode label properties => exact simple txId .createEdge _ _
  | updateEdge txId edgeId properties => exact simple txId .updateEdge _ _
  | deleteEdge txId edgeId => exact simple txId .deleteEdge _ _
  | checkpoint =>
    obtain ⟨appended,_,counted,returned⟩ := checkpoint_logged logged clock
    rw [record,Option.toList_some,List.flatMap_singleton]
    exact ⟨appended,counted,by rw [succeeds,returned]; rfl⟩
  | forceSync =>
    obtain ⟨kept,_,counted,returned⟩ := forceSync_logged logged
    rw [record,Option.toList_none,List.flatMap_nil,List.append_nil]
    exact ⟨kept,counted,by rw [succeeds,returned]; rfl⟩

end Logging

theorem run_logged (calls : List (UInt64 × LogCall)) (manager : WALManager) (body : Bytes)
    (logged : Logged manager body) :
    Logged (History.run step manager calls)
        (body ++ (written manager.currentLsn calls).flatMap WALRecord.encode) ∧
      History.Guarded step (fun manager timed => succeeds manager timed = true) manager calls := by
  induction calls generalizing manager body with
  | nil => exact ⟨by simpa [written] using logged,trivial⟩
  | cons timed rest ih =>
    obtain ⟨clock,call⟩ := timed
    obtain ⟨appended,counted,returned⟩ := step_logged logged clock call
    obtain ⟨later,others⟩ := ih _ _ appended
    rw [counted] at later
    refine ⟨?_,returned,others⟩
    rw [History.run_cons,written]
    cases logs : record manager.currentLsn clock call with
    | none => simpa [logs] using later
    | some r => simpa [logs] using later

theorem encode_length (r : WALRecord) : 29 ≤ r.encode.length := by
  simp only [WALRecord.encode,List.length_append,littleEndian_length]
  omega

theorem records_length (records : List WALRecord) :
    records.length ≤ (records.flatMap WALRecord.encode).length := by
  induction records with
  | nil => exact Nat.le_refl 0
  | cons r records ih =>
    have size := encode_length r
    simp only [List.flatMap_cons,List.length_append,List.length_cons]
    omega

/-- The reader reads the record back wherever it stands in a file. -/
def ReadsBack (r : WALRecord) : Prop :=
  ∀ (rest : Bytes) (unset : Nat → Nat), readRecord {remaining := r.encode ++ rest, unset := unset} =
    (.ok (delivered r),{remaining := rest, unset := unset})

theorem written_readsBack (lsn : LSN) (calls : List (UInt64 × LogCall))
    (readable : ∀ timed ∈ calls, Readable timed.2) : ∀ r ∈ written lsn calls, ReadsBack r := by
  induction calls generalizing lsn with
  | nil => simp [written]
  | cons timed rest ih =>
    obtain ⟨clock,call⟩ := timed
    have others := fun timed member => readable timed (List.mem_cons_of_mem _ member)
    rw [written]
    cases logs : record lsn clock call with
    | none => exact ih lsn others
    | some first =>
      intro r member
      rcases List.mem_cons.mp member with rfl | inside
      · exact fun rest unset =>
          readRecord_encode rest unset lsn clock call (readable (clock,call) (by simp)) r logs
      · exact ih (lsn + 1) others r inside

@[simp] theorem delivered_lsn (r : WALRecord) : (delivered r).lsn = r.lsn := by
  unfold delivered
  split <;> rfl

section Loops

variable (records : List WALRecord) (readsBack : ∀ r ∈ records, ReadsBack r) (tail : Bytes)
  (unset : Nat → Nat) (fuel : Nat) (maxLsn : LSN)
include readsBack

/-- The recovery loop hands over the records one by one and then stands behind them. -/
theorem recoverLoop_records {α : Type} (deliver : α → WALRecord → α) (state : α) :
    recoverLoop (fun state r => (.ok (),deliver state r)) (records.length + fuel)
        {remaining := records.flatMap WALRecord.encode ++ tail, unset := unset} state maxLsn =
      recoverLoop (fun state r => (.ok (),deliver state r)) fuel {remaining := tail, unset := unset}
        ((records.map delivered).foldl deliver state) ((records.map WALRecord.lsn).foldl max maxLsn) := by
  induction records generalizing state maxLsn with
  | nil => simp
  | cons r records ih =>
    have later := ih (fun other member => readsBack other (List.mem_cons_of_mem _ member))
    have reads := readsBack r (by simp) (records.flatMap WALRecord.encode ++ tail) unset
    have count : (r::records).length + fuel = (records.length + fuel) + 1 := by
      simp only [List.length_cons]
      omega
    rw [count,recoverLoop,List.flatMap_cons,List.append_assoc,reads]
    simp only [InStream.good,delivered_lsn]
    exact later _ _

theorem scanLoop_records :
    scanLoop (records.length + fuel)
        {remaining := records.flatMap WALRecord.encode ++ tail, unset := unset} maxLsn =
      scanLoop fuel {remaining := tail, unset := unset} ((records.map WALRecord.lsn).foldl max maxLsn) := by
  induction records generalizing maxLsn with
  | nil => simp
  | cons r records ih =>
    have later := ih (fun other member => readsBack other (List.mem_cons_of_mem _ member))
    have reads := readsBack r (by simp) (records.flatMap WALRecord.encode ++ tail) unset
    have count : (r::records).length + fuel = (records.length + fuel) + 1 := by
      simp only [List.length_cons]
      omega
    have remains : (r.encode ++ (records.flatMap WALRecord.encode ++ tail)).isEmpty = false := by
      have size := encode_length r
      cases bytes : r.encode with
      | nil => simp [bytes] at size
      | cons b rest => rfl
    rw [count,scanLoop,List.flatMap_cons,List.append_assoc,reads]
    simp only [remains,delivered_lsn]
    exact later _

end Loops

theorem recoverLoop_ended {α : Type} (apply : α → WALRecord → Except Error Unit × α) (tail : Bytes)
    (unset : Nat → Nat) (fuel : Nat) (state : α) (maxLsn : LSN)
    (ends : ∃ e file, readRecord {remaining := tail, unset := unset} = (.error e,file) ∧ Ended file) :
    recoverLoop apply (fuel + 1) {remaining := tail, unset := unset} state maxLsn =
      some (.ok (),state,maxLsn) := by
  obtain ⟨e,file,reads,eof,_⟩ := ends
  simp [recoverLoop,InStream.good,reads,eof]

def largest (records : List WALRecord) : LSN := (records.map WALRecord.lsn).foldl max 0

/-- Recovery of a file with these records and an unreadable rest delivers the records. -/
theorem recover_records {α : Type} (records : List WALRecord) (readsBack : ∀ r ∈ records, ReadsBack r)
    (rest : Bytes) (unset : Nat → Nat)
    (ends : ∃ e file, readRecord {remaining := rest, unset := unset} = (.error e,file) ∧ Ended file)
    (manager : WALManager) (logged : Logged manager (records.flatMap WALRecord.encode ++ rest))
    (flushed : manager.logFile.buffer = []) (deliver : α → WALRecord → α) (state : α) :
    manager.recoverFromLog unset (fun state r => (.ok (),deliver state r)) state =
      some (.ok (),(records.map delivered).foldl deliver state,
        {manager with currentLsn := largest records + 1}) := by
  obtain ⟨isOpen,_,inside,atEnd,_,header,_,content⟩ := logged
  rw [FileStream.content_empty _ flushed atEnd inside] at content
  have bodies : manager.logFile.disk.drop 24 = records.flatMap WALRecord.encode ++ rest := by
    rw [content,← encodeHeader_length header,List.drop_left]
  have bound := records_length records
  obtain ⟨fuel,enough⟩ : ∃ fuel, manager.logFile.disk.length + 1 = records.length + (fuel + 1) := by
    refine ⟨manager.logFile.disk.length - records.length,?_⟩
    rw [content,List.length_append,List.length_append]
    omega
  have loop := recoverLoop_records records readsBack rest unset (fuel + 1) 0 deliver state
  rw [recoverLoop_ended _ rest unset fuel _ _ ends] at loop
  rw [recoverFromLog,isOpen,bodies,enough,loop]
  rfl

/-- Recovery from a flushed log delivers the records of all calls in order, with the
placeholder for each property value. Readable are the begin, commit, abort, checkpoint,
create-node and update-node calls. -/
theorem recover_delivers {α : Type} (clock : UInt64) (calls : List (UInt64 × LogCall))
    (readable : ∀ timed ∈ calls, Readable timed.2)
    (flushed : (after clock calls).logFile.buffer = []) (unset : Nat → Nat)
    (deliver : α → WALRecord → α) (state : α) :
    ∃ manager, (after clock calls).recoverFromLog unset (fun state r => (.ok (),deliver state r))
      state = some (.ok (),((written 1 calls).map delivered).foldl deliver state,manager) := by
  have logged := (run_logged calls _ [] (create_logged clock)).1
  rw [List.nil_append,← List.append_nil (List.flatMap _ _)] at logged
  exact ⟨_,recover_records _ (written_readsBack 1 calls readable) [] unset
    (WalReading.readRecord_short [] unset (by decide)) _ logged flushed deliver state⟩

/-- Recovery delivers exactly the logged records. -/
def Exact (calls : List (UInt64 × LogCall)) : Prop :=
  ((after 0 calls).recoverFromLog (fun _ => 0) (fun records r => (.ok (),records ++ [r])) []).map
    (fun recovered => recovered.2.1) = some (written 1 calls)

instance (calls : List (UInt64 × LogCall)) : Decidable (Exact calls) :=
  inferInstanceAs (Decidable (_ = _))

/-- A property value gives way to the placeholder, an edge record has no reader, the
property count of a deleted node stays in the stream, and a record that only waits in
the buffer is not in the file yet. -/
theorem recovery_inexact :
    ¬Exact [(0,.createNode 1 7 [⟨[107],.integer 5⟩]),(0,.commit 1)] ∧
      ¬Exact [(0,.createEdge 1 3 7 8 [108] []),(0,.commit 1)] ∧
      ¬Exact [(0,.deleteNode 1 7),(0,.commit 1)] ∧ ¬Exact [(0,.begin 1)] := by
  refine ⟨?_,?_,?_,?_⟩ <;> decide +kernel

def committedNode : List (UInt64 × LogCall) :=
  [(5,.begin 1),(6,.createNode 1 7 [⟨[107],.integer 5⟩]),(6,.checkpoint),(7,.commit 1)]

theorem recover_delivers_committed :
    ∃ manager, (after 4 committedNode).recoverFromLog (fun _ => 0)
        (fun records r => (.ok (),records ++ [r])) [] =
      some (.ok (),((written 1 committedNode).map delivered).foldl
        (fun records r => records ++ [r]) [],manager) :=
  recover_delivers 4 committedNode (by decide) (by decide +kernel)
    (fun _ => 0) (fun records r => records ++ [r]) []

end LoreDB.Storage.WalRoundTrip
