import LoreDB.Library.ByteStream
import LoreDB.Storage.Record
import Mathlib.Algebra.GroupWithZero.Nat

/-! The write-ahead log: its record format, the structured log calls, recovery, and the
text lines of the older interface. Clock readings are arguments of the calls. -/
namespace LoreDB.Storage
open LoreDB.Library.ByteStream

abbrev LSN := UInt64

inductive WALRecordType where
  | beginTransaction | commitTransaction | abortTransaction
  | createNode | updateNode | deleteNode
  | createEdge | updateEdge | deleteEdge
  | checkpoint
  deriving DecidableEq, Repr

namespace WALRecordType

def code : WALRecordType → Nat
  | .beginTransaction => 1
  | .commitTransaction => 2
  | .abortTransaction => 3
  | .createNode => 4
  | .updateNode => 5
  | .deleteNode => 6
  | .createEdge => 7
  | .updateEdge => 8
  | .deleteEdge => 9
  | .checkpoint => 10

def ofCode : Nat → Option WALRecordType
  | 1 => some .beginTransaction
  | 2 => some .commitTransaction
  | 3 => some .abortTransaction
  | 4 => some .createNode
  | 5 => some .updateNode
  | 6 => some .deleteNode
  | 7 => some .createEdge
  | 8 => some .updateEdge
  | 9 => some .deleteEdge
  | 10 => some .checkpoint
  | _ => none

@[simp] theorem ofCode_code (type : WALRecordType) : ofCode type.code = some type := by
  cases type <;> rfl

theorem code_lt (type : WALRecordType) : type.code < 256 := by
  cases type <;> decide

end WALRecordType

structure WALHeader where
  magic : UInt32 := 0xDEADBEEF
  version : UInt32 := 1
  creationTime : UInt64 := 0
  lastCheckpointLsn : LSN := 0
  deriving DecidableEq, Repr

inductive WALData where
  | none
  | node (nodeId : NodeId) (properties : List Property)
  | edge (edgeId : EdgeId) (fromNode toNode : NodeId) (label : Bytes) (properties : List Property)
  | lsn (value : LSN)
  deriving DecidableEq, Repr

structure WALRecord where
  lsn : LSN
  txId : UInt64
  type : WALRecordType
  timestamp : UInt64
  dataSize : UInt32
  data : WALData
  deriving DecidableEq, Repr

namespace WALRecord

/-- The fixed part of a record: lsn, transaction id, type, timestamp and data size. -/
def baseSize : Nat := 8 + 8 + 1 + 8 + 4

/-- An estimate: 64 bytes stand for every property value. -/
def propertiesSize (properties : List Property) : Nat :=
  (properties.map fun prop => prop.key.length + 4 + (4 + 64)).sum

def getSerializedSize (data : WALData) : Nat :=
  baseSize + match data with
    | .node _ properties => 8 + propertiesSize properties
    | .edge _ _ _ label properties => 8 + 8 + 8 + 4 + label.length + propertiesSize properties
    | .lsn _ => 8
    | .none => 0

def encodeProperty (prop : Property) : Bytes :=
  let keyLen := prop.key.length % 2 ^ 32
  littleEndian 4 keyLen ++ prop.key.take keyLen ++ littleEndian 4 prop.value.index

def encodeProperties (properties : List Property) : Bytes :=
  littleEndian 4 (properties.length % 2 ^ 32) ++ properties.flatMap encodeProperty

def encodeData : WALData → Bytes
  | .node nodeId properties => littleEndian 8 nodeId.toNat ++ encodeProperties properties
  | .edge edgeId fromNode toNode label properties =>
    littleEndian 8 edgeId.toNat ++ littleEndian 8 fromNode.toNat ++ littleEndian 8 toNode.toNat ++
      littleEndian 4 (label.length % 2 ^ 32) ++ label.take (label.length % 2 ^ 32) ++
      encodeProperties properties
  | .lsn value => littleEndian 8 value.toNat
  | .none => []

/-- The bytes that `write_record` puts out, field by field. -/
def encode (record : WALRecord) : Bytes :=
  littleEndian 8 record.lsn.toNat ++ littleEndian 8 record.txId.toNat ++
    littleEndian 1 record.type.code ++ littleEndian 8 record.timestamp.toNat ++
    littleEndian 4 record.dataSize.toNat ++ encodeData record.data

end WALRecord

/-- Recovery has no reader for property values and puts this text in their place. -/
def placeholder : PropertyValue := .string [112,108,97,99,101,104,111,108,100,101,114]

def readProperties : Nat → InStream → List Property × InStream
  | 0, file => ([],file)
  | count + 1, file =>
    let (keyLen,file) := file.readNumber 4
    let (key,file) := file.readFilled keyLen
    let (_,file) := file.readNumber 4
    let (rest,file) := readProperties count file
    (⟨key,placeholder⟩::rest,file)

/-- `none` for a type without a reader. -/
def readData (type : WALRecordType) (file : InStream) : Option WALData × InStream :=
  match type with
  | .beginTransaction | .commitTransaction | .abortTransaction => (some .none,file)
  | .createNode | .updateNode =>
    let (nodeId,file) := file.readNumber 8
    let (count,file) := file.readNumber 4
    let (properties,file) := readProperties count file
    (some (.node (UInt64.ofNat nodeId) properties),file)
  | .deleteNode =>
    -- the writer put a property count here, which stays in the stream
    let (nodeId,file) := file.readNumber 8
    (some (.node (UInt64.ofNat nodeId) []),file)
  | .checkpoint =>
    let (value,file) := file.readNumber 8
    (some (.lsn (UInt64.ofNat value)),file)
  | .createEdge | .updateEdge | .deleteEdge => (none,file)

def readRecord (file : InStream) : Except Error WALRecord × InStream :=
  let (lsn,file) := file.readNumber 8
  let (txId,file) := file.readNumber 8
  let (code,file) := file.readNumber 1
  let (timestamp,file) := file.readNumber 8
  let (dataSize,file) := file.readNumber 4
  if file.fail then (.error ⟨.ioError,"Failed to read record header"⟩,file)
  else
    match WALRecordType.ofCode code with
    | none => (.error ⟨.corruption,"Unknown WAL record type"⟩,file)
    | some type =>
      match readData type file with
      | (none,file) => (.error ⟨.corruption,"Unknown WAL record type"⟩,file)
      | (some data,file) =>
        if file.fail then (.error ⟨.ioError,"Failed to read record data"⟩,file)
        else
          (.ok {lsn := UInt64.ofNat lsn, txId := UInt64.ofNat txId, type := type
                timestamp := UInt64.ofNat timestamp, dataSize := UInt32.ofNat dataSize
                data := data},file)

structure WALManager where
  logFile : FileStream := {isOpen := false}
  currentLsn : LSN := 1
  lastCheckpointLsn : LSN := 0
  header : WALHeader := {}

namespace WALManager

def encodeHeader (header : WALHeader) : Bytes :=
  littleEndian 4 header.magic.toNat ++ littleEndian 4 header.version.toNat ++
    littleEndian 8 header.creationTime.toNat ++ littleEndian 8 header.lastCheckpointLsn.toNat

def writeHeader (manager : WALManager) : Except Error Unit × WALManager :=
  let logFile := (manager.logFile.seekp 0).write (encodeHeader manager.header)
  (if logFile.fail then .error ⟨.ioError,"Failed to write header"⟩ else .ok (),
    {manager with logFile := logFile})

def decodeHeader (bytes : Bytes) : WALHeader := {
  magic := UInt32.ofNat (number (bytes.take 4))
  version := UInt32.ofNat (number ((bytes.drop 4).take 4))
  creationTime := UInt64.ofNat (number ((bytes.drop 8).take 8))
  lastCheckpointLsn := UInt64.ofNat (number ((bytes.drop 16).take 8))}

/-- The constructor on a path without a file. -/
def create (clock : UInt64) : WALManager :=
  (writeHeader {logFile := {}, header := {creationTime := clock}}).2

/-- The scan of the constructor, up to the end of the file or the first record it cannot
read. Every iteration consumes a byte, so the file's size is fuel enough. -/
def scanLoop : Nat → InStream → LSN → LSN
  | 0, _, maxLsn => maxLsn
  | fuel + 1, file, maxLsn =>
    if !file.fail && file.remaining.isEmpty then maxLsn
    else
      match readRecord file with
      | (.error _,_) => maxLsn
      | (.ok record,file) => scanLoop fuel file (max maxLsn record.lsn)

/-- The constructor on a path with a file. A short header leaves the stream failed, and a
wrong one leaves it behind the header. -/
def openExisting (unset : Nat → Nat) (disk : Bytes) : WALManager :=
  let (bytes,file) := InStream.read 24 {remaining := disk, unset := unset}
  let header := decodeHeader (bytes ++ (encodeHeader {}).drop bytes.length)
  if file.fail then
    {logFile := {disk := disk, position := disk.length, eof := file.eof, fail := true}, header := header}
  else if header.magic ≠ 0xDEADBEEF ∨ header.version ≠ 1 then
    {logFile := {disk := disk, position := 24}, header := header}
  else {
    logFile := {disk := disk, position := disk.length}
    currentLsn := scanLoop (disk.length + 1) file 0 + 1
    lastCheckpointLsn := header.lastCheckpointLsn
    header := header}

def writeRecord (record : WALRecord) (manager : WALManager) : Except Error LSN × WALManager :=
  if !manager.logFile.isOpen then (.error ⟨.ioError,"Log file not open"⟩,manager)
  else
    let logFile := manager.logFile.write record.encode
    (if logFile.fail then .error ⟨.ioError,"Write failed"⟩ else .ok record.lsn,
      {manager with logFile := logFile})

def forceSync (manager : WALManager) : Except Error Unit × WALManager :=
  if !manager.logFile.isOpen then (.error ⟨.ioError,"Log file not open"⟩,manager)
  else
    let logFile := manager.logFile.flush
    (if logFile.fail then .error ⟨.ioError,"Flush failed"⟩ else .ok (),
      {manager with logFile := logFile})

/-- Takes the next sequence number for a record and writes the record. -/
def logRecord (clock txId : UInt64) (type : WALRecordType) (data : WALData) (dataSize : UInt32)
    (manager : WALManager) : Except Error LSN × WALManager :=
  writeRecord {lsn := manager.currentLsn, txId := txId, type := type, timestamp := clock
               dataSize := dataSize, data := data}
    {manager with currentLsn := manager.currentLsn + 1}

/-- The data size of a record whose payload size is estimated. -/
def estimated (data : WALData) : UInt32 :=
  UInt32.ofNat (WALRecord.getSerializedSize data - WALRecord.baseSize)

section Calls

variable (clock txId : UInt64)

def logBeginTransaction : WALManager → Except Error LSN × WALManager :=
  logRecord clock txId .beginTransaction .none 0

def logCommitTransaction (manager : WALManager) : Except Error LSN × WALManager :=
  match logRecord clock txId .commitTransaction .none 0 manager with
  | (.ok lsn,manager) => (.ok lsn,manager.forceSync.2)
  | failed => failed

def logAbortTransaction : WALManager → Except Error LSN × WALManager :=
  logRecord clock txId .abortTransaction .none 0

def logCreateNode (nodeId : NodeId) (properties : List Property) :
    WALManager → Except Error LSN × WALManager :=
  logRecord clock txId .createNode (.node nodeId properties) (estimated (.node nodeId properties))

def logUpdateNode (nodeId : NodeId) (properties : List Property) :
    WALManager → Except Error LSN × WALManager :=
  logRecord clock txId .updateNode (.node nodeId properties) (estimated (.node nodeId properties))

def logDeleteNode (nodeId : NodeId) : WALManager → Except Error LSN × WALManager :=
  logRecord clock txId .deleteNode (.node nodeId []) 8

def logCreateEdge (edgeId : EdgeId) (fromNode toNode : NodeId) (label : Bytes)
    (properties : List Property) : WALManager → Except Error LSN × WALManager :=
  logRecord clock txId .createEdge (.edge edgeId fromNode toNode label properties)
    (estimated (.edge edgeId fromNode toNode label properties))

def logUpdateEdge (edgeId : EdgeId) (properties : List Property) :
    WALManager → Except Error LSN × WALManager :=
  logRecord clock txId .updateEdge (.edge edgeId 0 0 [] properties)
    (estimated (.edge edgeId 0 0 [] properties))

def logDeleteEdge (edgeId : EdgeId) : WALManager → Except Error LSN × WALManager :=
  logRecord clock txId .deleteEdge (.edge edgeId 0 0 [] []) 8

end Calls

def checkpoint (clock : UInt64) (manager : WALManager) : Except Error LSN × WALManager :=
  let checkpointLsn := manager.currentLsn
  match logRecord clock 0 .checkpoint (.lsn checkpointLsn) 8 manager with
  | (.ok lsn,manager) =>
    let manager := {manager with
      lastCheckpointLsn := checkpointLsn
      header := {manager.header with lastCheckpointLsn := checkpointLsn}}
    let position := manager.logFile.tellp
    let manager := {manager with logFile := manager.logFile.seekp 0}.writeHeader.2
    let manager := {manager with logFile := manager.logFile.seekp position}
    (.ok lsn,manager.forceSync.2)
  | failed => failed

def logOperation (jsonLine : Bytes) (manager : WALManager) : Except Error Unit × WALManager :=
  if !manager.logFile.isOpen then (.error ⟨.ioError,"Log file not open"⟩,manager)
  else
    let logFile := (manager.logFile.write jsonLine).write [10]
    (if logFile.fail then .error ⟨.ioError,"Write failed"⟩ else .ok (),
      {manager with logFile := logFile})

/-- The loop of `recover_from_log`, with the largest sequence number so far. `none` when
the fuel runs out. -/
def recoverLoop {α : Type} (apply : α → WALRecord → Except Error Unit × α) :
    Nat → InStream → α → LSN → Option (Except Error Unit × α × LSN)
  | 0, _, _, _ => none
  | fuel + 1, file, state, maxLsn =>
    if !file.good then some (.ok (),state,maxLsn)
    else
      match readRecord file with
      | (.error _,file) =>
        if file.eof then some (.ok (),state,maxLsn) else recoverLoop apply fuel file state maxLsn
      | (.ok record,file) =>
        match apply state record with
        | (.error e,state) => some (.error e,state,max maxLsn record.lsn)
        | (.ok (),state) => recoverLoop apply fuel file state (max maxLsn record.lsn)

/-- Reads the file through a stream of its own, from behind the header. Every iteration
but the last one consumes a byte, so the file's size is fuel enough. -/
def recoverFromLog {α : Type} (unset : Nat → Nat) (apply : α → WALRecord → Except Error Unit × α)
    (state : α) (manager : WALManager) : Option (Except Error Unit × α × WALManager) :=
  if !manager.logFile.isOpen then
    some (.error ⟨.ioError,"Cannot open log for recovery"⟩,state,manager)
  else
    match recoverLoop apply (manager.logFile.disk.length + 1)
        {remaining := manager.logFile.disk.drop 24, unset := unset} state 0 with
    | none => none
    | some (.error e,state,_) => some (.error e,state,manager)
    | some (.ok (),state,maxLsn) => some (.ok (),state,{manager with currentLsn := maxLsn + 1})

end WALManager

end LoreDB.Storage
