import LoreDB.Util.Varint

/-! Property values, properties, and the bytes of node and edge records on their pages. -/
namespace LoreDB.Storage
open LoreDB.Library.ByteStream LoreDB.Util

/-- A `double` is kept as its 8-byte pattern. -/
inductive PropertyValue where
  | string (text : Bytes)
  | integer (value : Int64)
  | float (bits : UInt64)
  | boolean (value : Bool)
  | bytes (content : Bytes)
  deriving DecidableEq, Repr

/-- The position of the value's type in the variant. -/
def PropertyValue.index : PropertyValue → Nat
  | .string _ => 0
  | .integer _ => 1
  | .float _ => 2
  | .boolean _ => 3
  | .bytes _ => 4

structure Property where
  key : Bytes
  value : PropertyValue
  deriving DecidableEq, Repr

namespace RecordSerializer

def writeVarint (value : UInt64) : Bytes := (VarInt.encode value 10).getD []

def writeString (text : Bytes) : Bytes := writeVarint (UInt64.ofNat text.length) ++ text

def writePropertyValue : PropertyValue → Bytes
  | .string text => 0::writeString text
  | .integer value => 1::writeVarint (ZigZag.encode value)
  | .float bits => 2::littleEndian 8 bits.toNat
  | .boolean value => [3,if value then 1 else 0]
  | .bytes content => 4::writeString content

def serializeProperties (properties : List Property) : Bytes :=
  writeVarint (UInt64.ofNat properties.length) ++
    properties.flatMap fun prop => writeString prop.key ++ writePropertyValue prop.value

/-- The text of a string or the content of a byte array, behind its length. -/
def readCounted (missing : String) (data : Bytes) : Except Error (Bytes × Bytes) :=
  match VarInt.decode data with
  | .error e => .error e
  | .ok (len,data) =>
    if data.length < len.toNat then .error ⟨.corruption,missing⟩
    else .ok (data.take len.toNat,data.drop len.toNat)

def readString : Bytes → Except Error (Bytes × Bytes) := readCounted "Insufficient data for string"

def readPropertyValue (type : UInt8) (data : Bytes) : Except Error (PropertyValue × Bytes) :=
  match type.toNat with
  | 0 => (readString data).map fun (text,data) => (.string text,data)
  | 1 => (VarInt.decode data).map fun (value,data) => (.integer (ZigZag.decode value),data)
  | 2 =>
    if data.length < 8 then .error ⟨.corruption,"Insufficient data for float"⟩
    else .ok (.float (UInt64.ofNat (number (data.take 8))),data.drop 8)
  | 3 =>
    match data with
    | [] => .error ⟨.corruption,"Insufficient data for boolean"⟩
    | value::data => .ok (.boolean (value != 0),data)
  | 4 => (readCounted "Insufficient data for bytes" data).map fun (content,data) => (.bytes content,data)
  | _ => .error ⟨.corruption,"Unknown property type"⟩

def readProperties : Nat → Bytes → Except Error (List Property)
  | 0, _ => .ok []
  | count + 1, data =>
    match readString data with
    | .error e => .error e
    | .ok (_,[]) => .error ⟨.corruption,"Unexpected end of data"⟩
    | .ok (key,type::data) =>
      match readPropertyValue type data with
      | .error e => .error e
      | .ok (value,data) => (readProperties count data).map fun rest => ⟨key,value⟩::rest

def deserializeProperties (data : Bytes) : Except Error (List Property) :=
  match VarInt.decode data with
  | .error e => .error e
  | .ok (count,data) => readProperties count.toNat data

/-- The 48 bytes of the record in memory. -/
def nodeBytes (node : NodeRecord) : Bytes :=
  littleEndian 8 node.id.toNat ++ littleEndian 4 node.labelCount.toNat ++
    littleEndian 4 node.propertyCount.toNat ++ littleEndian 4 node.inDegree.toNat ++
    littleEndian 4 node.outDegree.toNat ++ littleEndian 8 node.propertyOffset.toNat ++
    littleEndian 8 node.inEdgesOffset.toNat ++ littleEndian 8 node.outEdgesOffset.toNat

def edgeBytes (edge : EdgeRecord) : Bytes :=
  littleEndian 8 edge.id.toNat ++ littleEndian 8 edge.fromNode.toNat ++
    littleEndian 8 edge.toNode.toNat ++ littleEndian 4 edge.labelId.toNat ++
    littleEndian 4 edge.propertyCount.toNat ++ littleEndian 8 edge.propertyOffset.toNat ++
    littleEndian 8 edge.timestamp.toNat

/-- The number in the `width` bytes from `offset` on. -/
def field (data : Bytes) (offset width : Nat) : Nat := number ((data.drop offset).take width)

def nodeOfBytes (data : Bytes) : NodeRecord where
  id := UInt64.ofNat (field data 0 8)
  labelCount := UInt32.ofNat (field data 8 4)
  propertyCount := UInt32.ofNat (field data 12 4)
  inDegree := UInt32.ofNat (field data 16 4)
  outDegree := UInt32.ofNat (field data 20 4)
  propertyOffset := UInt64.ofNat (field data 24 8)
  inEdgesOffset := UInt64.ofNat (field data 32 8)
  outEdgesOffset := UInt64.ofNat (field data 40 8)

def edgeOfBytes (data : Bytes) : EdgeRecord where
  id := UInt64.ofNat (field data 0 8)
  fromNode := UInt64.ofNat (field data 8 8)
  toNode := UInt64.ofNat (field data 16 8)
  labelId := UInt32.ofNat (field data 24 4)
  propertyCount := UInt32.ofNat (field data 28 4)
  propertyOffset := UInt64.ofNat (field data 32 8)
  timestamp := UInt64.ofNat (field data 40 8)

def serializeNode (node : NodeRecord) (properties : List Property) : Bytes :=
  nodeBytes node ++ serializeProperties properties

def serializeEdge (edge : EdgeRecord) (properties : List Property) : Bytes :=
  edgeBytes edge ++ serializeProperties properties

def deserializeNode (data : Bytes) : Except Error (NodeRecord × List Property) :=
  if data.length < 48 then .error ⟨.corruption,"Insufficient data for node record"⟩
  else (deserializeProperties (data.drop 48)).map fun properties => (nodeOfBytes data,properties)

def deserializeEdge (data : Bytes) : Except Error (EdgeRecord × List Property) :=
  if data.length < 48 then .error ⟨.corruption,"Insufficient data for edge record"⟩
  else (deserializeProperties (data.drop 48)).map fun properties => (edgeOfBytes data,properties)

end RecordSerializer

end LoreDB.Storage
