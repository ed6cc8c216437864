import LoreDB.Storage.Record

/-! Records are read back from their bytes, whatever stands behind them on the page. A
length is a 64-bit number, so no container may have `2 ^ 64` elements or more. -/
namespace LoreDB.Storage.RecordSerializer
open LoreDB.Library.ByteStream LoreDB.Util

theorem decode_writeVarint (value : UInt64) (rest : Bytes) :
    VarInt.decode (writeVarint value ++ rest) = .ok (value,rest) := by
  obtain ⟨bytes,encodes,decodes⟩ := VarInt.decode_encode value rest
  rw [writeVarint,encodes]
  exact decodes

theorem writeVarint_length (value : UInt64) : 0 < (writeVarint value).length := by
  obtain ⟨bytes,encodes,_⟩ := VarInt.decode_encode value []
  rw [writeVarint,encodes]
  exact VarInt.encode_length value 10 bytes encodes

theorem writeString_length (text : Bytes) : text.length < (writeString text).length := by
  have length := writeVarint_length (UInt64.ofNat text.length)
  rw [writeString,List.length_append]
  omega

theorem readCounted_written (missing : String) (text rest : Bytes) (short : text.length < 2 ^ 64) :
    readCounted missing (writeString text ++ rest) = .ok (text,rest) := by
  have count : (UInt64.ofNat text.length).toNat = text.length := by
    rw [UInt64.toNat_ofNat']
    exact Nat.mod_eq_of_lt short
  rw [readCounted,writeString,List.append_assoc,decode_writeVarint]
  simp [count]

/-- The sizes that the containers of a value and of a list of properties can have. -/
def PropertySized : PropertyValue → Prop
  | .string text => text.length < 2 ^ 64
  | .bytes content => content.length < 2 ^ 64
  | _ => True

def Sized (properties : List Property) : Prop :=
  properties.length < 2 ^ 64 ∧
    ∀ prop ∈ properties, prop.key.length < 2 ^ 64 ∧ PropertySized prop.value

instance : (value : PropertyValue) → Decidable (PropertySized value)
  | .string _ | .bytes _ => Nat.decLt _ _
  | .integer _ | .float _ | .boolean _ => .isTrue trivial

instance (properties : List Property) : Decidable (Sized properties) :=
  @instDecidableAnd _ _ (Nat.decLt _ _) (List.decidableBAll _ _)

/-- A value is written as the byte of its type and a payload. -/
theorem readPropertyValue_written (value : PropertyValue) (rest : Bytes) (sized : PropertySized value) :
    ∃ type payload, writePropertyValue value = type::payload ∧
      readPropertyValue type (payload ++ rest) = .ok (value,rest) := by
  cases value with
  | string text =>
    have reads := readCounted_written "Insufficient data for string" text rest sized
    refine ⟨0,writeString text,rfl,?_⟩
    change (readString (writeString text ++ rest)).map _ = _
    rw [readString,reads]
    rfl
  | integer value =>
    refine ⟨1,writeVarint (ZigZag.encode value),rfl,?_⟩
    change (VarInt.decode (writeVarint (ZigZag.encode value) ++ rest)).map _ = _
    rw [decode_writeVarint]
    simp only [Except.map,ZigZag.decode_encode]
  | float bits =>
    have size := littleEndian_length 8 bits.toNat
    refine ⟨2,littleEndian 8 bits.toNat,rfl,?_⟩
    have reads (data : Bytes) : readPropertyValue 2 data =
        if data.length < 8 then .error ⟨.corruption,"Insufficient data for float"⟩
        else .ok (.float (UInt64.ofNat (number (data.take 8))),data.drop 8) := rfl
    rw [reads,if_neg (by simp),List.take_left' size,List.drop_left' size,
      number_littleEndian 8 _ bits.toNat_lt,UInt64.ofNat_toNat]
  | boolean value => exact ⟨3,_,rfl,by cases value <;> rfl⟩
  | bytes content =>
    have reads := readCounted_written "Insufficient data for bytes" content rest sized
    refine ⟨4,writeString content,rfl,?_⟩
    change (readCounted _ (writeString content ++ rest)).map _ = _
    rw [reads]
    rfl

/-- The properties behind their count. -/
def propertiesBytes (properties : List Property) : Bytes :=
  properties.flatMap fun prop => writeString prop.key ++ writePropertyValue prop.value

theorem properties_length (properties : List Property) :
    properties.length ≤ (propertiesBytes properties).length := by
  induction properties with
  | nil => exact Nat.zero_le _
  | cons prop rest ih =>
    have key := writeString_length prop.key
    simp only [propertiesBytes,List.flatMap_cons,List.length_append,List.length_cons] at ih ⊢
    omega

theorem value_length (value : PropertyValue) (short : (writePropertyValue value).length < 2 ^ 64) :
    PropertySized value := by
  cases value with
  | string text | bytes text =>
    have length := writeString_length text
    simp only [writePropertyValue,List.length_cons] at short
    simp only [PropertySized]
    omega
  | integer _ | float _ | boolean _ => trivial

/-- Bytes that have a 64-bit length hold no larger container. -/
theorem short_sized (properties : List Property)
    (short : (serializeProperties properties).length < 2 ^ 64) : Sized properties := by
  have most := properties_length properties
  rw [show serializeProperties properties = writeVarint (UInt64.ofNat properties.length) ++
    propertiesBytes properties from rfl,List.length_append] at short
  refine ⟨by omega,fun prop member => ?_⟩
  have inside : (writeString prop.key ++ writePropertyValue prop.value).length ≤
      (propertiesBytes properties).length := by
    rw [propertiesBytes,List.flatMap_def]
    apply List.Sublist.length_le
    apply List.sublist_flatten_of_mem
    exact List.mem_map.mpr ⟨prop,member,rfl⟩
  have key := writeString_length prop.key
  rw [List.length_append] at inside
  exact ⟨by omega,value_length prop.value (by omega)⟩

theorem readProperties_written (properties : List Property) (rest : Bytes)
    (sized : ∀ prop ∈ properties, prop.key.length < 2 ^ 64 ∧ PropertySized prop.value) :
    readProperties properties.length (propertiesBytes properties ++ rest) = .ok properties := by
  induction properties with
  | nil => rfl
  | cons prop others ih =>
    obtain ⟨⟨key,size⟩,behind⟩ := List.forall_mem_cons.mp sized
    have split : propertiesBytes (prop::others) ++ rest =
        writeString prop.key ++ (writePropertyValue prop.value ++ (propertiesBytes others ++ rest)) := by
      simp [propertiesBytes]
    obtain ⟨type,payload,written,value⟩ :=
      readPropertyValue_written prop.value (propertiesBytes others ++ rest) size
    have text := readCounted_written "Insufficient data for string" prop.key
      (writePropertyValue prop.value ++ (propertiesBytes others ++ rest)) key
    rw [written,List.cons_append] at text
    rw [split,List.length_cons,readProperties,readString,written,List.cons_append,text]
    simp only [value]
    rw [ih behind]
    rfl

theorem deserializeProperties_written (properties : List Property) (rest : Bytes)
    (sized : Sized properties) :
    deserializeProperties (serializeProperties properties ++ rest) = .ok properties := by
  have split : serializeProperties properties =
      writeVarint (UInt64.ofNat properties.length) ++ propertiesBytes properties := rfl
  have count : (UInt64.ofNat properties.length).toNat = properties.length := by
    rw [UInt64.toNat_ofNat']
    exact Nat.mod_eq_of_lt sized.1
  rw [split,deserializeProperties,List.append_assoc,decode_writeVarint]
  simp only [count]
  exact readProperties_written properties rest sized.2

section Fields

variable (value : Nat) (rest : Bytes)

theorem field_behind (width offset size : Nat) (behind : width ≤ offset) :
    field (littleEndian width value ++ rest) offset size = field rest (offset - width) size := by
  rw [field,field,List.drop_append,List.drop_of_length_le (by simpa using behind),littleEndian_length]
  rfl

theorem field_front (width : Nat) (bound : value < 256 ^ width) :
    field (littleEndian width value ++ rest) 0 width = value := by
  rw [field,List.drop_zero,List.take_left' (littleEndian_length width value),
    number_littleEndian width value bound]

end Fields

theorem field_long (value : UInt64) (rest : Bytes) :
    UInt64.ofNat (field (littleEndian 8 value.toNat ++ rest) 0 8) = value := by
  rw [field_front _ rest 8 value.toNat_lt,UInt64.ofNat_toNat]

theorem field_word (value : UInt32) (rest : Bytes) :
    UInt32.ofNat (field (littleEndian 4 value.toNat ++ rest) 0 4) = value := by
  rw [field_front _ rest 4 value.toNat_lt,UInt32.ofNat_toNat]

theorem nodeBytes_length (node : NodeRecord) : (nodeBytes node).length = 48 := by
  simp [nodeBytes]

theorem edgeBytes_length (edge : EdgeRecord) : (edgeBytes edge).length = 48 := by
  simp [edgeBytes]

theorem nodeOfBytes_written (node : NodeRecord) (rest : Bytes) :
    nodeOfBytes (nodeBytes node ++ rest) = node := by
  simp [nodeOfBytes,nodeBytes,field_behind,field_long,field_word]

theorem edgeOfBytes_written (edge : EdgeRecord) (rest : Bytes) :
    edgeOfBytes (edgeBytes edge ++ rest) = edge := by
  simp [edgeOfBytes,edgeBytes,field_behind,field_long,field_word]

theorem deserializeNode_written (node : NodeRecord) (properties : List Property) (rest : Bytes)
    (sized : Sized properties) :
    deserializeNode (serializeNode node properties ++ rest) = .ok (node,properties) := by
  have size := nodeBytes_length node
  rw [deserializeNode,serializeNode,List.append_assoc,if_neg (by simp [size]),List.drop_left' size,
    deserializeProperties_written properties rest sized,Except.map,nodeOfBytes_written]

theorem deserializeEdge_written (edge : EdgeRecord) (properties : List Property) (rest : Bytes)
    (sized : Sized properties) :
    deserializeEdge (serializeEdge edge properties ++ rest) = .ok (edge,properties) := by
  have size := edgeBytes_length edge
  rw [deserializeEdge,serializeEdge,List.append_assoc,if_neg (by simp [size]),List.drop_left' size,
    deserializeProperties_written properties rest sized,Except.map,edgeOfBytes_written]

/-- What was serialized is what comes back, with anything behind it. -/
theorem record_codec_exact (node : NodeRecord) (edge : EdgeRecord) (properties : List Property)
    (tail : Bytes) (sized : Sized properties) :
    deserializeNode (serializeNode node properties ++ tail) = .ok (node,properties) ∧
      deserializeEdge (serializeEdge edge properties ++ tail) = .ok (edge,properties) :=
  ⟨deserializeNode_written node properties tail sized,deserializeEdge_written edge properties tail sized⟩

theorem record_codec_exact_mixed :
    let properties : List Property := [⟨[],.string []⟩,⟨[107],.integer (-3)⟩,⟨[107],.float 0x7FF8000000000001⟩,
      ⟨[107],.boolean true⟩,⟨[],.bytes [0,255]⟩]
    deserializeNode (serializeNode {id := 7} properties ++ [1,2,3]) = .ok ({id := 7},properties) ∧
      deserializeEdge (serializeEdge {id := 8, fromNode := 7, toNode := 7} properties ++ [1,2,3]) =
        .ok ({id := 8, fromNode := 7, toNode := 7},properties) :=
  record_codec_exact {id := 7} {id := 8, fromNode := 7, toNode := 7} _ [1,2,3] (by decide)

end LoreDB.Storage.RecordSerializer
