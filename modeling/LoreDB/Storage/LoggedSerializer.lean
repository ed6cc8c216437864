import LoreDB.Library.AccessLog
import LoreDB.Storage.Record
import LoreDB.Util.VarintSums

/-! The decoders of records with what they touch: every byte they look at, every part of the span that they copy
or skip, and the room that they ask for. Arbitrary bytes are decoded inside their span. Only the room for the
properties is asked for before the bytes of these are known to be there. -/
namespace LoreDB.Storage.LoggedSerializer
open LoreDB.Library.AccessLog LoreDB.Library.AccessLog.Logged LoreDB.Library.Base128 LoreDB.Util
open LoreDB.Storage.RecordSerializer

abbrev Decoder (α : Type) := Bytes → Logged Error (α × Bytes)

def decodeLoop (result : UInt64) (shift : UInt8) : Decoder UInt64
  | [] => fail ⟨.corruption,"Incomplete VarInt"⟩
  | byte::rest => do
    access 1 (rest.length + 1)
    if 64 ≤ shift then fail ⟨.corruption,"VarInt too long"⟩
    else
      let result := result ||| ((byte &&& 0x7F).toUInt64 <<< shift.toUInt64)
      if byte &&& 0x80 = 0 then do
        access 1 (rest.length + 1)
        pure (result,rest)
      else decodeLoop result (shift + 7) rest

def readVarint : Decoder UInt64 := decodeLoop 0 0

/-- The elements are copied and then skipped. -/
def readCounted (missing : String) : Decoder Bytes := fun data => do
  let (len,data) ← readVarint data
  if data.length < len.toNat then fail ⟨.corruption,missing⟩
  else
    access len.toNat data.length
    access len.toNat data.length
    pure (data.take len.toNat,data.drop len.toNat)

def readString : Decoder Bytes := readCounted "Insufficient data for string"

def readPropertyValue (type : UInt8) : Decoder PropertyValue := fun data =>
  match type.toNat with
  | 0 => do
    let (text,data) ← readString data
    pure (.string text,data)
  | 1 => do
    let (value,data) ← readVarint data
    pure (.integer (ZigZag.decode value),data)
  | 2 =>
    if data.length < 8 then fail ⟨.corruption,"Insufficient data for float"⟩
    else do
      access 8 data.length
      access 8 data.length
      pure (.float (UInt64.ofNat (LoreDB.Library.ByteStream.number (data.take 8))),data.drop 8)
  | 3 =>
    match data with
    | [] => fail ⟨.corruption,"Insufficient data for boolean"⟩
    | value::data => do
      access 1 (data.length + 1)
      access 1 (data.length + 1)
      pure (.boolean (value != 0),data)
  | 4 => do
    let (content,data) ← readCounted "Insufficient data for bytes" data
    pure (.bytes content,data)
  | _ => fail ⟨.corruption,"Unknown property type"⟩

/-- The byte of the type is looked at and skipped. -/
def readType : Decoder UInt8
  | [] => fail ⟨.corruption,"Unexpected end of data"⟩
  | type::data => do
    access 1 (data.length + 1)
    access 1 (data.length + 1)
    pure (type,data)

def readProperties : Nat → Bytes → Logged Error (List Property)
  | 0, _ => pure []
  | count + 1, data => do
    let (key,data) ← readString data
    let (type,data) ← readType data
    let (value,data) ← readPropertyValue type data
    let rest ← readProperties count data
    pure (⟨key,value⟩::rest)

/-- `grants` says for how many elements the vector gets room. -/
def deserializeProperties (grants : Nat → Bool) (data : Bytes) : Logged Error (List Property) := do
  let (count,data) ← readVarint data
  reserve grants count.toNat data.length
  readProperties count.toNat data

def deserializeRecord {ρ : Type} (missing : String) (ofBytes : Bytes → ρ) (grants : Nat → Bool) (data : Bytes) :
    Logged Error (ρ × List Property) :=
  if data.length < 48 then fail ⟨.corruption,missing⟩
  else do
    access 48 data.length
    access 48 data.length
    let properties ← deserializeProperties grants (data.drop 48)
    pure (ofBytes data,properties)

def deserializeNode : (Nat → Bool) → Bytes → Logged Error (NodeRecord × List Property) :=
  deserializeRecord "Insufficient data for node record" nodeOfBytes

def deserializeEdge : (Nat → Bool) → Bytes → Logged Error (EdgeRecord × List Property) :=
  deserializeRecord "Insufficient data for edge record" edgeOfBytes

/-! The decoders follow those without a log. -/

theorem decodeLoop_follows (data : Bytes) (result : UInt64) (shift : UInt8) :
    Follows (decodeLoop result shift data) (VarInt.decodeLoop result shift data) := by
  induction data generalizing result shift with
  | nil => exact follows_fail _
  | cons byte rest ih =>
    have first : 1 ≤ rest.length + 1 := Nat.le_add_left ..
    unfold decodeLoop VarInt.decodeLoop
    refine follows_access _ _ _ _ first ?_
    split
    · exact follows_fail _
    · dsimp only
      split
      · exact follows_access _ _ _ _ first (follows_pure _)
      · exact ih _ _

theorem readVarint_follows (data : Bytes) : Follows (readVarint data) (VarInt.decode data) :=
  decodeLoop_follows data 0 0

theorem readCounted_follows (missing : String) (data : Bytes) :
    Follows (readCounted missing data) (RecordSerializer.readCounted missing data) := by
  have varint := readVarint_follows data
  unfold readCounted RecordSerializer.readCounted
  cases decoded : VarInt.decode data with
  | error e => exact follows_error _ _ e (decoded ▸ varint)
  | ok found =>
    obtain ⟨len,rest⟩ := found
    refine follows_value _ _ _ _ (decoded ▸ varint) ?_
    dsimp only
    split
    · exact follows_fail _
    · rename_i enough
      have inside : len.toNat ≤ rest.length := Nat.not_lt.mp enough
      exact follows_access _ _ _ _ inside (follows_access _ _ _ _ inside (follows_pure _))

theorem readPropertyValue_follows (type : UInt8) (data : Bytes) :
    Follows (readPropertyValue type data) (RecordSerializer.readPropertyValue type data) := by
  have text (missing : String) (f : Bytes → PropertyValue) :
      Follows (readCounted missing data >>= fun (content,data) => pure (f content,data))
        ((RecordSerializer.readCounted missing data).map fun (content,data) => (f content,data)) := by
    have counted := readCounted_follows missing data
    cases read : RecordSerializer.readCounted missing data with
    | error e => exact follows_error _ _ e (read ▸ counted)
    | ok found => exact follows_value _ _ _ _ (read ▸ counted) (follows_pure _)
  unfold readPropertyValue RecordSerializer.readPropertyValue
  generalize type.toNat = kind
  rcases kind with _ | _ | _ | _ | _ | kind
  · exact text _ PropertyValue.string
  · have varint := readVarint_follows data
    dsimp only
    cases read : VarInt.decode data with
    | error e => exact follows_error _ _ e (read ▸ varint)
    | ok found => exact follows_value _ _ _ _ (read ▸ varint) (follows_pure _)
  · change Follows (if data.length < 8 then _ else _) (if data.length < 8 then _ else _)
    split
    · exact follows_fail _
    · rename_i enough
      have inside : 8 ≤ data.length := Nat.not_lt.mp enough
      exact follows_access _ _ _ _ inside (follows_access _ _ _ _ inside (follows_pure _))
  · cases data with
    | nil => exact follows_fail _
    | cons value rest =>
      have inside : 1 ≤ rest.length + 1 := Nat.le_add_left ..
      exact follows_access _ _ _ _ inside (follows_access _ _ _ _ inside (follows_pure _))
  · exact text _ PropertyValue.bytes
  · exact follows_fail _

theorem readProperties_follows (count : Nat) (data : Bytes) :
    Follows (readProperties count data) (RecordSerializer.readProperties count data) := by
  induction count generalizing data with
  | zero => exact follows_pure _
  | succ count ih =>
    have text : Follows (readString data) (RecordSerializer.readString data) := readCounted_follows _ data
    unfold readProperties RecordSerializer.readProperties
    cases read : RecordSerializer.readString data with
    | error e => exact follows_error _ _ e (read ▸ text)
    | ok found =>
      obtain ⟨key,rest⟩ := found
      refine follows_value _ _ _ _ (read ▸ text) ?_
      cases rest with
      | nil => exact follows_error _ _ _ (follows_fail _)
      | cons type rest =>
        have inside : 1 ≤ rest.length + 1 := Nat.le_add_left ..
        have first : Follows (readType (type::rest)) (.ok (type,rest)) :=
          follows_access _ _ _ _ inside (follows_access _ _ _ _ inside (follows_pure _))
        refine follows_value _ _ _ _ first ?_
        have value := readPropertyValue_follows type rest
        dsimp only
        cases decoded : RecordSerializer.readPropertyValue type rest with
        | error e => exact follows_error _ _ e (decoded ▸ value)
        | ok found =>
          refine follows_value _ _ _ _ (decoded ▸ value) ?_
          exact follows_map _ _ _ (ih found.2)

/-! Every error of a decoder is a corruption. -/

theorem decode_corruption (data : Bytes) (e : Error) (refused : VarInt.decode data = .error e) :
    e.code = .corruption := by
  by_cases early : ∃ i, last data = some i ∧ i ≤ 9
  · obtain ⟨i,found,few⟩ := early
    rw [VarInt.decode_ends data i found few] at refused
    cases refused
  · obtain ⟨e',refuses,corruption⟩ := VarInt.decode_refuses data fun i found =>
      Nat.lt_of_not_le fun few => early ⟨i,found,few⟩
    rw [refuses] at refused
    exact Except.error.inj refused ▸ corruption

theorem readCounted_corruption (missing : String) (data : Bytes) (e : Error)
    (refused : RecordSerializer.readCounted missing data = .error e) : e.code = .corruption := by
  unfold RecordSerializer.readCounted at refused
  cases decoded : VarInt.decode data with
  | error e' =>
    rw [decoded] at refused
    exact Except.error.inj refused ▸ decode_corruption data e' decoded
  | ok found =>
    rw [decoded] at refused
    dsimp only at refused
    split at refused
    · exact Except.error.inj refused ▸ rfl
    · cases refused

theorem map_error {α β : Type} {plain : Except Error α} {f : α → β} {e : Error} (refused : plain.map f = .error e) :
    plain = .error e := by
  cases plain with
  | error e' => exact congrArg Except.error (Except.error.inj refused)
  | ok a => cases refused

theorem readPropertyValue_corruption (type : UInt8) (data : Bytes) (e : Error)
    (refused : RecordSerializer.readPropertyValue type data = .error e) : e.code = .corruption := by
  unfold RecordSerializer.readPropertyValue at refused
  split at refused
  · exact readCounted_corruption _ data e (map_error refused)
  · exact decode_corruption data e (map_error refused)
  · split at refused
    · exact Except.error.inj refused ▸ rfl
    · cases refused
  · split at refused
    · exact Except.error.inj refused ▸ rfl
    · cases refused
  · exact readCounted_corruption _ data e (map_error refused)
  · exact Except.error.inj refused ▸ rfl

theorem readProperties_corruption (count : Nat) (data : Bytes) (e : Error)
    (refused : RecordSerializer.readProperties count data = .error e) : e.code = .corruption := by
  induction count generalizing data with
  | zero => cases refused
  | succ count ih =>
    unfold RecordSerializer.readProperties at refused
    split at refused
    · rename_i e' text
      exact Except.error.inj refused ▸ readCounted_corruption _ data e' text
    · exact Except.error.inj refused ▸ rfl
    · rename_i key type rest text
      split at refused
      · rename_i e' value
        exact Except.error.inj refused ▸ readPropertyValue_corruption type rest e' value
      · exact ih _ (map_error refused)

/-! What the decoders of whole records need of the bytes. -/

/-- The accesses are inside their spans, nothing is thrown, and an error is a corruption. -/
structure Clean {α : Type} (logged : Logged Error α) : Prop where
  inside : logged.AllInside
  caught : logged.ended ≠ .thrown
  corruption : ∀ e, logged.ended = .error e → e.code = .corruption

/-- There is room for as many elements as there are bytes, and for more perhaps not. -/
def FailsCleanly {α : Type} (decoder : (Nat → Bool) → Bytes → Logged Error α) (data : Bytes) : Prop :=
  ∀ grants : Nat → Bool, (∀ n ≤ data.length, grants n = true) → Clean (decoder grants data)

/-- Where a number of properties is read behind the record, at least as many bytes follow it. -/
def CountFits (data : Bytes) : Prop :=
  48 ≤ data.length → ∀ i, last (data.drop 48) = some i → i ≤ 9 →
    spelled (data.drop 48) i % 2 ^ 64 ≤ data.length - 48 - (i + 1)

theorem follows_clean {α : Type} (logged : Logged Error α) (plain : Except Error α) (follows : Follows logged plain)
    (corruption : ∀ e, plain = .error e → e.code = .corruption) : Clean logged := by
  cases plain with
  | ok a =>
    have ended := follows.value a rfl
    exact ⟨follows.inside,fun thrown => (nomatch ended.symm.trans thrown),
      fun e failed => (nomatch ended.symm.trans failed)⟩
  | error e =>
    have ended := follows.error e rfl
    refine ⟨follows.inside,fun thrown => (nomatch ended.symm.trans thrown),fun e' failed => ?_⟩
    exact corruption e' (congrArg Except.error (Ended.error.inj (ended.symm.trans failed)))

theorem deserializeProperties_follows (grants : Nat → Bool) (data : Bytes)
    (granted : ∀ n ≤ data.length, grants n = true)
    (fits : ∀ i, last data = some i → i ≤ 9 → spelled data i % 2 ^ 64 ≤ data.length - (i + 1)) :
    Follows (deserializeProperties grants data) (RecordSerializer.deserializeProperties data) := by
  have varint := readVarint_follows data
  unfold deserializeProperties RecordSerializer.deserializeProperties
  by_cases early : ∃ i, last data = some i ∧ i ≤ 9
  · obtain ⟨i,found,few⟩ := early
    have decoded := VarInt.decode_ends data i found few
    have within : (UInt64.ofNat (payload (data.take (i + 1)))).toNat ≤ (data.drop (i + 1)).length := by
      rw [payload_spelled data i found,UInt64.toNat_ofNat',List.length_drop]
      exact fits i found few
    have room := granted _ (within.trans (List.length_drop.le.trans (Nat.sub_le ..)))
    rw [decoded] at varint ⊢
    exact follows_value _ _ _ _ varint (follows_reserve _ _ _ _ _ room within (readProperties_follows _ _))
  · obtain ⟨e,refuses,-⟩ := VarInt.decode_refuses data fun i found =>
      Nat.lt_of_not_le fun few => early ⟨i,found,few⟩
    rw [refuses] at varint ⊢
    exact follows_error _ _ e varint

theorem deserializeProperties_corruption (data : Bytes) (e : Error)
    (refused : RecordSerializer.deserializeProperties data = .error e) : e.code = .corruption := by
  unfold RecordSerializer.deserializeProperties at refused
  split at refused
  · rename_i e' decoded
    exact Except.error.inj refused ▸ decode_corruption data e' decoded
  · exact readProperties_corruption _ _ e refused

theorem deserializeProperties_inside (data : Bytes) (i : Nat) (found : last data = some i) (few : i ≤ 9)
    (inside : (deserializeProperties (fun _ => true) data).AllInside) :
    spelled data i % 2 ^ 64 ≤ data.length - (i + 1) := by
  have decoded := (readVarint_follows data).value _ (VarInt.decode_ends data i found few)
  have asked := value_inside _ _ _ decoded inside
  have within := ((reserve_inside _ _ _ _ fun _ => rfl).mp asked).1
  rwa [payload_spelled data i found,UInt64.toNat_ofNat',List.length_drop] at within

theorem deserializeRecord_clean {ρ : Type} (missing : String) (ofBytes : Bytes → ρ) (data : Bytes) :
    FailsCleanly (deserializeRecord missing ofBytes) data ↔ CountFits data := by
  constructor
  · intro clean long i found few
    have inside := (clean (fun _ => true) fun _ _ => rfl).inside
    unfold deserializeRecord at inside
    rw [if_neg (Nat.not_lt.mpr long),access_inside,access_inside] at inside
    have rest := deserializeProperties_inside _ i found few (bind_inside _ _ inside.2.2)
    rwa [List.length_drop] at rest
  · intro fits grants granted
    by_cases short : data.length < 48
    · unfold deserializeRecord
      rw [if_pos short]
      exact follows_clean _ _ (follows_fail _) fun e same => Except.error.inj same ▸ rfl
    · have long : 48 ≤ data.length := Nat.not_lt.mp short
      have properties := deserializeProperties_follows grants (data.drop 48)
        (fun n few => granted n (few.trans (List.length_drop.le.trans (Nat.sub_le ..))))
        (fun i found few => (fits long i found few).trans (by rw [List.length_drop]))
      unfold deserializeRecord
      rw [if_neg short]
      exact follows_clean _ _ (follows_access _ _ _ _ long (follows_access _ _ _ _ long (follows_map _ _ _ properties)))
        fun e refused => deserializeProperties_corruption _ e (map_error refused)

/-- Nodes and edges are decoded cleanly from exactly the bytes in which as many bytes as properties follow the
number of these. -/
theorem deserialize_clean (data : Bytes) :
    (FailsCleanly deserializeNode data ↔ CountFits data) ∧ (FailsCleanly deserializeEdge data ↔ CountFits data) :=
  ⟨deserializeRecord_clean _ _ data,deserializeRecord_clean _ _ data⟩

/-- Behind a record stands a number of properties of 64 bits, and the bytes end. -/
def countless : Bytes := List.replicate 48 0 ++ List.replicate 9 0xFF ++ [1]

theorem countless_throws :
    ¬FailsCleanly deserializeNode countless ∧ ¬FailsCleanly deserializeEdge countless := by
  have granted (n : Nat) (few : n ≤ countless.length) : decide (n ≤ 58) = true := decide_eq_true few
  constructor
  · intro clean
    exact (clean _ granted).caught (by decide +kernel)
  · intro clean
    exact (clean _ granted).caught (by decide +kernel)

end LoreDB.Storage.LoggedSerializer
