import LoreDB.Storage.PageStore

/-! Variable-length and zigzag integers. -/
namespace LoreDB.Util
open LoreDB.Storage

namespace VarInt

/-- Encodes into a buffer with `room` bytes left; `none` where the source returns 0 for a
buffer that is too small. -/
def encode (value : UInt64) : Nat → Option Bytes
  | 0 => none
  | room + 1 =>
    if 0x80 ≤ value then
      (encode (value >>> 7) room).map fun bytes => (value ||| 0x80).toUInt8::bytes
    else some [value.toUInt8]

/-- The loop of the encoder over a buffer, which it may fill before it finds it too small. -/
def encodeLoop : UInt64 → Bytes → Option Nat × Bytes
  | _, [] => (none,[])
  | value, _::rest =>
    if 0x80 ≤ value then
      match encodeLoop (value >>> 7) rest with
      | (written,rest) => (written.map (· + 1),(value ||| 0x80).toUInt8::rest)
    else (some 1,value.toUInt8::rest)

/-- The number of bytes written and the buffer after the call. -/
def encodeInto (value : UInt64) (buffer : Bytes) : Nat × Bytes :=
  match encodeLoop value buffer with
  | (written,buffer) => (written.getD 0,buffer)

def encodedSize (value : UInt64) : Nat :=
  if 0x80 ≤ value then encodedSize (value >>> 7) + 1 else 1
  termination_by value.toNat
  decreasing_by
    rename_i more
    rw [UInt64.le_iff_toNat_le] at more
    have large : 128 ≤ value.toNat := more
    simp only [UInt64.toNat_shiftRight,Nat.shiftRight_eq_div_pow,UInt64.reduceToNat,Nat.reduceMod,Nat.reducePow]
    omega

def decodeLoop (result : UInt64) (shift : UInt8) : Bytes → Except Error (UInt64 × Bytes)
  | [] => .error ⟨.corruption,"Incomplete VarInt"⟩
  | byte::rest =>
    if 64 ≤ shift then .error ⟨.corruption,"VarInt too long"⟩
    else
      let result := result ||| ((byte &&& 0x7F).toUInt64 <<< shift.toUInt64)
      if byte &&& 0x80 = 0 then .ok (result,rest) else decodeLoop result (shift + 7) rest

def decode (data : Bytes) : Except Error (UInt64 × Bytes) := decodeLoop 0 0 data

end VarInt

namespace ZigZag

def encode (value : Int64) : UInt64 := (value.toUInt64 <<< 1) ^^^ (value >>> 63).toUInt64

def decode (value : UInt64) : Int64 := ((value >>> 1) ^^^ (0 - (value &&& 1))).toInt64

end ZigZag

namespace VarInt

theorem shifted (value : UInt64) : (value >>> 7).toNat = value.toNat / 128 := by
  simp [UInt64.toNat_shiftRight,Nat.shiftRight_eq_div_pow]

theorem payload_and (byte : UInt8) : (byte &&& 0x7F).toNat = byte.toNat % 128 := by
  rw [UInt8.toNat_and]
  exact Nat.and_two_pow_sub_one_eq_mod byte.toNat 7

/-- A statement about every byte is one about the numbers below 256. -/
theorem every_byte (holds : UInt8 → Prop) (all : ∀ n < 256, holds (UInt8.ofNat n)) (byte : UInt8) :
    holds byte := by
  rw [← @UInt8.ofNat_toNat byte]
  exact all byte.toNat byte.toNat_lt

theorem last_byte (byte : UInt8) : byte &&& 0x80 = 0 ↔ byte.toNat < 128 :=
  every_byte (fun byte => byte &&& 0x80 = 0 ↔ byte.toNat < 128) (by decide +kernel) byte

theorem continued_toNat (value : UInt64) :
    (value ||| 0x80).toUInt8.toNat = value.toNat % 128 + 128 := by
  have split : (value ||| 0x80).toUInt8 = value.toUInt8 ||| 0x80 := by simp
  have byte : (value.toUInt8 ||| 0x80).toNat = value.toUInt8.toNat % 128 + 128 :=
    every_byte (fun byte => (byte ||| 0x80).toNat = byte.toNat % 128 + 128)
      (by decide +kernel) value.toUInt8
  rw [split,byte,UInt64.toNat_toUInt8]
  omega

/-- One step of the decoder puts the next seven bits in front of the ones it has. -/
theorem joined (value result : UInt64) (shift : Nat) (byte : UInt8) (below : shift < 64)
    (low : result.toNat = value.toNat % 2 ^ shift)
    (next : byte.toNat % 128 = value.toNat / 2 ^ shift % 128) :
    (result ||| ((byte &&& 0x7F).toUInt64 <<< (UInt8.ofNat shift).toUInt64)).toNat =
      value.toNat % 2 ^ (shift + 7) := by
  have amount : (UInt8.ofNat shift).toUInt64.toNat % 64 = shift := by
    rw [UInt8.toNat_toUInt64,UInt8.toNat_ofNat']
    omega
  have fits : value.toNat / 2 ^ shift % 128 * 2 ^ shift < 2 ^ 64 :=
    calc value.toNat / 2 ^ shift % 128 * 2 ^ shift
        ≤ value.toNat / 2 ^ shift * 2 ^ shift := Nat.mul_le_mul_right _ (Nat.mod_le _ _)
      _ ≤ value.toNat := Nat.div_mul_le_self _ _
      _ < 2 ^ 64 := value.toNat_lt
  rw [UInt64.toNat_or,UInt64.toNat_shiftLeft,amount,UInt8.toNat_toUInt64,payload_and,low,next,
    Nat.shiftLeft_eq,Nat.mod_eq_of_lt fits,Nat.or_comm,Nat.mul_comm,
    ← Nat.two_pow_add_eq_or_of_lt (Nat.mod_lt _ (Nat.two_pow_pos shift)),Nat.pow_add,Nat.mod_mul,
    Nat.add_comm]

theorem shift_fits (shift : Nat) (below : shift < 64) : ¬64 ≤ UInt8.ofNat shift := by
  rw [UInt8.le_iff_toNat_le,UInt8.toNat_ofNat']
  change ¬64 ≤ shift % 2 ^ 8
  omega

theorem small_iff (x : UInt64) : ¬0x80 ≤ x ↔ x.toNat < 128 := by
  rw [UInt64.le_iff_toNat_le]
  exact Nat.not_le

theorem decodeLoop_last (value x result : UInt64) (shift : Nat) (rest : Bytes) (below : shift < 64)
    (small : x.toNat < 128) (high : x.toNat = value.toNat / 2 ^ shift)
    (low : result.toNat = value.toNat % 2 ^ shift) :
    decodeLoop result (UInt8.ofNat shift) (x.toUInt8::rest) = .ok (value,rest) := by
  have byte : x.toUInt8.toNat = x.toNat := by
    rw [UInt64.toNat_toUInt8]
    omega
  have ends : x.toUInt8 &&& 0x80 = 0 := (last_byte _).mpr (by rw [byte]; exact small)
  have whole := joined value result shift x.toUInt8 below low (by rw [byte,high])
  have complete : value.toNat < 2 ^ (shift + 7) := by
    rw [high] at small
    rw [Nat.pow_add,Nat.mul_comm]
    exact Nat.lt_mul_of_div_lt small (Nat.two_pow_pos shift)
  rw [Nat.mod_eq_of_lt complete] at whole
  rw [decodeLoop,if_neg (shift_fits shift below)]
  dsimp only
  rw [if_pos ends,UInt64.toNat_inj.mp whole]

/-- The decoder reads on behind the bits that it has, up to the last byte. -/
theorem decodeLoop_encode (value : UInt64) (room shift : Nat) (rest : Bytes) (x result : UInt64)
    (width : shift + 7 * (room + 1) = 70) (high : x.toNat = value.toNat / 2 ^ shift)
    (low : result.toNat = value.toNat % 2 ^ shift) :
    ∃ bytes, encode x (room + 1) = some bytes ∧
      decodeLoop result (UInt8.ofNat shift) (bytes ++ rest) = .ok (value,rest) := by
  induction room generalizing shift x result with
  | zero =>
    have small : x.toNat < 128 := by
      have bound := value.toNat_lt
      rw [show shift = 63 by omega] at high
      omega
    exact ⟨_,by rw [encode,if_neg ((small_iff x).mpr small)],
      decodeLoop_last value x result shift rest (by omega) small high low⟩
  | succ room ih =>
    have below : shift < 64 := by omega
    by_cases more : 0x80 ≤ x
    · have byte := continued_toNat x
      have next := joined value result shift (x ||| 0x80).toUInt8 below low (by omega)
      have continues : ¬(x ||| 0x80).toUInt8 &&& 0x80 = 0 := by
        rw [last_byte]
        omega
      have advanced : UInt8.ofNat shift + 7 = UInt8.ofNat (shift + 7) := by
        rw [UInt8.ofNat_add]
        rfl
      obtain ⟨bytes,encodes,decodes⟩ := ih (shift + 7) (x >>> 7)
        (result ||| (((x ||| 0x80).toUInt8 &&& 0x7F).toUInt64 <<< (UInt8.ofNat shift).toUInt64))
        (by omega) (by rw [shifted,high,Nat.div_div_eq_div_mul,Nat.pow_add]) next
      refine ⟨(x ||| 0x80).toUInt8::bytes,?_,?_⟩
      · rw [encode,if_pos more,encodes]
        rfl
      · rw [List.cons_append,decodeLoop,if_neg (shift_fits shift below)]
        dsimp only
        rw [if_neg continues,advanced]
        exact decodes
    · exact ⟨_,by rw [encode,if_neg more],
        decodeLoop_last value x result shift rest below ((small_iff x).mp more) high low⟩

/-- Every number is read back from the ten bytes that are enough for it. -/
theorem decode_encode (value : UInt64) (rest : Bytes) :
    ∃ bytes, encode value 10 = some bytes ∧ decode (bytes ++ rest) = .ok (value,rest) :=
  decodeLoop_encode value 9 0 rest value 0 rfl (by simp) (by simp [Nat.mod_one])

theorem encode_length (value : UInt64) (room : Nat) (bytes : Bytes)
    (encodes : encode value room = some bytes) : 0 < bytes.length := by
  cases room with
  | zero => cases encodes
  | succ room =>
    rw [encode] at encodes
    split at encodes
    · obtain ⟨rest,_,rfl⟩ := Option.map_eq_some_iff.mp encodes
      exact Nat.succ_pos _
    · cases encodes
      exact Nat.succ_pos _

end VarInt

namespace ZigZag

theorem sign_spread (bits : BitVec 64) :
    bits.sshiftRight 63 = if bits.msb then BitVec.allOnes 64 else 0 := by
  apply BitVec.eq_of_getLsbD_eq
  intro i inside
  have top : bits.getLsbD 63 = bits.msb := BitVec.msb_eq_getLsbD_last bits ▸ rfl
  have spread : (if 63 + i < 64 then bits.getLsbD (63 + i) else bits.msb) = bits.msb := by
    split
    · rw [show 63 + i = 63 by omega,top]
    · rfl
  rw [BitVec.getLsbD_sshiftRight,spread]
  cases bits.msb with
  | true => rw [if_pos rfl,BitVec.getLsbD_allOnes]; simp [inside]
  | false => simp

/-- Shifting back drops the sign again, which the lowest bit has kept. -/
theorem unspread (bits : BitVec 64) :
    (bits <<< 1 ^^^ if bits.msb then BitVec.allOnes 64 else 0) >>> 1 ^^^
      -((bits <<< 1 ^^^ if bits.msb then BitVec.allOnes 64 else 0) &&& 1#64) = bits := by
  have top : bits.getLsbD 63 = bits.msb := BitVec.msb_eq_getLsbD_last bits ▸ rfl
  cases sign : bits.msb with
  | true =>
    have low : (bits <<< 1 ^^^ BitVec.allOnes 64) &&& 1#64 = 1#64 := by
      apply BitVec.eq_of_getLsbD_eq
      intro i inside
      rw [BitVec.getLsbD_and,BitVec.getLsbD_xor,BitVec.getLsbD_allOnes,BitVec.getLsbD_shiftLeft,
        BitVec.getLsbD_one]
      rcases Nat.eq_zero_or_pos i with rfl | positive
      · simp
      · simp [Nat.ne_of_gt positive]
    have mask : -(1#64) = BitVec.allOnes 64 := rfl
    rw [if_pos rfl,low,mask]
    apply BitVec.eq_of_getLsbD_eq
    intro i inside
    rw [BitVec.getLsbD_xor,BitVec.getLsbD_ushiftRight,BitVec.getLsbD_xor,BitVec.getLsbD_allOnes,
      BitVec.getLsbD_allOnes,BitVec.getLsbD_shiftLeft]
    by_cases last : i = 63
    · subst last
      simp [top,sign]
    · have next : 1 + i < 64 := by omega
      simp [inside,next]
  | false =>
    have low : (bits <<< 1 ^^^ (0 : BitVec 64)) &&& 1#64 = 0 := by
      apply BitVec.eq_of_getLsbD_eq
      intro i inside
      rw [BitVec.getLsbD_and,BitVec.getLsbD_xor,BitVec.getLsbD_shiftLeft,BitVec.getLsbD_one]
      rcases Nat.eq_zero_or_pos i with rfl | positive
      · simp
      · simp [Nat.ne_of_gt positive]
    rw [if_neg Bool.false_ne_true,low]
    apply BitVec.eq_of_getLsbD_eq
    intro i inside
    rw [BitVec.getLsbD_xor,BitVec.getLsbD_ushiftRight,BitVec.getLsbD_xor,BitVec.getLsbD_shiftLeft]
    by_cases last : i = 63
    · subst last
      rw [top,sign]
      simp
    · have next : 1 + i < 64 := by omega
      simp [next]

theorem decode_encode (value : Int64) : decode (encode value) = value := by
  apply Int64.toBitVec_inj.mp
  simp only [decode,encode]
  have round := unspread value.toBitVec
  rw [← sign_spread] at round
  simpa using round

end ZigZag

end LoreDB.Util
