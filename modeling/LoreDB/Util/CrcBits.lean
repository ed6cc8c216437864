import LoreDB.Library.ShiftRegister
import LoreDB.Util.Crc32

/-! The table against the polynomial. An entry is what eight shifts make of its index, so a step over a byte
does what eight steps over its bits do. -/
namespace LoreDB.Util.CRC32
open LoreDB.Library.ShiftRegister

/-- The polynomial of this CRC, its coefficients reflected. -/
def polynomial : BitVec 32 := 0xEDB88320

/-- The CRC bit by bit, from a register of ones and inverted at the end. -/
def bitwise (data : List UInt8) : UInt32 :=
  ⟨feed polynomial (BitVec.allOnes 32) (bits data) ^^^ BitVec.allOnes 32⟩

theorem table_entries :
    crcTable.toList.map UInt32.toBitVec = (List.range 256).map fun i => (shift polynomial)^[8] (BitVec.ofNat 32 i) := by
  decide +kernel

theorem table_entry (index : UInt32) :
    (crcTable.getD (index &&& 0xFF).toNat 0).toBitVec = (shift polynomial)^[8] (index &&& 0xFF).toBitVec := by
  have small : (index &&& 0xFF).toNat < 256 := by
    rw [UInt32.toNat_and]
    exact Nat.lt_of_le_of_lt Nat.and_le_right (by decide)
  have entry := congrArg (fun entries => entries[(index &&& 0xFF).toNat]?) table_entries
  simp only [List.getElem?_map,Array.getElem?_toList,List.getElem?_range small,Option.map_some] at entry
  obtain ⟨found,lookup,value⟩ := Option.map_eq_some_iff.mp entry
  rw [Array.getD_eq_getD_getElem?,lookup,Option.getD_some,value,← UInt32.toNat_toBitVec,BitVec.ofNat_toNat,
    BitVec.setWidth_eq]

theorem low_byte (i : ℕ) (x : UInt32) :
    (x &&& 0xFF).toBitVec.getLsbD i = (x.toBitVec.getLsbD i && decide (i < 8)) := by
  have ones : (0xFF#32).getLsbD i = decide (i < 8) := by
    rw [BitVec.getLsbD_ofNat,show 0xFF = 2 ^ 8 - 1 by rfl,Nat.testBit_two_pow_sub_one]
    by_cases low : i < 8
    · simp [low,show i < 32 by omega]
    · simp [low]
  rw [UInt32.toBitVec_and,BitVec.getLsbD_and]
  exact congrArg _ ones

theorem byte_word (byte : UInt8) : word 32 (bits [byte]) = byte.toUInt32.toBitVec := by
  apply BitVec.eq_of_getLsbD_eq
  intro i inside
  rw [word_getLsbD _ i inside,UInt8.toBitVec_toUInt32,BitVec.getLsbD_setWidth]
  by_cases low : i < 8
  · simp [bits,List.getD_eq_getElem?_getD,low,inside]
  · rw [BitVec.getLsbD_of_ge _ _ (Nat.le_of_not_lt low)]
    simp [bits,List.getD_eq_getElem?_getD,low]

/-- One step over a byte is eight steps over its bits. -/
theorem byte_feed (crc : UInt32) (byte : UInt8) :
    (crcTable.getD ((crc ^^^ byte.toUInt32) &&& 0xFF).toNat 0 ^^^ (crc >>> 8)).toBitVec =
      feed polynomial crc.toBitVec (bits [byte]) := by
  have moved : (crc ^^^ byte.toUInt32).toBitVec >>> 8 = (crc >>> 8).toBitVec := by
    apply BitVec.eq_of_getLsbD_eq
    intro i inside
    rw [UInt32.toBitVec_shiftRight]
    simp [UInt32.toBitVec_xor,UInt8.toBitVec_toUInt32]
  rw [UInt32.toBitVec_xor,table_entry,← moved,feed_word polynomial _ _ (by simp [bits]),byte_word,
    ← UInt32.toBitVec_xor]
  refine (shifts_split polynomial 8 _ _ (fun i low => ?_) fun i high => ?_).symm
  · rw [low_byte,decide_eq_true low,Bool.and_true]
  · rw [low_byte,decide_eq_false (Nat.not_lt_of_le high),Bool.and_false]

theorem update_feed (crc : UInt32) (data : List UInt8) :
    (update crc data).toBitVec = feed polynomial crc.toBitVec (bits data) := by
  induction data generalizing crc with
  | nil => rfl
  | cons byte rest ih =>
    have split : bits (byte::rest) = bits [byte] ++ bits rest := by simp [bits]
    rw [split,feed_append,← byte_feed]
    exact ih _

theorem update_pieces (crc : UInt32) (pieces : List (List UInt8)) :
    pieces.foldl update crc = update crc pieces.flatten := by
  induction pieces generalizing crc with
  | nil => rfl
  | cons piece rest ih =>
    rw [List.foldl_cons,ih,List.flatten_cons]
    exact List.foldl_append.symm

theorem calculate_feed (data : List UInt8) : calculate data = bitwise data := by
  apply UInt32.toBitVec_inj.mp
  have ones : (0xFFFFFFFF : UInt32).toBitVec = BitVec.allOnes 32 := by decide
  rw [calculate,finalize,UInt32.toBitVec_xor,update_feed,ones]
  rfl

/-- The table computes the CRC of the polynomial, and in pieces the same as at once. -/
theorem calculate_bitwise : (∀ data, calculate data = bitwise data) ∧
    ∀ pieces : List (List UInt8), finalize (pieces.foldl update 0xFFFFFFFF) = calculate pieces.flatten := by
  refine ⟨calculate_feed,fun pieces => ?_⟩
  rw [update_pieces]
  rfl

/-- Data that differ only within four bytes have different CRCs. -/
theorem calculate_burst (before first second after : List UInt8) (lengths : first.length = second.length)
    (short : first.length ≤ 4) (differ : first ≠ second) :
    calculate (before ++ first ++ after) ≠ calculate (before ++ second ++ after) := by
  intro same
  rw [calculate_feed,calculate_feed] at same
  have registers := (BitVec.xor_left_inj _).mp (congrArg UInt32.toBitVec same)
  simp only [bits_append] at registers
  refine feed_burst polynomial (by decide) _ _ _ _ _ ?_ ?_ (bits_injective.ne differ) registers
  · rw [bits_length,bits_length,lengths]
  · rw [bits_length]
    omega

end LoreDB.Util.CRC32
