import LoreDB.Library.Base128
import LoreDB.Util.Varint
import Mathlib.Tactic.Linarith

/-! What the decoder makes of arbitrary bytes. It reads at most ten of them, and the number that they spell
comes back as far as its lowest 64 bits. -/
namespace LoreDB.Util.VarInt
open LoreDB.Storage LoreDB.Library.Base128

theorem ends_iff (byte : UInt8) : ends byte = true ↔ byte &&& 0x80 = 0 := by
  rw [last_byte,ends,decide_eq_true_eq]

/-- Seven more bits in front of the ones that are there; what is above bit 63 is lost. -/
theorem joined_low (result : UInt64) (k : Nat) (byte : UInt8) (few : k ≤ 9) (low : result.toNat < 2 ^ (7 * k)) :
    (result ||| ((byte &&& 0x7F).toUInt64 <<< (UInt8.ofNat (7 * k)).toUInt64)).toNat =
      (result.toNat + 2 ^ (7 * k) * (byte.toNat % 128)) % 2 ^ 64 := by
  have amount : (UInt8.ofNat (7 * k)).toUInt64.toNat % 64 = 7 * k := by
    rw [UInt8.toNat_toUInt64,UInt8.toNat_ofNat']
    omega
  have width : 2 ^ 64 = 2 ^ (7 * k) * 2 ^ (64 - 7 * k) := by
    rw [← Nat.pow_add]
    congr 1
    omega
  have positive := Nat.two_pow_pos (7 * k)
  rw [UInt64.toNat_or,UInt64.toNat_shiftLeft,amount,UInt8.toNat_toUInt64,payload_and,Nat.shiftLeft_eq,
    Nat.mul_comm _ (2 ^ (7 * k)),width,Nat.mul_mod_mul_left,Nat.or_comm,← Nat.two_pow_add_eq_or_of_lt low,
    Nat.mod_mul,Nat.add_mul_mod_self_left,Nat.mod_eq_of_lt low,Nat.add_mul_div_left _ _ positive,
    Nat.div_eq_of_lt low,Nat.zero_add,Nat.add_comm]

theorem decodeLoop_ends (data : Bytes) (i k : Nat) (result : UInt64) (few : k + i ≤ 9)
    (low : result.toNat < 2 ^ (7 * k)) (found : last data = some i) :
    decodeLoop result (UInt8.ofNat (7 * k)) data = .ok
      (UInt64.ofNat (result.toNat + 2 ^ (7 * k) * payload (data.take (i + 1))),data.drop (i + 1)) := by
  induction data generalizing i k result with
  | nil => cases found
  | cons byte rest ih =>
    have joins := joined_low result k byte (by omega) low
    rw [last_cons] at found
    rw [decodeLoop,if_neg (shift_fits (7 * k) (by omega))]
    dsimp only
    by_cases final : ends byte = true
    · rw [if_pos final] at found
      obtain rfl := Option.some.inj found
      rw [if_pos ((ends_iff byte).mp final)]
      have sum : payload ((byte::rest).take (0 + 1)) = byte.toNat % 128 := by simp [payload]
      rw [sum,← UInt64.toNat_inj.mp (joins.trans (UInt64.toNat_ofNat' ..).symm)]
      rfl
    · rw [if_neg final] at found
      obtain ⟨j,later,rfl⟩ := Option.map_eq_some_iff.mp found
      have room : result.toNat + 2 ^ (7 * k) * (byte.toNat % 128) < 2 ^ (7 * (k + 1)) := by
        rw [show 7 * (k + 1) = 7 * k + 7 by omega,Nat.pow_add]
        have digit : byte.toNat % 128 ≤ 127 := by omega
        nlinarith
      have bound : 2 ^ (7 * (k + 1)) ≤ 2 ^ 64 := Nat.pow_le_pow_right (by decide) (by omega)
      rw [Nat.mod_eq_of_lt (by omega)] at joins
      have shifted : UInt8.ofNat (7 * k) + 7 = UInt8.ofNat (7 * (k + 1)) := by
        rw [show 7 * (k + 1) = 7 * k + 7 by omega,UInt8.ofNat_add]
        rfl
      have sum : result.toNat + 2 ^ (7 * k) * (byte.toNat % 128) +
          2 ^ (7 * (k + 1)) * payload (rest.take (j + 1)) =
            result.toNat + 2 ^ (7 * k) * payload ((byte::rest).take (j + 1 + 1)) := by
        rw [List.take_succ_cons,payload,show 7 * (k + 1) = 7 * k + 7 by omega,Nat.pow_add]
        ring
      rw [if_neg (fun none => final ((ends_iff byte).mpr none)),shifted,
        ih j (k + 1) _ (by omega) (joins ▸ room) later,joins,sum]
      rfl

theorem decodeLoop_refuses (data : Bytes) (k : Nat) (result : UInt64) (few : k ≤ 10)
    (late : ∀ i, last data = some i → 10 ≤ k + i) :
    ∃ e, decodeLoop result (UInt8.ofNat (7 * k)) data = .error e ∧ e.code = .corruption := by
  induction data generalizing k result with
  | nil => exact ⟨_,rfl,rfl⟩
  | cons byte rest ih =>
    rw [decodeLoop]
    by_cases full : k = 10
    · subst full
      exact ⟨_,if_pos (by decide),rfl⟩
    · have unfinished : ¬ends byte = true := by
        intro final
        have := late 0 (by rw [last_cons,if_pos final])
        omega
      have shifted : UInt8.ofNat (7 * k) + 7 = UInt8.ofNat (7 * (k + 1)) := by
        rw [show 7 * (k + 1) = 7 * k + 7 by omega,UInt8.ofNat_add]
        rfl
      rw [if_neg (shift_fits (7 * k) (by omega))]
      dsimp only
      rw [if_neg (fun none => unfinished ((ends_iff byte).mpr none)),shifted]
      refine ih (k + 1) _ (by omega) fun i found => ?_
      have := late (i + 1) (by rw [last_cons,if_neg unfinished,found]; rfl)
      omega

/-- A number of ten bytes at most comes back in its lowest 64 bits, with what stands behind it. -/
theorem decode_ends (data : Bytes) (i : Nat) (found : last data = some i) (few : i ≤ 9) :
    decode data = .ok (UInt64.ofNat (payload (data.take (i + 1))),data.drop (i + 1)) := by
  have whole := decodeLoop_ends data i 0 0 (by omega) Nat.one_pos found
  rw [Nat.mul_zero,Nat.pow_zero,Nat.one_mul] at whole
  rw [decode]
  simpa using whole

/-- What has no end among its first ten bytes is refused. -/
theorem decode_refuses (data : Bytes) (late : ∀ i, last data = some i → 10 ≤ i) :
    ∃ e, decode data = .error e ∧ e.code = .corruption :=
  decodeLoop_refuses data 0 0 (Nat.zero_le _) fun i found => (Nat.zero_add i).symm ▸ late i found

/-- A number of 64 bits stands in front, and `i` is the position of its last byte. -/
def Fits (data : Bytes) (i : Nat) : Prop := last data = some i ∧ spelled data i < 2 ^ 64

/-- Every number of 64 bits is read, however many bytes it takes, and nothing else. -/
def ExactOrRejected (data : Bytes) : Prop :=
  (∀ i, Fits data i → ∃ value, decode data = .ok (value,data.drop (i + 1)) ∧
    value.toNat = spelled data i) ∧
  ((∀ i, ¬Fits data i) → ∃ e, decode data = .error e)

/-- A number of 64 bits in at most ten bytes is read with its value. Bytes without an end among the first
ten are refused. -/
theorem varint_exact (data : Bytes) :
    (∀ i, Fits data i → i ≤ 9 → ∃ value, decode data = .ok (value,data.drop (i + 1)) ∧
      value.toNat = spelled data i) ∧
    ((∀ i, last data = some i → 10 ≤ i) → ∃ e, decode data = .error e ∧ e.code = .corruption) := by
  refine ⟨?_,decode_refuses data⟩
  rintro i ⟨found,fits⟩ few
  refine ⟨_,decode_ends data i found few,?_⟩
  rw [payload_spelled data i found,UInt64.toNat_ofNat']
  exact Nat.mod_eq_of_lt fits

/-- Zero in eleven bytes is refused, and two to the power 64 in ten bytes is read as zero. -/
theorem not_exact_or_rejected :
    ¬ExactOrRejected (List.replicate 10 0x80 ++ [0]) ∧ ¬ExactOrRejected (List.replicate 9 0x80 ++ [2]) := by
  constructor
  · rintro ⟨exact,-⟩
    obtain ⟨value,decodes,-⟩ := exact 10 ⟨by decide,by decide⟩
    have refuses : decode (List.replicate 10 0x80 ++ [0]) = .error ⟨.corruption,"VarInt too long"⟩ := by decide
    rw [refuses] at decodes
    cases decodes
  · rintro ⟨-,rejected⟩
    obtain ⟨e,refuses⟩ := rejected fun i fits => by
      have same : i = 9 := Option.some.inj (fits.1.symm.trans (by decide))
      subst same
      exact absurd fits.2 (by decide)
    have decodes : decode (List.replicate 9 0x80 ++ [2]) = .ok (0,[]) := by decide
    rw [decodes] at refuses
    cases refuses

end LoreDB.Util.VarInt
