import Mathlib.Data.List.Basic

/-! Texts as bytes, and numbers in decimal digits. -/
namespace LoreDB.Library.Decimal

def utf8 (text : String) : List UInt8 := text.toUTF8.data.toList

theorem utf8_append (first second : String) : utf8 (first ++ second) = utf8 first ++ utf8 second := by
  simp [utf8]

/-- Characters below 128 are their own bytes. -/
theorem encode_ascii (text : List Char) (small : ∀ c ∈ text, c.toNat < 128) :
    text.flatMap String.utf8EncodeChar = text.map fun c => UInt8.ofNat c.toNat := by
  induction text with
  | nil => rfl
  | cons c rest ih =>
    have one : c.utf8Size = 1 := by
      rw [Char.utf8Size_eq_one_iff,UInt32.le_iff_toNat_le]
      exact Nat.le_of_lt_succ (small c List.mem_cons_self)
    rw [List.flatMap_cons,List.map_cons,String.utf8EncodeChar_eq_singleton one,
      ih fun d member => small d (List.mem_cons_of_mem c member)]
    rfl

theorem utf8_ascii (text : List Char) (small : ∀ c ∈ text, c.toNat < 128) :
    utf8 (String.ofList text) = text.map fun c => UInt8.ofNat c.toNat := by
  rw [← encode_ascii text small,utf8,String.toUTF8_eq_toByteArray]
  simp [List.utf8Encode]

def digits (n : ℕ) : List UInt8 := utf8 (toString n)

theorem toDigits_bounds (n : ℕ) (c : Char) (member : c ∈ Nat.toDigits 10 n) : 48 ≤ c.toNat ∧ c.toNat ≤ 57 := by
  have digit := Nat.isDigit_of_mem_toDigits (by decide) (by decide) member
  simp only [Char.isDigit,Bool.and_eq_true,decide_eq_true_eq] at digit
  exact digit

theorem digits_map (n : ℕ) : digits n = (Nat.toDigits 10 n).map fun c => UInt8.ofNat c.toNat := by
  rw [digits,Nat.toString_eq_ofList_toDigits]
  refine utf8_ascii _ fun c member => ?_
  have bounds := toDigits_bounds n c member
  omega

theorem digits_bounds (n : ℕ) (b : UInt8) (member : b ∈ digits n) : 48 ≤ b.toNat ∧ b.toNat ≤ 57 := by
  rw [digits_map] at member
  obtain ⟨c,inside,rfl⟩ := List.mem_map.mp member
  have bounds := toDigits_bounds n c inside
  rw [UInt8.toNat_ofNat',Nat.mod_eq_of_lt (by omega)]
  exact bounds

theorem digits_nonempty (n : ℕ) : digits n ≠ [] := by
  rw [digits_map]
  exact fun none => Nat.toDigits_ne_nil (List.map_eq_nil_iff.mp none)

/-- The digits of a number have its value. -/
theorem digits_value (n : ℕ) : (digits n).foldl (fun value digit => 10 * value + (digit.toNat - 48)) 0 = n := by
  have value := Nat.ofDigitChars_ten_toDigits (n := n)
  rw [Nat.ofDigitChars_eq_foldl] at value
  rw [digits_map,List.foldl_map]
  refine Eq.trans (List.foldl_ext _ _ 0 fun value c member => ?_) value
  have bounds := toDigits_bounds n c member
  rw [UInt8.toNat_ofNat',Nat.mod_eq_of_lt (by omega)]
  rfl

end LoreDB.Library.Decimal
