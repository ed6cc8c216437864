import Mathlib.Tactic.Ring
import Mathlib.Algebra.BigOperators.Ring.Finset

/-! Numbers written in bytes of seven bits, the lowest first. The last byte of a number is the first one
whose high bit is clear. -/
namespace LoreDB.Library.Base128

def ends (byte : UInt8) : Bool := decide (byte.toNat < 128)

/-- The number that the low seven bits of some bytes spell. -/
def payload : List UInt8 → ℕ
  | [] => 0
  | byte::rest => byte.toNat % 128 + 128 * payload rest

/-- The position of the last byte of the number in front. -/
def last (data : List UInt8) : Option ℕ := data.findIdx? ends

/-- The number that the bytes up to a position spell. -/
def spelled (data : List UInt8) (i : ℕ) : ℕ :=
  ∑ j ∈ Finset.range (i + 1), (data.getD j 0).toNat % 128 * 2 ^ (7 * j)

theorem payload_sum (bytes : List UInt8) :
    payload bytes = ∑ j ∈ Finset.range bytes.length, (bytes.getD j 0).toNat % 128 * 2 ^ (7 * j) := by
  induction bytes with
  | nil => rfl
  | cons byte rest ih =>
    have later (j : ℕ) : ((byte::rest).getD (j + 1) 0).toNat % 128 * 2 ^ (7 * (j + 1)) =
        128 * ((rest.getD j 0).toNat % 128 * 2 ^ (7 * j)) := by
      rw [List.getD_cons_succ,Nat.mul_add,Nat.pow_add]
      ring
    rw [payload,ih,List.length_cons,Finset.sum_range_succ',Finset.mul_sum]
    simp only [later,List.getD_cons_zero,Nat.mul_zero,Nat.pow_zero,Nat.mul_one]
    exact Nat.add_comm _ _

theorem payload_spelled (data : List UInt8) (i : ℕ) (found : last data = some i) :
    payload (data.take (i + 1)) = spelled data i := by
  obtain ⟨inside,-⟩ := List.findIdx?_eq_some_iff_getElem.mp found
  rw [payload_sum,List.length_take_of_le inside,spelled]
  refine Finset.sum_congr rfl fun j member => ?_
  rw [List.getD_eq_getElem?_getD,List.getElem?_take_of_lt (Finset.mem_range.mp member),
    ← List.getD_eq_getElem?_getD]

theorem last_cons (byte : UInt8) (rest : List UInt8) :
    last (byte::rest) = if ends byte then some 0 else (last rest).map (· + 1) := by
  rw [last,List.findIdx?_cons]
  rfl

end LoreDB.Library.Base128
