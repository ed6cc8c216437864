import Mathlib.Data.BitVec
import Mathlib.Data.List.Basic
import Mathlib.Logic.Function.Basic

/-! Numbers that a 64-bit counter hands out one after the other. -/
namespace LoreDB.Library.Numbering

variable {α β : Type}

/-- The numbers from the next one on. -/
def issued (next : UInt64) (n : ℕ) : List UInt64 := (List.range n).map fun i => next + UInt64.ofNat i

theorem later_number (next : UInt64) (i : ℕ) : next + UInt64.ofNat (i + 1) = next + 1 + UInt64.ofNat i := by
  rw [UInt64.ofNat_add]
  ac_rfl

theorem issued_succ (next : UInt64) (n : ℕ) : issued next (n + 1) = next::issued (next + 1) n := by
  rw [issued,issued,List.range_succ_eq_map,List.map_cons,List.map_map]
  exact List.cons_eq_cons.mpr ⟨UInt64.add_zero next,List.map_congr_left fun i _ => later_number next i⟩

theorem count_toNat {next : UInt64} {n : ℕ} (few : next.toNat + (n + 1) < 2 ^ 64) :
    (next + 1).toNat = next.toNat + 1 := by
  rw [UInt64.toNat_add,UInt64.toNat_one]
  omega

theorem counts_on {next : UInt64} {n : ℕ} (few : next.toNat + (n + 1) < 2 ^ 64) : next + 1 ≠ 0 := by
  intro wraps
  have next := count_toNat few
  rw [wraps] at next
  exact absurd next (Nat.succ_ne_zero _).symm

/-- The table with an entry for every item, under the numbers from the next one on. -/
def numbered (entry : UInt64 → α → β) : UInt64 → List α → (UInt64 → β) → UInt64 → β
  | _, [], table => table
  | next, item::rest, table => numbered entry (next + 1) rest (Function.update table next (entry next item))

variable (entry : UInt64 → α → β)

theorem numbered_below (items : List α) (next : UInt64) (table : UInt64 → β) (id : UInt64)
    (few : next.toNat + items.length < 2 ^ 64) (below : id < next) :
    numbered entry next items table id = table id := by
  induction items generalizing next table with
  | nil => rfl
  | cons item rest ih =>
    have counts := count_toNat few
    rw [List.length_cons] at few
    rw [UInt64.lt_iff_toNat_lt] at below
    have apart : id ≠ next := fun same => by
      rw [same] at below
      omega
    rw [numbered,ih _ _ (by omega) (UInt64.lt_iff_toNat_lt.mpr (by omega)),Function.update_of_ne apart]

theorem numbered_at (items : List α) (next : UInt64) (table : UInt64 → β) (index : ℕ) (item : α)
    (few : next.toNat + items.length < 2 ^ 64) (given : items[index]? = some item) :
    numbered entry next items table (next + UInt64.ofNat index) = entry (next + UInt64.ofNat index) item := by
  induction items generalizing next table index with
  | nil => cases given
  | cons first rest ih =>
    have counts := count_toNat few
    rw [List.length_cons] at few
    cases index with
    | zero =>
      cases given
      have below : next < next + 1 := UInt64.lt_iff_toNat_lt.mpr (by omega)
      rw [show next + UInt64.ofNat 0 = next from UInt64.add_zero next,numbered,
        numbered_below entry rest _ _ _ (by omega) below,Function.update_self]
    | succ index => rw [later_number,numbered,ih _ _ index (by omega) given]

end LoreDB.Library.Numbering
