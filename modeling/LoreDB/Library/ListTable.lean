import Mathlib.Data.List.AList
import Mathlib.Logic.Function.Basic

/-! Finite tables of lists. A key without an entry has the empty list, but a key with an empty list has an
entry all the same, which counts for the size of the table. -/
namespace LoreDB.Library

abbrev ListTable (κ α : Type) := AList fun _ : κ => List α

namespace ListTable

variable {κ α : Type} [DecidableEq κ]

def listed (key : κ) (table : ListTable κ α) : List α := (table.lookup key).getD []

def size (table : ListTable κ α) : ℕ := table.keys.length

/-- Adds to the list of a key, which gets an entry if it has none. -/
def push (key : κ) (a : α) (table : ListTable κ α) : ListTable κ α := table.insert key (listed key table ++ [a])

/-- Takes elements out of the list of a key, which gets an entry if it has none. -/
def sift (keep : α → Bool) (key : κ) (table : ListTable κ α) : ListTable κ α :=
  table.insert key ((listed key table).filter keep)

/-- Takes elements out of the list of a key that has an entry. -/
def siftEntry (keep : α → Bool) (key : κ) (table : ListTable κ α) : ListTable κ α :=
  if (table.lookup key).isSome then sift keep key table else table

theorem listed_empty (key : κ) : listed key (∅ : ListTable κ α) = [] := by
  rw [listed,AList.lookup_empty,Option.getD_none]

theorem listed_insert (key other : κ) (list : List α) (table : ListTable κ α) :
    listed other (table.insert key list) = Function.update (fun key => listed key table) key list other := by
  rw [Function.update_apply,listed]
  split
  · rename_i same
    rw [same,AList.lookup_insert,Option.getD_some]
  · rename_i apart
    rw [AList.lookup_insert_ne apart,listed]

theorem listed_push (key other : κ) (a : α) (table : ListTable κ α) : listed other (push key a table) =
    Function.update (fun key => listed key table) key (listed key table ++ [a]) other :=
  listed_insert key other _ table

theorem listed_sift (keep : α → Bool) (key other : κ) (table : ListTable κ α) : listed other (sift keep key table) =
    Function.update (fun key => listed key table) key ((listed key table).filter keep) other :=
  listed_insert key other _ table

theorem mem_push (key other : κ) (a b : α) (table : ListTable κ α) (member : b ∈ listed other (push key a table)) :
    b = a ∨ b ∈ listed other table := by
  rw [listed_push,Function.update_apply] at member
  split at member
  · rename_i same
    rcases List.mem_append.mp member with old | new
    · exact .inr (same ▸ old)
    · exact .inl (List.mem_singleton.mp new)
  · exact .inr member

theorem mem_sift (keep : α → Bool) (key other : κ) (b : α) (table : ListTable κ α)
    (member : b ∈ listed other (sift keep key table)) : b ∈ listed other table := by
  rw [listed_sift,Function.update_apply] at member
  split at member
  · rename_i same
    exact same ▸ (List.mem_filter.mp member).1
  · exact member

end ListTable

end LoreDB.Library
