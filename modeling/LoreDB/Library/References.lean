import Mathlib.Logic.Basic

/-! Links between entries, both under keys of one kind. References are intact while no link leads to an entry
that is not there. -/
namespace LoreDB.Library

structure References (κ : Type) where
  links : κ → κ × κ → Prop
  entries : κ → Prop

namespace References

variable {κ : Type} (references : References κ)

def Intact : Prop :=
  ∀ key ends, references.links key ends → references.entries ends.1 ∧ references.entries ends.2

/-- The link under another key leads to this one. -/
def Attached (key : κ) : Prop :=
  ∃ other ends, other ≠ key ∧ references.links other ends ∧ (ends.1 = key ∨ ends.2 = key)

variable {references}

theorem intact_congr {later : References κ}
    (same_links : ∀ key ends, later.links key ends ↔ references.links key ends)
    (same_entries : ∀ key, later.entries key ↔ references.entries key) : later.Intact ↔ references.Intact := by
  simp only [Intact,same_links,same_entries]

/-- After a change under one key the references stay intact exactly when what leads there still finds an entry,
and the link there leads to entries. -/
theorem intact_changed (key : κ) {later : References κ} (intact : references.Intact)
    (same_links : ∀ other ends, other ≠ key → (later.links other ends ↔ references.links other ends))
    (same_entries : ∀ other, other ≠ key → (later.entries other ↔ references.entries other)) :
    later.Intact ↔ (references.Attached key → later.entries key) ∧
      ∀ ends, later.links key ends → later.entries ends.1 ∧ later.entries ends.2 := by
  constructor
  · intro still
    refine ⟨?_,still key⟩
    rintro ⟨other,ends,apart,linked,here⟩
    have both := still other ends ((same_links other ends apart).mpr linked)
    rcases here with same | same
    · exact same ▸ both.1
    · exact same ▸ both.2
  · rintro ⟨reached,own⟩ other ends linked
    by_cases apart : other = key
    · subst apart
      exact own ends linked
    · have before := (same_links other ends apart).mp linked
      have both := intact other ends before
      constructor
      · by_cases here : ends.1 = key
        · exact here ▸ reached ⟨other,ends,apart,before,.inl here⟩
        · exact (same_entries _ here).mpr both.1
      · by_cases here : ends.2 = key
        · exact here ▸ reached ⟨other,ends,apart,before,.inr here⟩
        · exact (same_entries _ here).mpr both.2

end References

end LoreDB.Library
