import LoreDB.Library.History

/-! Machines that answer their calls. Where one refines another, every run of allowed calls gets the same
answers from both. -/
namespace LoreDB.Library.Answers
open History

variable {ρ σ τ α : Type}

/-- What a machine does for a call: its answer, and the state it goes on with. -/
abbrev Machine (ρ σ α : Type) := σ → α → ρ × σ

def later (machine : Machine ρ σ α) (state : σ) (call : α) : σ := (machine state call).2

def answers (machine : Machine ρ σ α) : σ → List α → List ρ
  | _, [] => []
  | state, call::rest => (machine state call).1::answers machine (later machine state call) rest

/-- A call that the specification allows gets its answer, and the states stay related. -/
def Refines (related : σ → τ → Prop) (allowed : τ → α → Prop) (machine : Machine ρ σ α)
    (specification : Machine ρ τ α) : Prop :=
  ∀ state model call, related state model → allowed model call →
    (machine state call).1 = (specification model call).1 ∧
      related (later machine state call) (later specification model call)

variable {related : σ → τ → Prop} {allowed : τ → α → Prop} {machine : Machine ρ σ α}
  {specification : Machine ρ τ α}

theorem run_refined (refines : Refines related allowed machine specification) (state : σ) (model : τ)
    (calls : List α) (initially : related state model)
    (guarded : Guarded (later specification) allowed model calls) :
    answers machine state calls = answers specification model calls ∧
      related (run (later machine) state calls) (run (later specification) model calls) := by
  induction calls generalizing state model with
  | nil => exact ⟨rfl,initially⟩
  | cons call rest ih =>
    obtain ⟨same,next⟩ := refines state model call initially guarded.1
    obtain ⟨others,last⟩ := ih _ _ next guarded.2
    exact ⟨by rw [answers,answers,same,others],last⟩

end LoreDB.Library.Answers
