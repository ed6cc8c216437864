import LoreDB.Library.History

/-! Runs of small steps that keep up with runs of whole calls. A small step either takes effect, and then the
abstract state makes one call, or is not noticed. -/
namespace LoreDB.Library.Linearization
open History

variable {σ τ α β : Type} (step : σ → α → σ) (abstractly : τ → β → τ) (effect : σ → α → Option β)

/-- The calls that take effect, in the order in which they do. -/
def linearized : σ → List α → List β
  | _, [] => []
  | state, call::rest => (effect state call).toList ++ linearized (step state call) rest

variable {step abstractly effect}

theorem run_linearized (related : σ → τ → Prop)
    (kept : ∀ state model call, related state model →
      related (step state call) (run abstractly model (effect state call).toList))
    (state : σ) (model : τ) (calls : List α) (initially : related state model) :
    related (run step state calls) (run abstractly model (linearized step effect state calls)) := by
  induction calls generalizing state model with
  | nil => exact initially
  | cons call rest ih =>
    rw [run_cons,linearized,run_append]
    exact ih _ _ (kept state model call initially)

/-- The same where a guard constrains the small steps. -/
theorem guarded_linearized {allowed : σ → α → Prop} (related : σ → τ → Prop)
    (kept : ∀ state model call, allowed state call → related state model →
      related (step state call) (run abstractly model (effect state call).toList))
    (state : σ) (model : τ) (calls : List α) (guarded : Guarded step allowed state calls)
    (initially : related state model) :
    related (run step state calls) (run abstractly model (linearized step effect state calls)) := by
  induction calls generalizing state model with
  | nil => exact initially
  | cons call rest ih =>
    rw [run_cons,linearized,run_append]
    exact ih _ _ guarded.2 (kept state model call guarded.1 initially)

end LoreDB.Library.Linearization
