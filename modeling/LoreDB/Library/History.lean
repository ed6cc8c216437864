import Mathlib.Data.List.Basic

/-! Runs of a deterministic machine over lists of calls. A guard constrains each
call in the state it is made in, so that legality, side conditions and
invariants are all stated about the same list of calls. -/
namespace LoreDB.Library.History

variable {σ τ α : Type}

def run (step : σ → α → σ) (start : σ) (calls : List α) : σ := calls.foldl step start

def Guarded (step : σ → α → σ) (allowed : σ → α → Prop) : σ → List α → Prop
  | _, [] => True
  | state, call::rest => allowed state call ∧ Guarded step allowed (step state call) rest

/-- A property of every state of a run, its start and end included. -/
def Always (step : σ → α → σ) (holds : σ → Prop) : σ → List α → Prop
  | state, [] => holds state
  | state, call::rest => holds state ∧ Always step holds (step state call) rest

instance decidableGuarded (step : σ → α → σ) (allowed : σ → α → Prop)
    [decide : ∀ state call, Decidable (allowed state call)] :
    (state : σ) → (calls : List α) → Decidable (Guarded step allowed state calls)
  | _, [] => .isTrue trivial
  | state, call::rest =>
    @instDecidableAnd _ _ (decide state call) (decidableGuarded step allowed (step state call) rest)

instance decidableAlways (step : σ → α → σ) (holds : σ → Prop)
    [decide : ∀ state, Decidable (holds state)] :
    (state : σ) → (calls : List α) → Decidable (Always step holds state calls)
  | state, [] => decide state
  | state, call::rest =>
    @instDecidableAnd _ _ (decide state) (decidableAlways step holds (step state call) rest)

section Runs

variable (step : σ → α → σ)

@[simp] theorem run_nil (start : σ) : run step start [] = start := rfl

@[simp] theorem run_cons (start : σ) (call : α) (rest : List α) :
    run step start (call::rest) = run step (step start call) rest := rfl

@[simp] theorem run_append (start : σ) (first second : List α) :
    run step start (first ++ second) = run step (run step start first) second :=
  List.foldl_append

end Runs

variable {step : σ → α → σ} {allowed : σ → α → Prop}

@[simp] theorem guarded_nil (start : σ) : Guarded step allowed start [] := trivial

@[simp] theorem guarded_cons (start : σ) (call : α) (rest : List α) :
    Guarded step allowed start (call::rest) ↔
      allowed start call ∧ Guarded step allowed (step start call) rest := Iff.rfl

@[simp] theorem guarded_append (start : σ) (first second : List α) :
    Guarded step allowed start (first ++ second) ↔
      Guarded step allowed start first ∧ Guarded step allowed (run step start first) second := by
  induction first generalizing start with
  | nil => simp
  | cons call rest ih => simp [ih,and_assoc]

theorem guarded_both {other : σ → α → Prop} (start : σ) (calls : List α) :
    Guarded step (fun state call => allowed state call ∧ other state call) start calls ↔
      Guarded step allowed start calls ∧ Guarded step other start calls := by
  induction calls generalizing start with
  | nil => simp
  | cons call rest ih =>
    simp only [guarded_cons,ih]
    tauto

/-- A guard that looks at the calls alone. -/
theorem guarded_calls (wanted : α → Prop) (start : σ) (calls : List α) :
    Guarded step (fun _ call => wanted call) start calls ↔ ∀ call ∈ calls, wanted call := by
  induction calls generalizing start with
  | nil => simp
  | cons call rest ih => simp [ih]

/-- What holds at the start and survives every allowed call holds after the run. -/
theorem run_preserves (invariant : σ → Prop)
    (preserved : ∀ state call, allowed state call → invariant state → invariant (step state call))
    (start : σ) (calls : List α) (guarded : Guarded step allowed start calls)
    (initially : invariant start) : invariant (run step start calls) := by
  induction calls generalizing start with
  | nil => exact initially
  | cons call rest ih =>
    exact ih (step start call) guarded.2 (preserved start call guarded.1 initially)

theorem run_keeps (invariant : σ → Prop)
    (preserved : ∀ state call, invariant state → invariant (step state call))
    (start : σ) (calls : List α) (initially : invariant start) : invariant (run step start calls) := by
  induction calls generalizing start with
  | nil => exact initially
  | cons call rest ih => exact ih (step start call) (preserved start call initially)

/-- What an invariant and the guard say of each call of a run. -/
theorem guarded_follows {property : σ → α → Prop} (invariant : σ → Prop)
    (preserved : ∀ state call, invariant state → invariant (step state call))
    (follows : ∀ state call, invariant state → allowed state call → property state call)
    (start : σ) (calls : List α) (initially : invariant start)
    (guarded : Guarded step allowed start calls) : Guarded step property start calls := by
  induction calls generalizing start with
  | nil => trivial
  | cons call rest ih =>
    exact ⟨follows start call initially guarded.1,
      ih (step start call) (preserved start call initially) guarded.2⟩

theorem always_start (holds : σ → Prop) (start : σ) (calls : List α)
    (always : Always step holds start calls) : holds start := by
  cases calls with
  | nil => exact always
  | cons call rest => exact always.1

/-- What follows from an invariant holds throughout a run. -/
theorem always_follows {holds : σ → Prop} (invariant : σ → Prop)
    (preserved : ∀ state call, allowed state call → invariant state → invariant (step state call))
    (follows : ∀ state, invariant state → holds state)
    (start : σ) (calls : List α) (guarded : Guarded step allowed start calls)
    (initially : invariant start) : Always step holds start calls := by
  induction calls generalizing start with
  | nil => exact follows start initially
  | cons call rest ih =>
    exact ⟨follows start initially,ih _ guarded.2 (preserved start call guarded.1 initially)⟩

/-- When each allowed call keeps a property exactly under a condition, the property
holds throughout a run exactly if every call meets the condition. -/
theorem always_iff_guarded (invariant holds : σ → Prop) (condition : σ → α → Prop)
    (preserved : ∀ state call, allowed state call → invariant state → invariant (step state call))
    (exact : ∀ state call, allowed state call → invariant state → holds state →
      (holds (step state call) ↔ condition state call))
    (start : σ) (calls : List α) (guarded : Guarded step allowed start calls)
    (initially : invariant start) (base : holds start) :
    Always step holds start calls ↔ Guarded step condition start calls := by
  induction calls generalizing start with
  | nil => exact ⟨fun _ => trivial,fun _ => base⟩
  | cons call rest ih =>
    have next := preserved start call guarded.1 initially
    have kept := exact start call guarded.1 initially base
    constructor
    · rintro ⟨_,always⟩
      have held := always_start holds (step start call) rest always
      exact ⟨kept.mp held,(ih _ guarded.2 next held).mp always⟩
    · rintro ⟨first,others⟩
      exact ⟨base,(ih _ guarded.2 next (kept.mpr first)).mpr others⟩

/-- Two runs stay related when the second one skips the calls that are not kept. -/
theorem run_filtered (related : σ → σ → Prop) (keep : α → Bool)
    (kept : ∀ first second call, allowed first call → related first second →
      keep call = true → related (step first call) (step second call))
    (skipped : ∀ first second call, allowed first call → related first second →
      keep call = false → related (step first call) second)
    (first second : σ) (calls : List α) (guarded : Guarded step allowed first calls)
    (initially : related first second) :
    related (run step first calls) (run step second (calls.filter keep)) := by
  induction calls generalizing first second with
  | nil => exact initially
  | cons call rest ih =>
    cases selected : keep call with
    | true =>
      rw [List.filter_cons_of_pos selected]
      exact ih _ _ guarded.2 (kept first second call guarded.1 initially selected)
    | false =>
      rw [List.filter_cons_of_neg (by simp [selected])]
      exact ih _ _ guarded.2 (skipped first second call guarded.1 initially selected)

end LoreDB.Library.History
