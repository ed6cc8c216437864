import Mathlib.Data.List.Basic

/-! Computations over spans that log what they touch. An access is to some elements of a span and names the
number that the span has. Room for elements is asked of an allocator, which throws where it has none. -/
namespace LoreDB.Library.AccessLog

structure Access where
  wanted : ℕ
  there : ℕ
  deriving DecidableEq, Repr

def Access.Inside (access : Access) : Prop := access.wanted ≤ access.there

instance (access : Access) : Decidable access.Inside := inferInstanceAs (Decidable (_ ≤ _))

inductive Ended (ε α : Type) where
  | value (result : α)
  | error (e : ε)
  | thrown
  deriving DecidableEq, Repr

structure Logged (ε α : Type) where
  accesses : List Access := []
  ended : Ended ε α
  deriving DecidableEq, Repr

namespace Logged

variable {ε α β : Type}

def fail (e : ε) : Logged ε α := {ended := .error e}

def access (wanted there : ℕ) : Logged ε Unit := {accesses := [⟨wanted,there⟩], ended := .value ()}

/-- Asks for room for as many elements as are said to follow in a span. -/
def reserve (grants : ℕ → Bool) (wanted there : ℕ) : Logged ε Unit where
  accesses := [⟨wanted,there⟩]
  ended := if grants wanted then .value () else .thrown

def bind (first : Logged ε α) (next : α → Logged ε β) : Logged ε β :=
  match first.ended with
  | .value a => {accesses := first.accesses ++ (next a).accesses, ended := (next a).ended}
  | .error e => {accesses := first.accesses, ended := .error e}
  | .thrown => {accesses := first.accesses, ended := .thrown}

instance : Monad (Logged ε) where
  pure a := {ended := .value a}
  bind := bind

def AllInside (logged : Logged ε α) : Prop := ∀ access ∈ logged.accesses, access.Inside

/-- A logged computation stays inside its spans and ends as a plain one does. -/
structure Follows (logged : Logged ε α) (plain : Except ε α) : Prop where
  inside : logged.AllInside
  value : ∀ a, plain = .ok a → logged.ended = .value a
  error : ∀ e, plain = .error e → logged.ended = .error e

theorem follows_pure (a : α) : Follows (pure a : Logged ε α) (.ok a) where
  inside _ member := absurd member List.not_mem_nil
  value _ same := congrArg Ended.value (Except.ok.inj same)
  error _ absurd := nomatch absurd

theorem follows_fail (e : ε) : Follows (fail e : Logged ε α) (.error e) where
  inside _ member := absurd member List.not_mem_nil
  value _ absurd := nomatch absurd
  error _ same := congrArg Ended.error (Except.error.inj same)

theorem access_inside (wanted there : ℕ) (next : Unit → Logged ε α) :
    (access wanted there >>= next).AllInside ↔ wanted ≤ there ∧ (next ()).AllInside :=
  List.forall_mem_cons

theorem follows_access (wanted there : ℕ) (next : Unit → Logged ε α) (plain : Except ε α)
    (inside : wanted ≤ there) (follows : Follows (next ()) plain) :
    Follows (access wanted there >>= next) plain where
  inside := (access_inside wanted there next).mpr ⟨inside,follows.inside⟩
  value := follows.value
  error := follows.error

theorem reserve_inside (grants : ℕ → Bool) (wanted there : ℕ) (next : Unit → Logged ε α)
    (granted : wanted ≤ there → grants wanted = true) :
    (reserve grants wanted there >>= next).AllInside ↔ wanted ≤ there ∧ (next ()).AllInside := by
  have front : (⟨wanted,there⟩ : Access) ∈ (reserve grants wanted there >>= next).accesses := by
    change _ ∈ (bind (reserve grants wanted there) next).accesses
    unfold bind reserve
    cases grants wanted <;> simp
  constructor
  · intro inside
    have within : wanted ≤ there := inside _ front
    refine ⟨within,fun access member => inside access ?_⟩
    change access ∈ (bind (reserve grants wanted there) next).accesses
    unfold bind reserve
    rw [granted within]
    exact List.mem_cons_of_mem _ member
  · rintro ⟨within,inside⟩ access member
    change access ∈ (bind (reserve grants wanted there) next).accesses at member
    unfold bind reserve at member
    rw [granted within] at member
    rcases List.mem_cons.mp member with rfl | later
    · exact within
    · exact inside access later

theorem follows_reserve (grants : ℕ → Bool) (wanted there : ℕ) (next : Unit → Logged ε α)
    (plain : Except ε α) (granted : grants wanted = true) (within : wanted ≤ there)
    (follows : Follows (next ()) plain) : Follows (reserve grants wanted there >>= next) plain where
  inside := (reserve_inside grants wanted there next fun _ => granted).mpr ⟨within,follows.inside⟩
  value a same := by
    change (bind (reserve grants wanted there) next).ended = _
    unfold bind reserve
    rw [granted]
    exact follows.value a same
  error e same := by
    change (bind (reserve grants wanted there) next).ended = _
    unfold bind reserve
    rw [granted]
    exact follows.error e same

theorem follows_error (first : Logged ε α) (next : α → Logged ε β) (e : ε)
    (start : Follows first (.error e)) : Follows (first >>= next) (.error e) := by
  have ended := start.error e rfl
  have stops : (first >>= next) = {accesses := first.accesses, ended := .error e} := by
    change bind first next = _
    unfold bind
    rw [ended]
  rw [stops]
  exact ⟨start.inside,fun a absurd => (nomatch absurd),fun _ same => congrArg Ended.error (Except.error.inj same)⟩

theorem bind_value (first : Logged ε α) (next : α → Logged ε β) (a : α) (ended : first.ended = .value a) :
    (first >>= next) = {accesses := first.accesses ++ (next a).accesses, ended := (next a).ended} := by
  change bind first next = _
  unfold bind
  rw [ended]

theorem follows_value (first : Logged ε α) (next : α → Logged ε β) (a : α) (plain : Except ε β)
    (start : Follows first (.ok a)) (follows : Follows (next a) plain) : Follows (first >>= next) plain := by
  rw [bind_value first next a (start.value a rfl)]
  refine ⟨fun access member => ?_,follows.value,follows.error⟩
  rcases List.mem_append.mp member with earlier | later
  · exact start.inside access earlier
  · exact follows.inside access later

theorem bind_inside (first : Logged ε α) (next : α → Logged ε β) (inside : (first >>= next).AllInside) :
    first.AllInside := by
  intro access member
  apply inside
  change access ∈ (bind first next).accesses
  unfold bind
  split
  · exact List.mem_append_left _ member
  · exact member
  · exact member

theorem value_inside (first : Logged ε α) (next : α → Logged ε β) (a : α) (ended : first.ended = .value a)
    (inside : (first >>= next).AllInside) : (next a).AllInside := by
  intro access member
  apply inside
  rw [bind_value first next a ended]
  exact List.mem_append_right _ member

theorem follows_map (first : Logged ε α) (f : α → β) (plain : Except ε α) (start : Follows first plain) :
    Follows (first >>= fun a => pure (f a)) (plain.map f) := by
  cases plain with
  | error e => exact follows_error first _ e start
  | ok a => exact follows_value first _ a _ start (follows_pure (f a))

end Logged

end LoreDB.Library.AccessLog
