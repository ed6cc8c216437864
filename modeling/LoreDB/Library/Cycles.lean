import Mathlib.Data.Set.Finite.Basic
import Mathlib.Logic.Relation
import Mathlib.Order.WellFounded
import Mathlib.Data.Fintype.Order

/-! Cycles of a relation whose edges leave finitely many points. A relation that is
redirected at one point can have new cycles only through that point. -/
namespace LoreDB.Library.Cycles
open Relation

variable {α : Type} {edges : α → α → Prop}

def Acyclic (edges : α → α → Prop) : Prop := ∀ x, ¬TransGen edges x x

theorem acyclic_mono {fewer : α → α → Prop} (acyclic : Acyclic edges)
    (sub : ∀ x y, fewer x y → edges x y) : Acyclic fewer :=
  fun x cycle => acyclic x (TransGen.mono sub x x cycle)

/-- The edges that leave one point are replaced by edges to a set of points. -/
def redirect [DecidableEq α] (edges : α → α → Prop) (point : α) (targets : α → Prop) : α → α → Prop :=
  fun x y => if x = point then targets y else edges x y

variable [DecidableEq α]

@[simp] theorem redirect_here (point : α) (targets : α → Prop) (y : α) :
    redirect edges point targets point y ↔ targets y := by
  simp [redirect]

theorem redirect_elsewhere (point : α) (targets : α → Prop) (x y : α) (other : x ≠ point) :
    redirect edges point targets x y ↔ edges x y := by
  simp [redirect,other]

/-- A path over redirected edges is a path of the old relation, or comes by the point. -/
theorem redirected_path (point : α) (targets : α → Prop) (x y : α)
    (path : TransGen (redirect edges point targets) x y) :
    TransGen edges x y ∨ ReflTransGen (redirect edges point targets) x point ∧
      TransGen (redirect edges point targets) point y := by
  induction path with
  | single edge =>
    by_cases here : x = point
    · subst here
      exact .inr ⟨.refl,.single edge⟩
    · exact .inl (.single ((redirect_elsewhere point targets _ _ here).mp edge))
  | @tail y z path edge ih =>
    by_cases here : y = point
    · subst here
      exact .inr ⟨path.to_reflTransGen,.single edge⟩
    · rcases ih with old | ⟨before,after⟩
      · exact .inl (old.tail ((redirect_elsewhere point targets _ _ here).mp edge))
      · exact .inr ⟨before,after.tail edge⟩

theorem redirected_cycle (point : α) (targets : α → Prop) (acyclic : Acyclic edges) (x : α)
    (cycle : TransGen (redirect edges point targets) x x) :
    TransGen (redirect edges point targets) point point := by
  rcases redirected_path point targets x x cycle with old | ⟨before,after⟩
  · exact absurd old (acyclic x)
  · exact after.trans_left before

/-- The first part of a path that returns to a point leaves the point alone. -/
theorem path_before {point x : α} (path : ReflTransGen edges x point) :
    ReflTransGen (fun x y => x ≠ point ∧ edges x y) x point := by
  induction path using ReflTransGen.head_induction_on with
  | refl => exact .refl
  | @head x y edge _ ih =>
    by_cases here : x = point
    · subst here
      exact .refl
    · exact ih.head ⟨here,edge⟩

omit [DecidableEq α] in
theorem path_closed {x y : α} (path : TransGen edges x y) (inside : α → Prop)
    (closed : ∀ x y, inside x → edges x y → inside y) (start : inside x) : inside y := by
  induction path with
  | single edge => exact closed _ _ start edge
  | tail _ edge ih => exact closed _ _ ih edge

omit [DecidableEq α] in
/-- Points that each have an edge to one of them lie on or before a cycle. -/
theorem acyclic_ends (finite : Set.Finite {x | ∃ y, edges x y}) (acyclic : Acyclic edges)
    (members : Set α) (nonempty : members.Nonempty) :
    ∃ x ∈ members, ∀ y ∈ members, ¬edges x y := by
  by_contra every
  push Not at every
  have bounded : members.Finite := finite.subset fun x member => by
    obtain ⟨y,_,edge⟩ := every x member
    exact ⟨y,edge⟩
  have : Finite members := bounded
  let below : members → members → Prop := fun x y => TransGen edges y x
  have : IsTrans members below := ⟨fun _ _ _ first second => second.trans first⟩
  have : Std.Irrefl below := ⟨fun x => acyclic x⟩
  obtain ⟨start,member⟩ := nonempty
  obtain ⟨last,_,least⟩ := (Finite.wellFounded_of_trans_of_irrefl below).has_min Set.univ
    ⟨⟨start,member⟩,trivial⟩
  obtain ⟨next,inside,edge⟩ := every last last.2
  exact least ⟨next,inside⟩ trivial (.single edge)

end LoreDB.Library.Cycles
