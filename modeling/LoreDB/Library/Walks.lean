import Mathlib.Data.List.Chain
import Mathlib.Order.Lattice.Nat

/-! Walks along a relation, by the nodes they pass, and the number of nodes of a shortest one. Whatever
lies outside of a set is reached through those members of the set that may lead out of it, so a search
that goes on from the nearest of these finds shortest walks. -/
namespace LoreDB.Library

variable {ν : Type} (r : ν → ν → Prop)

structure Walk (start goal : ν) (path : List ν) : Prop where
  starts : path.head? = some start
  ends : path.getLast? = some goal
  joined : path.IsChain r

structure ShortestWalk (start goal : ν) (path : List ν) : Prop where
  walk : Walk r start goal path
  least : ∀ other, Walk r start goal other → path.length ≤ other.length

namespace Walk

variable {r} {start goal node next : ν} {path : List ν}

theorem single (start : ν) : Walk r start start [start] := ⟨rfl,rfl,.singleton start⟩

theorem snoc (walk : Walk r start node path) (leads : r node next) : Walk r start next (path ++ [next]) where
  starts := by
    rw [List.head?_append,walk.starts]
    rfl
  ends := List.getLast?_concat
  joined := by
    refine List.isChain_append.mpr ⟨walk.joined,.singleton next,fun last ends first begins => ?_⟩
    rw [Option.mem_def,walk.ends] at ends
    cases ends
    cases begins
    exact leads

theorem nonempty (walk : Walk r start goal path) : path ≠ [] := by
  rintro rfl
  cases walk.starts

theorem snoc_inv (walk : Walk r start next (path ++ [goal])) : next = goal ∧
    (path = [] ∧ start = goal ∨ ∃ node, Walk r start node path ∧ r node goal) := by
  obtain rfl : next = goal := by
    have ends := walk.ends
    rw [List.getLast?_concat] at ends
    cases ends
    rfl
  refine ⟨rfl,?_⟩
  have joined := List.isChain_append.mp walk.joined
  cases last : path.getLast? with
  | none =>
    obtain rfl := List.getLast?_eq_none_iff.mp last
    cases walk.starts
    exact .inl ⟨rfl,rfl⟩
  | some node =>
    have nonempty : path ≠ [] := by
      rintro rfl
      cases last
    have starts := walk.starts
    rw [List.head?_append_of_ne_nil path nonempty] at starts
    exact .inr ⟨node,⟨starts,last,joined.1⟩,joined.2.2 node last next rfl⟩

/-- Walks grow at their end. -/
theorem induct {motive : ν → List ν → Prop} (single : motive start [start])
    (snoc : ∀ node next path, Walk r start node path → r node next → motive node path →
      motive next (path ++ [next])) (goal : ν) (path : List ν) (walk : Walk r start goal path) :
    motive goal path := by
  induction path using List.reverseRecOn generalizing goal with
  | nil => exact absurd rfl walk.nonempty
  | append_singleton path last ih =>
    obtain ⟨rfl,⟨rfl,rfl⟩ | ⟨node,before,leads⟩⟩ := walk.snoc_inv
    · exact single
    · exact snoc node goal path before leads (ih node before)

/-- A walk that leaves a set does so from a member that may lead out of it. -/
theorem passes (inside pending : ν → Prop) (begins : inside start)
    (closed : ∀ node, inside node → ¬pending node → ∀ next, r node next → inside next)
    (walk : Walk r start goal path) (outside : ¬inside goal) :
    ∃ node, inside node ∧ pending node ∧ ∃ before, Walk r start node before ∧ before.length < path.length := by
  refine induct (motive := fun goal path => ¬inside goal → ∃ node, inside node ∧ pending node ∧
    ∃ before, Walk r start node before ∧ before.length < path.length) (absurd begins) ?_ goal path walk outside
  intro node next path walk leads earlier outside
  by_cases here : inside node
  · refine ⟨node,here,?_,path,walk,by simp⟩
    by_contra settled
    exact outside (closed node here settled next leads)
  · obtain ⟨other,within,may,before,reaches,shorter⟩ := earlier here
    exact ⟨other,within,may,before,reaches,by simpa using Nat.lt_succ_of_lt shorter⟩

end Walk

/-- The number of nodes of a shortest walk. -/
noncomputable def distance (start goal : ν) : ℕ := sInf {length | ∃ path, Walk r start goal path ∧ path.length = length}

section Distances

variable {r} {start goal node next : ν} {path : List ν}

theorem distance_le (walk : Walk r start goal path) : distance r start goal ≤ path.length :=
  Nat.sInf_le ⟨path,walk,rfl⟩

theorem exists_shortest (walk : Walk r start goal path) :
    ∃ path, Walk r start goal path ∧ path.length = distance r start goal :=
  Nat.sInf_mem (s := {length | ∃ path, Walk r start goal path ∧ path.length = length}) ⟨_,path,walk,rfl⟩

theorem shortest_distance (walk : Walk r start goal path) (length : path.length = distance r start goal) :
    ShortestWalk r start goal path := ⟨walk,fun _ other => length ▸ distance_le other⟩

/-- What lies next to the nearest of the nodes that lead out of a set is one step farther off. -/
theorem distance_next (inside pending : ν → Prop) (begins : inside start)
    (closed : ∀ node, inside node → ¬pending node → ∀ next, r node next → inside next)
    (nearest : ∀ other, inside other → pending other → distance r start node ≤ distance r start other)
    (walk : Walk r start node path) (leads : r node next) (outside : ¬inside next) :
    distance r start next = distance r start node + 1 := by
  obtain ⟨short,reaches,length⟩ := exists_shortest walk
  obtain ⟨least,last,whole⟩ := exists_shortest (reaches.snoc leads)
  obtain ⟨other,within,may,before,passed,shorter⟩ := last.passes inside pending begins closed outside
  have above := distance_le passed
  have near := nearest other within may
  have below := distance_le (reaches.snoc leads)
  rw [List.length_append,List.length_singleton] at below
  omega

end Distances

end LoreDB.Library
