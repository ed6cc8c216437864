import Mathlib.Data.List.Nodup
import Mathlib.Data.List.Pairwise

/-! Trails through a directed multigraph: a node and the edges that lead on from it, each with the
node it leads to. Where every node lists what leaves it, the trails that visit no node twice can be
listed as well, each once. -/
namespace LoreDB.Library

structure Trail (ν ε : Type) where
  start : ν
  steps : List (ε × ν) := []
  deriving DecidableEq

namespace Trail

variable {ν ε : Type}

def nodes (trail : Trail ν ε) : List ν := trail.start :: trail.steps.map Prod.snd

def edges (trail : Trail ν ε) : List ε := trail.steps.map Prod.fst

def last (trail : Trail ν ε) : ν := trail.nodes.getLast (by simp [nodes])

def snoc (trail : Trail ν ε) (step : ε × ν) : Trail ν ε := ⟨trail.start,trail.steps ++ [step]⟩

@[simp] theorem snoc_start (trail : Trail ν ε) (step : ε × ν) : (trail.snoc step).start = trail.start := rfl

@[simp] theorem snoc_steps (trail : Trail ν ε) (step : ε × ν) :
    (trail.snoc step).steps = trail.steps ++ [step] := rfl

@[simp] theorem snoc_nodes (trail : Trail ν ε) (step : ε × ν) :
    (trail.snoc step).nodes = trail.nodes ++ [step.2] := by
  simp [nodes]

@[simp] theorem snoc_edges (trail : Trail ν ε) (step : ε × ν) :
    (trail.snoc step).edges = trail.edges ++ [step.1] := by
  simp [edges]

@[simp] theorem snoc_last (trail : Trail ν ε) (step : ε × ν) : (trail.snoc step).last = step.2 := by
  simp [last]

@[simp] theorem last_nil (start : ν) : (⟨start,[]⟩ : Trail ν ε).last = start := rfl

theorem last_cons (start : ν) (step : ε × ν) (steps : List (ε × ν)) :
    (⟨start,step :: steps⟩ : Trail ν ε).last = (⟨step.2,steps⟩ : Trail ν ε).last := by
  simp [last,nodes]

theorem length_nodes (trail : Trail ν ε) : trail.nodes.length = trail.steps.length + 1 := by
  simp [nodes]

theorem snoc_inj {trail other : Trail ν ε} {step step' : ε × ν} :
    trail.snoc step = other.snoc step' ↔ trail = other ∧ step = step' := by
  obtain ⟨start,steps⟩ := trail
  obtain ⟨start',steps'⟩ := other
  simp only [snoc,mk.injEq,List.append_singleton_inj]
  tauto

/-- Each edge leads on from where the one before it has led. -/
def Leads (r : ν → ε → ν → Prop) : ν → List (ε × ν) → Prop
  | _, [] => True
  | node, step :: steps => r node step.1 step.2 ∧ Leads r step.2 steps

/-- Where edges do not matter, the nodes of a trail tell all of it. -/
theorem leads_isChain (q : ν → ν → Prop) (start : ν) (steps : List (ε × ν)) :
    Leads (fun node _ next => q node next) start steps ↔ (start :: steps.map Prod.snd).IsChain q := by
  induction steps generalizing start with
  | nil => simp [Leads]
  | cons step steps ih => simp [Leads,ih]

theorem nodes_injective : Function.Injective (nodes : Trail ν Unit → List ν) := by
  rintro ⟨start,steps⟩ ⟨start',steps'⟩ same
  obtain ⟨rfl,same⟩ := List.cons.inj same
  have inj : Function.Injective (Prod.snd : Unit × ν → ν) := fun _ _ equal => Prod.ext rfl equal
  have equal : steps = steps' := List.map_injective_iff.mpr inj same
  rw [equal]

/-- Each edge leads on as its own relation says. -/
def LeadsBy : List (ν → ε → ν → Prop) → ν → List (ε × ν) → Prop
  | [], _, [] => True
  | r :: rs, node, step :: steps => r node step.1 step.2 ∧ LeadsBy rs step.2 steps
  | _, _, _ => False

theorem leadsBy_length {rs : List (ν → ε → ν → Prop)} {start : ν} {steps : List (ε × ν)}
    (leads : LeadsBy rs start steps) : steps.length = rs.length := by
  induction rs generalizing start steps with
  | nil =>
    cases steps with
    | nil => rfl
    | cons step steps => exact leads.elim
  | cons r rs ih =>
    cases steps with
    | nil => exact leads.elim
    | cons step steps => exact congrArg Nat.succ (ih leads.2)

theorem leadsBy_snoc (rs : List (ν → ε → ν → Prop)) (r : ν → ε → ν → Prop) (start : ν)
    (steps : List (ε × ν)) : LeadsBy (rs ++ [r]) start steps ↔ ∃ before step, steps = before ++ [step] ∧
      LeadsBy rs start before ∧ r (⟨start,before⟩ : Trail ν ε).last step.1 step.2 := by
  induction rs generalizing start steps with
  | nil =>
    constructor
    · intro leads
      have length := leadsBy_length leads
      obtain ⟨step,rfl⟩ := List.length_eq_one_iff.mp length
      exact ⟨[],step,rfl,trivial,leads.1⟩
    · rintro ⟨before,step,rfl,none,leads⟩
      obtain rfl := List.length_eq_zero_iff.mp (leadsBy_length none)
      exact ⟨leads,trivial⟩
  | cons first rs ih =>
    cases steps with
    | nil => simp [LeadsBy]
    | cons step steps =>
      rw [List.cons_append,LeadsBy,ih]
      constructor
      · rintro ⟨here,before,final,rfl,leads,ends⟩
        exact ⟨step :: before,final,rfl,⟨here,leads⟩,by rwa [last_cons]⟩
      · rintro ⟨before,final,same,leads,ends⟩
        cases before with
        | nil => exact leads.elim
        | cons other before =>
          obtain ⟨rfl,rfl⟩ := List.cons.inj same
          exact ⟨leads.1,before,final,rfl,leads.2,by rwa [last_cons] at ends⟩

/-! Trails that visit no node twice. -/

section Simple

variable [DecidableEq ν] (leaving : ν → List (ε × ν))

def longer (trail : Trail ν ε) : List (Trail ν ε) :=
  ((leaving trail.last).filter fun step => step.2 ∉ trail.nodes).map trail.snoc

/-- The trail itself and what it grows into with so many more steps. -/
def extensions : ℕ → Trail ν ε → List (Trail ν ε)
  | 0, trail => [trail]
  | more + 1, trail => trail :: (trail.longer leaving).flatMap (extensions more)

variable {leaving}

theorem mem_longer (trail other : Trail ν ε) : other ∈ trail.longer leaving ↔
    ∃ step ∈ leaving trail.last, step.2 ∉ trail.nodes ∧ trail.snoc step = other := by
  simp [longer,and_assoc]

theorem extensions_begin (most : ℕ) (trail other : Trail ν ε)
    (member : other ∈ trail.extensions leaving most) :
    other.start = trail.start ∧ trail.steps <+: other.steps := by
  induction most generalizing trail with
  | zero =>
    obtain rfl := List.mem_singleton.mp member
    exact ⟨rfl,List.prefix_rfl⟩
  | succ most ih =>
    rcases List.mem_cons.mp member with rfl | inside
    · exact ⟨rfl,List.prefix_rfl⟩
    · obtain ⟨next,grown,inside⟩ := List.mem_flatMap.mp inside
      obtain ⟨step,-,-,rfl⟩ := (mem_longer trail next).mp grown
      obtain ⟨start,after⟩ := ih _ inside
      exact ⟨start,(List.prefix_append _ _).trans after⟩

theorem mem_extensions (most : ℕ) (trail other : Trail ν ε) (distinct : trail.nodes.Nodup) :
    other ∈ trail.extensions leaving most ↔ ∃ more, other = ⟨trail.start,trail.steps ++ more⟩ ∧
      more.length ≤ most ∧ Leads (fun node edge next => (edge,next) ∈ leaving node) trail.last more ∧
      other.nodes.Nodup := by
  induction most generalizing trail with
  | zero =>
    rw [extensions,List.mem_singleton]
    constructor
    · rintro rfl
      exact ⟨[],by simp,Nat.le_refl _,trivial,distinct⟩
    · rintro ⟨more,rfl,none,-⟩
      obtain rfl := List.length_eq_zero_iff.mp (Nat.le_zero.mp none)
      simp
  | succ most ih =>
    rw [extensions,List.mem_cons,List.mem_flatMap]
    constructor
    · rintro (rfl | ⟨next,grown,inside⟩)
      · exact ⟨[],by simp,Nat.zero_le _,trivial,distinct⟩
      · obtain ⟨step,leaves,fresh,rfl⟩ := (mem_longer trail next).mp grown
        have still : (trail.snoc step).nodes.Nodup := by
          rw [snoc_nodes,← List.concat_eq_append]
          exact distinct.concat fresh
        obtain ⟨more,rfl,few,leads,nodup⟩ := (ih _ still).mp inside
        rw [snoc_last] at leads
        exact ⟨step :: more,by simp,Nat.succ_le_succ few,⟨leaves,leads⟩,nodup⟩
    · rintro ⟨more,rfl,few,leads,nodup⟩
      cases more with
      | nil => exact .inl (by simp)
      | cons step more =>
        obtain ⟨leaves,leads⟩ := leads
        have here : (trail.snoc step).nodes.Nodup := by
          refine nodup.sublist ?_
          simp only [nodes,snoc,List.map_append,List.map_cons,List.map_nil]
          exact List.Sublist.cons_cons _ (List.Sublist.append_left (by simp) _)
        have fresh : step.2 ∉ trail.nodes := by
          rw [snoc_nodes] at here
          exact fun there => (List.disjoint_of_nodup_append here) there (List.mem_singleton_self _)
        refine .inr ⟨trail.snoc step,(mem_longer ..).mpr ⟨step,leaves,fresh,rfl⟩,(ih _ here).mpr ?_⟩
        exact ⟨more,by simp,Nat.le_of_succ_le_succ few,by rwa [snoc_last],nodup⟩

theorem nodup_longer (listed : ∀ node, (leaving node).Nodup) (trail : Trail ν ε) :
    (trail.longer leaving).Nodup :=
  ((listed trail.last).filter _).map fun _ _ same => (snoc_inj.mp same).2

/-- Two extensions of a trail that go on differently stay different. -/
theorem nodup_extensions (listed : ∀ node, (leaving node).Nodup) (most : ℕ) (trail : Trail ν ε) :
    (trail.extensions leaving most).Nodup := by
  induction most generalizing trail with
  | zero => exact List.nodup_singleton _
  | succ most ih =>
    refine List.nodup_cons.mpr ⟨?_,List.nodup_flatMap.mpr ⟨fun next _ => ih next,?_⟩⟩
    · intro inside
      obtain ⟨next,grown,inside⟩ := List.mem_flatMap.mp inside
      obtain ⟨step,-,-,rfl⟩ := (mem_longer trail next).mp grown
      have length := (extensions_begin _ _ _ inside).2.length_le
      rw [snoc_steps,List.length_append,List.length_singleton] at length
      omega
    · refine (nodup_longer listed trail).imp_of_mem fun {first second} one two different => ?_
      obtain ⟨step,-,-,rfl⟩ := (mem_longer ..).mp one
      obtain ⟨step',-,-,rfl⟩ := (mem_longer ..).mp two
      intro other inside inside'
      obtain ⟨rest,same⟩ := (extensions_begin _ _ _ inside).2
      obtain ⟨rest',same'⟩ := (extensions_begin _ _ _ inside').2
      have both := same.trans same'.symm
      simp only [snoc_steps,List.append_assoc,List.singleton_append,List.append_cancel_left_eq,
        List.cons.injEq] at both
      exact different (snoc_inj.mpr ⟨rfl,both.1⟩)

end Simple

end Trail

end LoreDB.Library
