import LoreDB.Query.Cypher.Ast
import Mathlib.Algebra.GroupWithZero.Nat
import Mathlib.Data.List.Basic

/-! What reading an expression does to the stack of expressions. A variable by itself puts nothing
there, a property access puts its variable there a second time, and a comparison takes whatever the
two topmost expressions are. The expressions that come out as they were written are told by their
form and by the variables on top of the stack. -/
namespace LoreDB.Query.Cypher
open LoreDB.Storage

def Expression.onto : Expression → List Expression → List Expression
  | .literal value, stack => .literal value :: stack
  | .identifier _, stack => stack
  | .propertyAccess entity property, stack => .propertyAccess entity property :: .identifier entity :: stack
  | .comparison left op right, stack =>
    match right.onto (left.onto stack) with
    | second :: first :: rest => .comparison first op second :: rest
    | short => short
  | .logicalAnd left right, stack => right.onto (left.onto stack)
  | .logicalOr left right, stack => right.onto (left.onto stack)
  | .logicalNot operand, stack => operand.onto stack

/-- An expression that comes out as written takes the names of its variables from the stack, the
last one first, or leaves the variable of a property access behind. -/
inductive Profile where
  | takes (names : List Bytes)
  | strays (name : Bytes)
  deriving DecidableEq

namespace Profile

def Fits (stack : List Expression) : Profile → Prop
  | .takes names => names.map Expression.identifier <+: stack
  | .strays _ => True

instance (stack : List Expression) (profile : Profile) : Decidable (profile.Fits stack) := by
  cases profile <;> unfold Fits <;> infer_instance

def rest (stack : List Expression) : Profile → List Expression
  | .takes names => stack.drop names.length
  | .strays name => .identifier name :: stack

end Profile

namespace Expression

/-- A variable on the left needs its name right below what the other side takes. -/
def comparisonProfile (left : Expression) (leftProfile : Option Profile) : Option Profile → Option Profile
  | some (.takes names) =>
    match left with
    | .identifier name => some (.takes (names ++ [name]))
    | _ => if names = [] then leftProfile else none
  | some (.strays stray) => if left = .identifier stray then some (.takes []) else none
  | none => none

def profile : Expression → Option Profile
  | .literal _ => some (.takes [])
  | .propertyAccess entity _ => some (.strays entity)
  | .identifier name => some (.takes [name])
  | .comparison left _ right => comparisonProfile left left.profile right.profile
  | .logicalAnd _ _ | .logicalOr _ _ | .logicalNot _ => none

def Fits (stack : List Expression) (e : Expression) : Prop :=
  ∃ profile, e.profile = some profile ∧ profile.Fits stack

/-- What lies under an expression that comes out as written. -/
def leaves (stack : List Expression) (e : Expression) : List Expression :=
  e.profile.elim stack fun profile => profile.rest stack

theorem comparison_onto (left : Expression) (op : ComparisonOperator) (right first second : Expression)
    (stack rest : List Expression) (operands : right.onto (left.onto stack) = second :: first :: rest) :
    (comparison left op right).onto stack = .comparison first op second :: rest := by
  rw [onto,operands]

theorem onto_profile (e : Expression) (p : Profile) (profiled : e.profile = some p)
    (stack : List Expression) (fits : p.Fits stack) : e.onto stack = e :: p.rest stack := by
  induction e generalizing p stack with
  | literal value | propertyAccess entity property =>
    obtain rfl := Option.some.inj profiled
    rfl
  | identifier name =>
    obtain rfl := Option.some.inj profiled
    obtain ⟨rest,rfl⟩ := fits
    rfl
  | comparison left op right ihLeft ihRight =>
    refine comparison_onto left op right left right stack _ ?_
    rw [profile] at profiled
    cases hr : right.profile with
    | none => simp [hr,comparisonProfile] at profiled
    | some rightProfile =>
      rw [hr] at profiled
      cases rightProfile with
      | strays stray =>
        simp only [comparisonProfile,Option.ite_none_right_eq_some] at profiled
        obtain ⟨rfl,same⟩ := profiled
        obtain rfl := Option.some.inj same
        exact ihRight (.strays stray) hr stack trivial
      | takes names =>
        simp only [comparisonProfile] at profiled
        split at profiled
        · rename_i name
          obtain rfl := Option.some.inj profiled
          obtain ⟨rest,rfl⟩ := fits
          rw [ihRight (.takes names) hr _ ⟨.identifier name :: rest,by simp [onto]⟩]
          simp [onto,Profile.rest,List.drop_append]
        · split at profiled
          · rename_i none
            subst none
            rw [ihLeft p profiled stack fits]
            exact ihRight (.takes []) hr _ (List.nil_prefix)
          · simp at profiled
  | logicalAnd | logicalOr | logicalNot => simp [profile] at profiled

theorem onto_fits (e : Expression) (stack : List Expression) (fits : e.Fits stack) :
    e.onto stack = e :: e.leaves stack := by
  obtain ⟨p,profiled,here⟩ := fits
  rw [onto_profile e p profiled stack here,leaves,profiled,Option.elim_some]

/-! The converse. Stacks never get a connective, and a comparison only for a comparison that was
read. -/

def connective : Expression → Bool
  | .logicalAnd _ _ | .logicalOr _ _ | .logicalNot _ => true
  | _ => false

/-- The comparisons in an expression. -/
def comparisons : Expression → ℕ
  | .comparison left _ right => left.comparisons + right.comparisons + 1
  | .logicalAnd left right | .logicalOr left right => left.comparisons + right.comparisons
  | .logicalNot operand => operand.comparisons
  | _ => 0

def NoConnective (stack : List Expression) : Prop := ∀ e ∈ stack, e.connective = false

theorem onto_noConnective (e : Expression) (stack : List Expression) (none : NoConnective stack) :
    NoConnective (e.onto stack) := by
  induction e generalizing stack with
  | literal value =>
    exact fun e among => (List.mem_cons.mp among).elim (fun same => same ▸ rfl) (none e)
  | propertyAccess entity property =>
    intro e among
    simp only [onto,List.mem_cons] at among
    rcases among with rfl | rfl | among
    · rfl
    · rfl
    · exact none e among
  | identifier name => exact none
  | comparison left op right ihLeft ihRight =>
    have both := ihRight _ (ihLeft stack none)
    rw [onto]
    split
    · rename_i second first rest same
      intro e among
      rcases List.mem_cons.mp among with rfl | among
      · rfl
      · exact both e (by simp [same,among])
    · exact both
  | logicalAnd left right ihLeft ihRight | logicalOr left right ihLeft ihRight =>
    exact ihRight _ (ihLeft stack none)
  | logicalNot operand ih => exact ih stack none

def total (stack : List Expression) : ℕ := (stack.map comparisons).sum

theorem onto_total (e : Expression) (stack : List Expression) :
    total (e.onto stack) ≤ total stack + e.comparisons := by
  induction e generalizing stack with
  | literal value | propertyAccess entity property | identifier name =>
    simp [onto,total,comparisons]
  | comparison left op right ihLeft ihRight =>
    have first := ihLeft stack
    have second := ihRight (left.onto stack)
    rw [onto]
    split
    · rename_i same
      rw [same] at second
      simp only [total,List.map_cons,List.sum_cons,comparisons] at first second ⊢
      omega
    · rename_i short
      simp only [comparisons]
      omega
  | logicalAnd left right ihLeft ihRight | logicalOr left right ihLeft ihRight =>
    have first := ihLeft stack
    have second := ihRight (left.onto stack)
    simp only [onto,comparisons]
    omega
  | logicalNot operand ih => exact ih stack

theorem le_total (e : Expression) (stack : List Expression) (among : e ∈ stack) :
    e.comparisons ≤ total stack := by
  obtain ⟨before,after,rfl⟩ := List.append_of_mem among
  simp only [total,List.map_append,List.sum_append,List.map_cons,List.sum_cons]
  omega

/-- Only a variable can have a name on top of a stack of two. -/
theorem onto_name (e : Expression) (name : Bytes) (stack below : List Expression) (more : below ≠ [])
    (top : e.onto stack = .identifier name :: below) (plain : e.connective = false) :
    ∃ own, e = .identifier own := by
  cases e with
  | literal value | propertyAccess entity property => simp [onto] at top
  | identifier own => exact ⟨own,rfl⟩
  | comparison left op right =>
    rw [onto] at top
    split at top
    · simp at top
    · rename_i short
      obtain ⟨second,rest,rfl⟩ := List.exists_cons_of_ne_nil more
      exact absurd top (short _ second rest)
  | logicalAnd | logicalOr | logicalNot => simp [connective] at plain

/-- The stack below what comes out rules out that the expression was there before; so does a stack
without comparisons. -/
theorem profile_of_onto (e : Expression) (stack below : List Expression) (none : NoConnective stack)
    (fresh : below ≠ [] ∨ total stack = 0) (written : e.onto stack = e :: below) : e.Fits stack := by
  induction e generalizing stack below with
  | literal value => exact ⟨_,rfl,List.nil_prefix⟩
  | propertyAccess entity property => exact ⟨_,rfl,trivial⟩
  | identifier name => exact ⟨_,rfl,⟨below,written.symm⟩⟩
  | comparison left op right ihLeft ihRight =>
    have noneLeft := onto_noConnective left stack none
    have noneRight := onto_noConnective right _ noneLeft
    rw [onto] at written
    split at written
    · rename_i second first rest operands
      simp only [List.cons.injEq,comparison.injEq,true_and] at written
      obtain ⟨⟨rfl,rfl⟩,rfl⟩ := written
      obtain ⟨rightProfile,profiled,fits⟩ :=
        ihRight (first.onto stack) (first :: rest) noneLeft (.inl (by simp)) operands
      have rests := onto_profile second rightProfile profiled (first.onto stack) fits
      rw [operands,List.cons.injEq] at rests
      obtain ⟨-,rests⟩ := rests
      have plain : first.connective = false := noneRight first (by simp [operands])
      cases rightProfile with
      | strays stray =>
        simp only [Profile.rest,List.cons.injEq] at rests
        obtain ⟨rfl,-⟩ := rests
        exact ⟨.takes [],by simp [profile,profiled,comparisonProfile],List.nil_prefix⟩
      | takes names =>
        obtain ⟨tail,same⟩ := fits
        have tail_eq : tail = first :: rest := by
          rw [rests,Profile.rest,← same]
          simp
        rw [tail_eq] at same
        by_cases named : ∃ own, first = .identifier own
        · obtain ⟨own,rfl⟩ := named
          refine ⟨.takes (names ++ [own]),by simp [profile,profiled,comparisonProfile],rest,?_⟩
          rw [List.map_append,List.append_assoc]
          exact same
        · have empty : names = [] := by
            cases names with
            | nil => rfl
            | cons name names =>
              exact absurd (onto_name first name stack _ (by simp) same.symm plain) named
          subst empty
          obtain ⟨leftProfile,profiledLeft,fitsLeft⟩ := ihLeft stack rest none fresh same.symm
          refine ⟨leftProfile,?_,fitsLeft⟩
          rw [profile,profiled]
          cases first with
          | identifier own => exact absurd ⟨own,rfl⟩ named
          | _ => simpa [comparisonProfile] using profiledLeft
    · rename_i short
      have single : below = [] := by
        cases below with
        | nil => rfl
        | cons first rest => exact absurd written (short _ first rest)
      have few := fresh.resolve_left (by simp [single])
      have first := onto_total left stack
      have second := onto_total right (left.onto stack)
      have there := le_total (.comparison left op right) (right.onto (left.onto stack)) (by simp [written])
      simp only [comparisons] at there
      omega
  | logicalAnd left right | logicalOr left right | logicalNot operand =>
    have kept := onto_noConnective _ stack none _ (by rw [written]; exact List.mem_cons_self)
    simp [connective] at kept

/-- A stack without comparisons and connectives. -/
structure Plain (stack : List Expression) : Prop where
  noConnective : NoConnective stack
  noComparison : total stack = 0

theorem Plain.of_each (stack : List Expression)
    (each : ∀ e ∈ stack, e.connective = false ∧ e.comparisons = 0) : Plain stack where
  noConnective e among := (each e among).1
  noComparison := by
    induction stack with
    | nil => rfl
    | cons e stack ih =>
      rw [total,List.map_cons,List.sum_cons,(each e (.head _)).2,Nat.zero_add]
      exact ih fun other among => each other (.tail _ among)

theorem Plain.cons_identifier (name : Bytes) {stack : List Expression} (plain : Plain stack) :
    Plain (.identifier name :: stack) where
  noConnective := by
    rintro e (_ | ⟨_,among⟩)
    · rfl
    · exact plain.noConnective e among
  noComparison := by simpa [total,comparisons] using plain.noComparison

/-- There the form and the names tell the whole story. -/
theorem fits_iff (e : Expression) {stack : List Expression} (plain : Plain stack) :
    (e.onto stack).head? = some e ↔ e.Fits stack := by
  constructor
  · intro top
    obtain ⟨below,same⟩ := List.head?_eq_some_iff.mp top
    exact profile_of_onto e stack below plain.noConnective (.inr plain.noComparison) same
  · intro fits
    rw [onto_fits e stack fits,List.head?_cons]

theorem Plain.drop {stack : List Expression} (plain : Plain stack) (count : ℕ) : Plain (stack.drop count) where
  noConnective e among := plain.noConnective e (List.mem_of_mem_drop among)
  noComparison := by
    have none := plain.noComparison
    have split : total stack = total (stack.take count) + total (stack.drop count) := by
      rw [total,total,total,← List.sum_append,← List.map_append,List.take_append_drop]
    omega

theorem Plain.leaves (e : Expression) {stack : List Expression} (plain : Plain stack) :
    Plain (e.leaves stack) := by
  unfold Expression.leaves
  cases e.profile with
  | none => exact plain
  | some profile =>
    cases profile with
    | takes names => exact plain.drop names.length
    | strays name => exact plain.cons_identifier name

end Expression

/-! The items of a RETURN clause take what is on top, one after the other. An alias is an expression
of its own and comes out instead of what it names. -/

namespace ReturnItem
open Expression

def onto (item : ReturnItem) (stack : List Expression) : List Expression :=
  item.aliasName.elim (item.expression.onto stack) fun name =>
    .identifier name :: item.expression.onto stack

def taken : List ReturnItem → List Expression → List ReturnItem
  | [], _ => []
  | item :: items, stack =>
    ((item.onto stack).head?.map fun e => ⟨e,none⟩).toList ++ taken items (item.onto stack).tail

def leftover (items : List ReturnItem) (stack : List Expression) : List Expression :=
  items.foldl (fun stack item => (item.onto stack).tail) stack

def Fit : List ReturnItem → List Expression → Prop
  | [], _ => True
  | item :: items, stack => item.aliasName = none ∧ item.expression.Fits stack ∧
      Fit items (item.expression.leaves stack)

theorem taken_append (before after : List ReturnItem) (stack : List Expression) :
    taken (before ++ after) stack = taken before stack ++ taken after (leftover before stack) := by
  induction before generalizing stack with
  | nil => rfl
  | cons item items ih =>
    rw [List.cons_append,taken,ih,taken,List.append_assoc]
    rfl

theorem taken_fit (items : List ReturnItem) (stack : List Expression) (fit : Fit items stack) :
    taken items stack = items := by
  induction items generalizing stack with
  | nil => rfl
  | cons item items ih =>
    obtain ⟨plain,fits,rest⟩ := fit
    obtain ⟨e,name⟩ := item
    obtain rfl : name = none := plain
    rw [taken,onto,Option.elim_none,onto_fits e stack fits,List.tail_cons,ih _ rest]
    rfl

theorem taken_length (items : List ReturnItem) (stack : List Expression) :
    (taken items stack).length ≤ items.length := by
  induction items generalizing stack with
  | nil => exact le_rfl
  | cons item items ih =>
    have rest := ih (item.onto stack).tail
    have one := Option.length_toList_le (o := (item.onto stack).head?.map fun e => (⟨e,none⟩ : ReturnItem))
    rw [taken,List.length_append,List.length_cons]
    omega

/-- Every item has to leave one, so each leaves its own. -/
theorem fit_of_taken (items : List ReturnItem) (stack : List Expression) (plain : Plain stack)
    (same : taken items stack = items) : Fit items stack := by
  induction items generalizing stack with
  | nil => trivial
  | cons item items ih =>
    rw [taken] at same
    cases top : (item.onto stack).head? with
    | none =>
      have short := taken_length items (item.onto stack).tail
      rw [top,Option.map_none,Option.toList_none,List.nil_append] at same
      rw [same,List.length_cons] at short
      omega
    | some e =>
      rw [top,Option.map_some,Option.toList_some,List.singleton_append,List.cons.injEq] at same
      obtain ⟨rfl,rest⟩ := same
      have fits := (fits_iff e plain).mp top
      refine ⟨rfl,fits,ih _ (plain.leaves e) ?_⟩
      rwa [onto,Option.elim_none,onto_fits e stack fits,List.tail_cons] at rest

end ReturnItem

end LoreDB.Query.Cypher
