import LoreDB.Library.ParseTree
import Mathlib.Data.Nat.Find

/-! Parsing expression grammars and their parse trees. Every rule that matches leaves a node with the
text it matched and the nodes left inside it. A grammar without left recursion, and without a
repetition that may match nothing, ends on every input. -/
namespace LoreDB.Library

variable {R α : Type}

/-- A labelled expression leaves a node as a rule does. What is demanded and not there ends the
whole parse. -/
inductive Peg (R α : Type) where
  | one (accepts : α → Bool)
  | empty
  | eof
  | seq (first second : Peg R α)
  | sor (first second : Peg R α)
  | star (repeated : Peg R α)
  | notAt (refused : Peg R α)
  | must (demanded : Peg R α)
  | rule (name : R)
  | labelled (label : R) (inner : Peg R α)

namespace Peg

inductive Outcome (R α : Type) where
  | matched (trees : List (Tree R α)) (rest : List α)
  | failed
  | thrown

def Outcome.after (before : List (Tree R α)) : Outcome R α → Outcome R α
  | .matched trees rest => .matched (before ++ trees) rest
  | other => other

def Outcome.under (label : R) (input : List α) : Outcome R α → Outcome R α
  | .matched trees rest => .matched [.node label (input.take (input.length - rest.length)) trees] rest
  | other => other

/-- The tree of a match that leaves one. -/
def Outcome.only : Outcome R α → Option (Tree R α)
  | .matched [tree] _ => some tree
  | _ => none

def all : List (Peg R α) → Peg R α
  | [] => .empty
  | e :: es => .seq e (all es)

def first : List (Peg R α) → Peg R α
  | [] => .notAt .empty
  | [e] => e
  | e :: es => .sor e (first es)

def opt (e : Peg R α) : Peg R α := .sor e .empty

def plus (e : Peg R α) : Peg R α := .seq e (.star e)

def list (e separator : Peg R α) : Peg R α := .seq e (.star (.seq separator e))

/-- Everything before the first place where the end matches, and the end. -/
def upTo (last : Peg R α) : Peg R α := .seq (.star (.seq (.notAt last) (.one fun _ => true))) last

variable (body : R → Peg R α)

def run : ℕ → Peg R α → List α → Option (Outcome R α)
  | 0, _, _ => none
  | _ + 1, .one accepts, input =>
    match input with
    | [] => some .failed
    | a :: rest => if accepts a then some (.matched [] rest) else some .failed
  | _ + 1, .empty, input => some (.matched [] input)
  | _ + 1, .eof, input => if input.isEmpty then some (.matched [] input) else some .failed
  | fuel + 1, .seq e f, input =>
    match run fuel e input with
    | some (.matched trees rest) => (run fuel f rest).map (Outcome.after trees)
    | other => other
  | fuel + 1, .sor e f, input =>
    match run fuel e input with
    | some .failed => run fuel f input
    | other => other
  | fuel + 1, .star e, input =>
    match run fuel e input with
    | some (.matched trees rest) => (run fuel (.star e) rest).map (Outcome.after trees)
    | some .failed => some (.matched [] input)
    | other => other
  | fuel + 1, .notAt e, input =>
    match run fuel e input with
    | some (.matched _ _) => some .failed
    | some .failed => some (.matched [] input)
    | other => other
  | fuel + 1, .must e, input =>
    match run fuel e input with
    | some .failed => some .thrown
    | other => other
  | fuel + 1, .rule name, input => (run fuel (body name) input).map (Outcome.under name input)
  | fuel + 1, .labelled label e, input => (run fuel e input).map (Outcome.under label input)

section Rounds

variable (fuel : ℕ) (e f : Peg R α) (input : List α)

@[simp] theorem run_zero : run body 0 e input = none := rfl

theorem run_one_cons (accepts : α → Bool) (a : α) : run body (fuel + 1) (.one accepts) (a::input) =
    if accepts a then some (.matched [] input) else some .failed := rfl

theorem run_eof : run body (fuel + 1) .eof input =
    if input.isEmpty then some (.matched [] input) else some .failed := rfl

theorem run_seq : run body (fuel + 1) (.seq e f) input =
    match run body fuel e input with
    | some (.matched trees rest) => (run body fuel f rest).map (Outcome.after trees)
    | other => other := rfl

theorem run_sor : run body (fuel + 1) (.sor e f) input =
    match run body fuel e input with
    | some .failed => run body fuel f input
    | other => other := rfl

theorem run_star : run body (fuel + 1) (.star e) input =
    match run body fuel e input with
    | some (.matched trees rest) => (run body fuel (.star e) rest).map (Outcome.after trees)
    | some .failed => some (.matched [] input)
    | other => other := rfl

theorem run_notAt : run body (fuel + 1) (.notAt e) input =
    match run body fuel e input with
    | some (.matched _ _) => some .failed
    | some .failed => some (.matched [] input)
    | other => other := rfl

theorem run_must : run body (fuel + 1) (.must e) input =
    match run body fuel e input with
    | some .failed => some .thrown
    | other => other := rfl

theorem run_rule (name : R) : run body (fuel + 1) (.rule name) input =
    (run body fuel (body name) input).map (Outcome.under name input) := rfl

theorem run_labelled (label : R) : run body (fuel + 1) (.labelled label e) input =
    (run body fuel e input).map (Outcome.under label input) := rfl

end Rounds

/-- What an expression can match, where the choices and the looks ahead are left open. -/
inductive Derives : Peg R α → List α → List (Tree R α) → Prop where
  | one {accepts : α → Bool} {a : α} : accepts a = true → Derives (.one accepts) [a] []
  | empty : Derives .empty [] []
  | eof : Derives .eof [] []
  | seq {e f : Peg R α} {text text' : List α} {trees trees' : List (Tree R α)} :
    Derives e text trees → Derives f text' trees' → Derives (.seq e f) (text ++ text') (trees ++ trees')
  | sorLeft {e f : Peg R α} {text : List α} {trees : List (Tree R α)} :
    Derives e text trees → Derives (.sor e f) text trees
  | sorRight {e f : Peg R α} {text : List α} {trees : List (Tree R α)} :
    Derives f text trees → Derives (.sor e f) text trees
  | starDone {e : Peg R α} : Derives (.star e) [] []
  | starMore {e : Peg R α} {text text' : List α} {trees trees' : List (Tree R α)} :
    Derives e text trees → Derives (.star e) text' trees' →
      Derives (.star e) (text ++ text') (trees ++ trees')
  | notAt {e : Peg R α} : Derives (.notAt e) [] []
  | must {e : Peg R α} {text : List α} {trees : List (Tree R α)} :
    Derives e text trees → Derives (.must e) text trees
  | rule {name : R} {text : List α} {trees : List (Tree R α)} :
    Derives (body name) text trees → Derives (.rule name) text [.node name text trees]
  | labelled {label : R} {e : Peg R α} {text : List α} {trees : List (Tree R α)} :
    Derives e text trees → Derives (.labelled label e) text [.node label text trees]

variable {body}

/-! More fuel gives the same outcome, and an outcome that matches is a derivation. -/

theorem run_mono {fuel more : ℕ} (enough : fuel ≤ more) (e : Peg R α) (input : List α)
    (outcome : Outcome R α) (ran : run body fuel e input = some outcome) :
    run body more e input = some outcome := by
  induction fuel generalizing more e input outcome with
  | zero => simp at ran
  | succ fuel ih =>
    obtain ⟨more,rfl⟩ : ∃ n, more = n + 1 := ⟨more - 1,by omega⟩
    have later := @ih more (by omega)
    cases e with
    | one accepts => exact ran
    | empty => exact ran
    | eof => exact ran
    | seq e f =>
      simp only [run_seq] at ran ⊢
      cases h : run body fuel e input with
      | none => simp [h] at ran
      | some result =>
        rw [later e input result h]
        rw [h] at ran
        cases result with
        | matched trees rest =>
          simp only [Option.map_eq_some_iff] at ran ⊢
          obtain ⟨next,second,same⟩ := ran
          exact ⟨next,later f rest next second,same⟩
        | failed => exact ran
        | thrown => exact ran
    | sor e f =>
      simp only [run_sor] at ran ⊢
      cases h : run body fuel e input with
      | none => simp [h] at ran
      | some result =>
        rw [later e input result h]
        rw [h] at ran
        cases result with
        | matched trees rest => exact ran
        | failed => exact later f input outcome ran
        | thrown => exact ran
    | star e =>
      simp only [run_star] at ran ⊢
      cases h : run body fuel e input with
      | none => simp [h] at ran
      | some result =>
        rw [later e input result h]
        rw [h] at ran
        cases result with
        | matched trees rest =>
          simp only [Option.map_eq_some_iff] at ran ⊢
          obtain ⟨next,second,same⟩ := ran
          exact ⟨next,later (.star e) rest next second,same⟩
        | failed => exact ran
        | thrown => exact ran
    | notAt e | must e =>
      simp only [run_notAt,run_must] at ran ⊢
      cases h : run body fuel e input with
      | none => simp [h] at ran
      | some result =>
        rw [later e input result h]
        rw [h] at ran
        exact ran
    | rule name | labelled label e =>
      simp only [run_rule,run_labelled,Option.map_eq_some_iff] at ran ⊢
      obtain ⟨next,inner,same⟩ := ran
      exact ⟨next,later _ input next inner,same⟩

theorem run_derives {fuel : ℕ} (e : Peg R α) (input rest : List α) (trees : List (Tree R α))
    (ran : run body fuel e input = some (.matched trees rest)) :
    ∃ text, input = text ++ rest ∧ Derives body e text trees := by
  induction fuel generalizing e input rest trees with
  | zero => simp at ran
  | succ fuel ih =>
    cases e with
    | one accepts =>
      cases input with
      | nil => cases ran
      | cons a input =>
        simp only [run_one_cons] at ran
        split at ran
        · rename_i accepted
          cases ran
          exact ⟨[a],rfl,.one accepted⟩
        · simp at ran
    | empty =>
      cases ran
      exact ⟨[],rfl,.empty⟩
    | eof =>
      simp only [run_eof] at ran
      split at ran
      · cases ran
        exact ⟨[],rfl,.eof⟩
      · simp at ran
    | seq e f =>
      simp only [run_seq] at ran
      split at ran
      · rename_i before middle left
        obtain ⟨next,right,same⟩ := Option.map_eq_some_iff.mp ran
        cases next with
        | matched after rest' =>
          cases same
          obtain ⟨text,rfl,one⟩ := ih e input middle before left
          obtain ⟨text',rfl,two⟩ := ih f middle rest after right
          exact ⟨text ++ text',(List.append_assoc ..).symm,.seq one two⟩
        | failed => cases same
        | thrown => cases same
      · rename_i other
        exact absurd ran (other trees rest)
    | sor e f =>
      simp only [run_sor] at ran
      split at ran
      · obtain ⟨text,same,two⟩ := ih f input rest trees ran
        exact ⟨text,same,.sorRight two⟩
      · obtain ⟨text,same,one⟩ := ih e input rest trees ran
        exact ⟨text,same,.sorLeft one⟩
    | star e =>
      simp only [run_star] at ran
      split at ran
      · rename_i before middle left
        obtain ⟨next,right,same⟩ := Option.map_eq_some_iff.mp ran
        cases next with
        | matched after rest' =>
          cases same
          obtain ⟨text,rfl,one⟩ := ih e input middle before left
          obtain ⟨text',rfl,two⟩ := ih (.star e) middle rest after right
          exact ⟨text ++ text',(List.append_assoc ..).symm,.starMore one two⟩
        | failed => cases same
        | thrown => cases same
      · cases ran
        exact ⟨[],rfl,.starDone⟩
      · rename_i other _
        exact absurd ran (other trees rest)
    | notAt e =>
      simp only [run_notAt] at ran
      split at ran
      · simp at ran
      · cases ran
        exact ⟨[],rfl,.notAt⟩
      · rename_i other _
        exact absurd ran (other trees rest)
    | must e =>
      simp only [run_must] at ran
      split at ran
      · simp at ran
      · obtain ⟨text,same,one⟩ := ih e input rest trees ran
        exact ⟨text,same,.must one⟩
    | rule name | labelled label e =>
      simp only [run_rule,run_labelled] at ran
      obtain ⟨next,inner,same⟩ := Option.map_eq_some_iff.mp ran
      cases next with
      | matched within rest' =>
        simp only [Outcome.under,Outcome.matched.injEq] at same
        obtain ⟨rfl,rfl⟩ := same
        obtain ⟨text,rfl,derived⟩ := ih _ input rest' within inner
        refine ⟨text,rfl,?_⟩
        rw [List.length_append,Nat.add_sub_cancel,List.take_left]
        constructor
        exact derived
      | failed => cases same
      | thrown => cases same

/-! What a derivation of each form is made of. -/

section Forms

variable {text : List α} {trees : List (Tree R α)}

@[simp] theorem derives_one (accepts : α → Bool) :
    Derives body (.one accepts) text trees ↔ ∃ a, accepts a = true ∧ text = [a] ∧ trees = [] := by
  constructor
  · rintro ⟨⟩
    exact ⟨_,‹_›,rfl,rfl⟩
  · rintro ⟨a,accepted,rfl,rfl⟩
    exact .one accepted

@[simp] theorem derives_empty : Derives body .empty text trees ↔ text = [] ∧ trees = [] := by
  constructor
  · rintro ⟨⟩
    exact ⟨rfl,rfl⟩
  · rintro ⟨rfl,rfl⟩
    exact .empty

@[simp] theorem derives_eof : Derives body .eof text trees ↔ text = [] ∧ trees = [] := by
  constructor
  · rintro ⟨⟩
    exact ⟨rfl,rfl⟩
  · rintro ⟨rfl,rfl⟩
    exact .eof

theorem derives_seq (e f : Peg R α) : Derives body (.seq e f) text trees ↔
    ∃ before after first second, text = before ++ after ∧ trees = first ++ second ∧
      Derives body e before first ∧ Derives body f after second := by
  constructor
  · rintro ⟨⟩
    exact ⟨_,_,_,_,rfl,rfl,‹_›,‹_›⟩
  · rintro ⟨before,after,first,second,rfl,rfl,one,two⟩
    exact .seq one two

@[simp] theorem derives_sor (e f : Peg R α) : Derives body (.sor e f) text trees ↔
    Derives body e text trees ∨ Derives body f text trees := by
  constructor
  · intro derived
    cases derived with
    | sorLeft one => exact .inl one
    | sorRight two => exact .inr two
  · rintro (one | two)
    · exact .sorLeft one
    · exact .sorRight two

@[simp] theorem derives_notAt (e : Peg R α) :
    Derives body (.notAt e) text trees ↔ text = [] ∧ trees = [] := by
  constructor
  · rintro ⟨⟩
    exact ⟨rfl,rfl⟩
  · rintro ⟨rfl,rfl⟩
    exact .notAt

@[simp] theorem derives_must (e : Peg R α) :
    Derives body (.must e) text trees ↔ Derives body e text trees := by
  constructor
  · rintro ⟨⟩
    assumption
  · exact .must

@[simp] theorem derives_rule (name : R) : Derives body (.rule name) text trees ↔
    ∃ children, trees = [.node name text children] ∧ Derives body (body name) text children := by
  constructor
  · rintro ⟨⟩
    exact ⟨_,rfl,‹_›⟩
  · rintro ⟨children,rfl,within⟩
    exact .rule within

@[simp] theorem derives_labelled (label : R) (e : Peg R α) :
    Derives body (.labelled label e) text trees ↔
      ∃ children, trees = [.node label text children] ∧ Derives body e text children := by
  constructor
  · rintro ⟨⟩
    exact ⟨_,rfl,‹_›⟩
  · rintro ⟨children,rfl,within⟩
    exact .labelled within

@[simp] theorem derives_opt (e : Peg R α) : Derives body (opt e) text trees ↔
    Derives body e text trees ∨ text = [] ∧ trees = [] := by
  simp [opt]

@[simp] theorem derives_all_nil :
    Derives body (all []) text trees ↔ text = [] ∧ trees = [] := derives_empty

theorem derives_all_cons (e : Peg R α) (es : List (Peg R α)) : Derives body (all (e :: es)) text trees ↔
    ∃ before after first second, text = before ++ after ∧ trees = first ++ second ∧
      Derives body e before first ∧ Derives body (all es) after second :=
  derives_seq e (all es)

@[simp] theorem derives_all_one (accepts : α → Bool) (es : List (Peg R α)) :
    Derives body (all (.one accepts :: es)) text trees ↔
      ∃ a after, text = a :: after ∧ accepts a = true ∧ Derives body (all es) after trees := by
  rw [derives_all_cons]
  constructor
  · rintro ⟨before,after,first,second,rfl,rfl,one,rest⟩
    obtain ⟨a,accepted,rfl,rfl⟩ := (derives_one ..).mp one
    exact ⟨a,after,rfl,accepted,rest⟩
  · rintro ⟨a,after,rfl,accepted,rest⟩
    exact ⟨[a],after,[],trees,rfl,rfl,.one accepted,rest⟩

@[simp] theorem derives_all_rule (name : R) (es : List (Peg R α)) :
    Derives body (all (.rule name :: es)) text trees ↔
      ∃ before after children rest, text = before ++ after ∧
        trees = .node name before children :: rest ∧ Derives body (body name) before children ∧
        Derives body (all es) after rest := by
  rw [derives_all_cons]
  constructor
  · rintro ⟨before,after,first,second,rfl,rfl,one,rest⟩
    obtain ⟨children,rfl,within⟩ := (derives_rule ..).mp one
    exact ⟨before,after,children,second,rfl,rfl,within,rest⟩
  · rintro ⟨before,after,children,second,rfl,rfl,within,rest⟩
    exact ⟨before,after,_,second,rfl,rfl,.rule within,rest⟩

@[simp] theorem derives_all_labelled (label : R) (e : Peg R α) (es : List (Peg R α)) :
    Derives body (all (.labelled label e :: es)) text trees ↔
      ∃ before after children rest, text = before ++ after ∧
        trees = .node label before children :: rest ∧ Derives body e before children ∧
        Derives body (all es) after rest := by
  rw [derives_all_cons]
  constructor
  · rintro ⟨before,after,first,second,rfl,rfl,one,rest⟩
    obtain ⟨children,rfl,within⟩ := (derives_labelled ..).mp one
    exact ⟨before,after,children,second,rfl,rfl,within,rest⟩
  · rintro ⟨before,after,children,second,rfl,rfl,within,rest⟩
    exact ⟨before,after,_,second,rfl,rfl,.labelled within,rest⟩

/-- A repetition holds what each of its rounds holds. -/
theorem star_rounds {e : Peg R α} (property : List α → List (Tree R α) → Prop)
    (done : property [] [])
    (more : ∀ text trees text' trees', Derives body e text trees → property text' trees' →
      property (text ++ text') (trees ++ trees'))
    (derived : Derives body (.star e) text trees) : property text trees := by
  generalize same : Peg.star e = repeated at derived
  induction derived with
  | starDone => exact done
  | starMore one _ _ ih =>
    cases same
    exact more _ _ _ _ one (ih rfl)
  | _ => cases same

/-- The rounds of a repetition, visited one after the other. -/
theorem star_visits {S ε : Type} {act : R → List α → List (Tree R α) → S → Except ε S} {e : Peg R α}
    (relation : List (Tree R α) → S → S → Prop) (done : ∀ s, relation [] s s)
    (more : ∀ trees trees' s middle s', relation trees s middle → relation trees' middle s' →
      relation (trees ++ trees') s s')
    (round : ∀ text trees s s', Derives body e text trees → Tree.visitAll act trees s = .ok s' →
      relation trees s s')
    (derived : Derives body (.star e) text trees) (s s' : S)
    (visited : Tree.visitAll act trees s = .ok s') : relation trees s s' := by
  revert s
  refine star_rounds (fun _ trees => ∀ s, Tree.visitAll act trees s = .ok s' →
    relation trees s s') ?_ ?_ derived
  · intro s visited
    rw [Tree.visitAll_nil] at visited
    exact visited ▸ done s
  · intro text trees text' trees' one rest s visited
    obtain ⟨middle,first,second⟩ := (Tree.visitAll_append ..).mp visited
    exact more _ _ _ _ _ (round _ _ _ _ one first) (rest middle second)

/-- The elements of a list, where a separator says nothing. -/
theorem list_visits {S ε : Type} {act : R → List α → List (Tree R α) → S → Except ε S}
    {e separator : Peg R α} (relation : List (Tree R α) → S → S → Prop) (done : ∀ s, relation [] s s)
    (more : ∀ trees trees' s middle s', relation trees s middle → relation trees' middle s' →
      relation (trees ++ trees') s s')
    (element : ∀ text trees s s', Derives body e text trees → Tree.visitAll act trees s = .ok s' →
      relation trees s s')
    (between : ∀ text trees s s', Derives body separator text trees →
      Tree.visitAll act trees s = .ok s' → relation trees s s')
    (derived : Derives body (list e separator) text trees) (s s' : S)
    (visited : Tree.visitAll act trees s = .ok s') : relation trees s s' := by
  obtain ⟨_,_,_,_,-,rfl,first,others⟩ := (derives_seq _ _).mp derived
  obtain ⟨middle,one,rest⟩ := (Tree.visitAll_append ..).mp visited
  refine more _ _ _ _ _ (element _ _ _ _ first one) (star_visits relation done more ?_ others _ _ rest)
  intro text trees s s' round visited
  obtain ⟨_,_,_,_,-,rfl,apart,next⟩ := (derives_seq _ _).mp round
  obtain ⟨middle,one,two⟩ := (Tree.visitAll_append ..).mp visited
  exact more _ _ _ _ _ (between _ _ _ _ apart one) (element _ _ _ _ next two)

end Forms

/-! The labels that an expression can leave. -/

def within (kind : R → Bool) : Peg R α → Bool
  | .one _ | .empty | .eof | .notAt _ => true
  | .seq e f | .sor e f => e.within kind && f.within kind
  | .star e | .must e => e.within kind
  | .rule name => kind name
  | .labelled label e => kind label && e.within kind

/-- The labels that an expression puts on itself, outside the rules that it calls. -/
def labels (kind : R → Bool) : Peg R α → Bool
  | .one _ | .empty | .eof | .rule _ => true
  | .seq e f | .sor e f => e.labels kind && f.labels kind
  | .star e | .must e | .notAt e => e.labels kind
  | .labelled label e => kind label && e.labels kind

theorem derives_within (kind : R → Bool)
    (closed : ∀ name, kind name = true → (body name).within kind = true) {e : Peg R α} {text : List α}
    {trees : List (Tree R α)} (derived : Derives body e text trees) (holds : e.within kind = true) :
    ∀ tree ∈ trees, tree.All kind := by
  induction derived with
  | one | empty | eof | starDone | notAt => simp
  | seq _ _ left right =>
    simp only [within,Bool.and_eq_true] at holds
    intro tree among
    rcases List.mem_append.mp among with before | after
    · exact left holds.1 tree before
    · exact right holds.2 tree after
  | sorLeft _ ih =>
    simp only [within,Bool.and_eq_true] at holds
    exact ih holds.1
  | sorRight _ ih =>
    simp only [within,Bool.and_eq_true] at holds
    exact ih holds.2
  | starMore _ _ left right =>
    intro tree among
    rcases List.mem_append.mp among with before | after
    · exact left holds tree before
    · exact right holds tree after
  | must _ ih => exact ih holds
  | rule _ ih =>
    intro tree among
    obtain rfl := List.mem_singleton.mp among
    exact .node holds (ih (closed _ holds))
  | labelled _ ih =>
    simp only [within,Bool.and_eq_true] at holds
    intro tree among
    obtain rfl := List.mem_singleton.mp among
    exact .node holds.1 (ih holds.2)

/-- Nodes with the other labels come from rules. -/
theorem derives_nodes (kind : R → Bool) (own : ∀ name, (body name).labels kind = true) {e : Peg R α}
    {text : List α} {trees : List (Tree R α)} (derived : Derives body e text trees)
    (holds : e.labels kind = true) : ∀ node ∈ Tree.nodesAll trees, kind node.label = false →
      Derives body (body node.label) node.text node.children := by
  induction derived with
  | one | empty | eof | starDone | notAt => simp
  | seq _ _ left right =>
    simp only [labels,Bool.and_eq_true] at holds
    intro node among
    rw [Tree.nodesAll_append] at among
    exact (List.mem_append.mp among).elim (left holds.1 node) (right holds.2 node)
  | sorLeft _ ih =>
    simp only [labels,Bool.and_eq_true] at holds
    exact ih holds.1
  | sorRight _ ih =>
    simp only [labels,Bool.and_eq_true] at holds
    exact ih holds.2
  | starMore _ _ left right =>
    intro node among
    rw [Tree.nodesAll_append] at among
    exact (List.mem_append.mp among).elim (left holds node) (right holds node)
  | must _ ih => exact ih holds
  | rule within ih =>
    intro node among other
    simp only [Tree.nodesAll_cons,Tree.nodes_node,Tree.nodesAll_nil,List.append_nil,List.mem_cons] at among
    rcases among with rfl | below
    · exact within
    · exact ih (own _) node below other
  | labelled _ ih =>
    simp only [labels,Bool.and_eq_true] at holds
    intro node among other
    simp only [Tree.nodesAll_cons,Tree.nodes_node,Tree.nodesAll_nil,List.append_nil,List.mem_cons] at among
    rcases among with rfl | below
    · rw [Tree.label_node,holds.1] at other
      cases other
    · exact ih holds.2 node below other

/-- One round of fuel more than the parts need. -/
theorem run_step {fuel : ℕ} {e : Peg R α} {input : List α} {outcome : Outcome R α}
    (ran : run body fuel e input = some outcome) (more : ℕ) :
    run body (fuel + more) e input = some outcome :=
  run_mono (Nat.le_add_right ..) e input outcome ran

/-! What an expression gives from what its parts give, for whatever fuel is enough. -/

def Gives (body : R → Peg R α) (e : Peg R α) (input : List α) (outcome : Outcome R α) : Prop :=
  ∃ fuel, run body fuel e input = some outcome

abbrev Fails (body : R → Peg R α) (e : Peg R α) (input : List α) : Prop := Gives body e input .failed

section Steps

variable {e f : Peg R α} {input middle rest : List α} {trees trees' : List (Tree R α)} {outcome : Outcome R α}

theorem gives_one {accepts : α → Bool} {a : α} (accepted : accepts a = true) :
    Gives body (.one accepts) (a::rest) (.matched [] rest) := ⟨1,by rw [run_one_cons,if_pos accepted]⟩

theorem gives_seq (gives : Gives body e input (.matched trees middle)) (next : Gives body f middle outcome) :
    Gives body (.seq e f) input (outcome.after trees) := by
  obtain ⟨fuel,ran⟩ := gives
  obtain ⟨fuel',ran'⟩ := next
  refine ⟨fuel + fuel' + 1,?_⟩
  rw [run_seq,run_step ran fuel']
  exact congrArg (Option.map _) (Nat.add_comm fuel' fuel ▸ run_step ran' fuel)

theorem seq_fails (fails : Fails body e input) : Fails body (.seq e f) input := by
  obtain ⟨fuel,ran⟩ := fails
  exact ⟨fuel + 1,by rw [run_seq,ran]⟩

theorem sor_matches (gives : Gives body e input (.matched trees rest)) :
    Gives body (.sor e f) input (.matched trees rest) := by
  obtain ⟨fuel,ran⟩ := gives
  exact ⟨fuel + 1,by rw [run_sor,ran]⟩

theorem sor_gives (fails : Fails body e input) (gives : Gives body f input outcome) :
    Gives body (.sor e f) input outcome := by
  obtain ⟨fuel,ran⟩ := fails
  obtain ⟨fuel',ran'⟩ := gives
  refine ⟨fuel + fuel' + 1,?_⟩
  rw [run_sor,run_step ran fuel']
  exact Nat.add_comm fuel' fuel ▸ run_step ran' fuel

theorem star_done (fails : Fails body e input) : Gives body (.star e) input (.matched [] input) := by
  obtain ⟨fuel,ran⟩ := fails
  exact ⟨fuel + 1,by rw [run_star,ran]⟩

theorem star_gives (gives : Gives body e input (.matched trees middle))
    (next : Gives body (.star e) middle outcome) : Gives body (.star e) input (outcome.after trees) := by
  obtain ⟨fuel,ran⟩ := gives
  obtain ⟨fuel',ran'⟩ := next
  refine ⟨fuel + fuel' + 1,?_⟩
  rw [run_star,run_step ran fuel']
  exact congrArg (Option.map _) (Nat.add_comm fuel' fuel ▸ run_step ran' fuel)

theorem notAt_passes (fails : Fails body e input) : Gives body (.notAt e) input (.matched [] input) := by
  obtain ⟨fuel,ran⟩ := fails
  exact ⟨fuel + 1,by rw [run_notAt,ran]⟩

theorem notAt_fails (gives : Gives body e input (.matched trees rest)) : Fails body (.notAt e) input := by
  obtain ⟨fuel,ran⟩ := gives
  exact ⟨fuel + 1,by rw [run_notAt,ran]⟩

theorem must_matches (gives : Gives body e input (.matched trees rest)) :
    Gives body (.must e) input (.matched trees rest) := by
  obtain ⟨fuel,ran⟩ := gives
  exact ⟨fuel + 1,by rw [run_must,ran]⟩

theorem rule_gives {name : R} (gives : Gives body (body name) input outcome) :
    Gives body (.rule name) input (outcome.under name input) := by
  obtain ⟨fuel,ran⟩ := gives
  exact ⟨fuel + 1,by rw [run_rule,ran,Option.map_some]⟩

theorem rule_fails {name : R} (fails : Fails body (body name) input) : Fails body (.rule name) input :=
  rule_gives fails

theorem labelled_gives {label : R} (gives : Gives body e input outcome) :
    Gives body (.labelled label e) input (outcome.under label input) := by
  obtain ⟨fuel,ran⟩ := gives
  exact ⟨fuel + 1,by rw [run_labelled,ran,Option.map_some]⟩

end Steps

/-! A grammar ends where every repetition consumes, and a rule called before anything is consumed
ranks below the rule that calls it. -/

def consumes (consuming : R → Bool) : Peg R α → Bool
  | .one _ => true
  | .empty | .eof | .star _ | .notAt _ => false
  | .seq e f => e.consumes consuming || f.consumes consuming
  | .sor e f => e.consumes consuming && f.consumes consuming
  | .must e | .labelled _ e => e.consumes consuming
  | .rule name => consuming name

def guarded (consuming : R → Bool) (rank : R → ℕ) (limit : ℕ) : ℕ → Peg R α → Bool
  | _, .one _ | _, .empty | _, .eof => true
  | bound, .seq e f => e.guarded consuming rank limit bound &&
    f.guarded consuming rank limit (if e.consumes consuming then limit else bound)
  | bound, .sor e f => e.guarded consuming rank limit bound && f.guarded consuming rank limit bound
  | bound, .star e => e.consumes consuming && e.guarded consuming rank limit bound
  | bound, .notAt e | bound, .must e | bound, .labelled _ e => e.guarded consuming rank limit bound
  | bound, .rule name => decide (rank name < bound)

structure Ranking (body : R → Peg R α) where
  consuming : R → Bool
  rank : R → ℕ
  limit : ℕ
  consumed : ∀ name, consuming name = true → (body name).consumes consuming = true
  below : ∀ name, rank name < limit
  guarded : ∀ name, (body name).guarded consuming rank limit (rank name) = true

theorem derives_consumes (consuming : R → Bool)
    (consumed : ∀ name, consuming name = true → (body name).consumes consuming = true)
    {e : Peg R α} {text : List α} {trees : List (Tree R α)} (derived : Derives body e text trees)
    (holds : e.consumes consuming = true) : text ≠ [] := by
  induction derived with
  | one => simp
  | empty | eof | starDone | starMore | notAt => simp [consumes] at holds
  | seq _ _ left right =>
    simp only [consumes,Bool.or_eq_true] at holds
    rcases holds with first | second
    · simp [left first]
    · simp [right second]
  | sorLeft _ ih =>
    simp only [consumes,Bool.and_eq_true] at holds
    exact ih holds.1
  | sorRight _ ih =>
    simp only [consumes,Bool.and_eq_true] at holds
    exact ih holds.2
  | must _ ih | labelled _ ih => exact ih holds
  | rule _ ih => exact ih (consumed _ holds)

theorem guarded_mono (consuming : R → Bool) (rank : R → ℕ) (limit bound bound' : ℕ)
    (le : bound ≤ bound') (e : Peg R α) (holds : e.guarded consuming rank limit bound = true) :
    e.guarded consuming rank limit bound' = true := by
  induction e generalizing bound bound' with
  | one | empty | eof => rfl
  | seq e f left right =>
    simp only [guarded,Bool.and_eq_true] at holds ⊢
    refine ⟨left bound bound' le holds.1,?_⟩
    split
    · rename_i consumes
      simpa [consumes] using holds.2
    · rename_i stays
      exact right bound bound' le (by simpa [stays] using holds.2)
  | sor e f left right =>
    simp only [guarded,Bool.and_eq_true] at holds ⊢
    exact ⟨left bound bound' le holds.1,right bound bound' le holds.2⟩
  | star e ih =>
    simp only [guarded,Bool.and_eq_true] at holds ⊢
    exact ⟨holds.1,ih bound bound' le holds.2⟩
  | notAt e ih | must e ih | labelled _ e ih => exact ih bound bound' le holds
  | rule name =>
    simp only [guarded,decide_eq_true_eq] at holds ⊢
    omega

theorem run_ends (ranking : Ranking body) (e : Peg R α) (bound : ℕ) (le : bound ≤ ranking.limit)
    (guarded : e.guarded ranking.consuming ranking.rank ranking.limit bound = true) (input : List α) :
    ∃ outcome, Gives body e input outcome := by
  -- on the length of the input, then on the bound of the ranks, then on the expression
  induction length : input.length using Nat.strong_induction_on generalizing e bound input with
  | _ length shorter =>
  induction bound using Nat.strong_induction_on generalizing e with
  | _ bound lower =>
  have weaker (f : Peg R α) (input' : List α) (less : input'.length < input.length)
      (guarded : f.guarded ranking.consuming ranking.rank ranking.limit ranking.limit = true) :=
    shorter input'.length (by omega) f ranking.limit le_rfl guarded input' rfl
  induction e with
  | one accepts =>
    cases input with
    | nil => exact ⟨.failed,1,rfl⟩
    | cons a rest =>
      by_cases accepted : accepts a = true
      · exact ⟨_,gives_one accepted⟩
      · exact ⟨.failed,1,by rw [run_one_cons,if_neg accepted]⟩
  | empty => exact ⟨.matched [] input,1,rfl⟩
  | eof =>
    cases input with
    | nil => exact ⟨.matched [] [],1,rfl⟩
    | cons a rest => exact ⟨.failed,1,rfl⟩
  | seq e f left right =>
    simp only [Peg.guarded,Bool.and_eq_true] at guarded
    obtain ⟨outcome,gives⟩ := left guarded.1
    cases outcome with
    | matched trees rest =>
      obtain ⟨fuel,ran⟩ := gives
      obtain ⟨text,same,derived⟩ := run_derives e input rest trees ran
      have ends : ∃ outcome, Gives body f rest outcome := by
        by_cases stays : text = []
        · have still : e.consumes ranking.consuming = false := by
            by_contra consumes
            exact derives_consumes _ ranking.consumed derived (by simpa using consumes) stays
          subst stays
          obtain rfl : input = rest := same
          exact right (by simpa [still] using guarded.2)
        · have some := List.length_pos_iff.mpr stays
          refine weaker f rest (by simp [same,some]) ?_
          have le' : (if e.consumes ranking.consuming then ranking.limit else bound) ≤ ranking.limit := by
            split <;> omega
          exact guarded_mono _ _ _ _ _ le' f guarded.2
      obtain ⟨next,after⟩ := ends
      exact ⟨_,gives_seq ⟨fuel,ran⟩ after⟩
    | failed => exact ⟨.failed,seq_fails gives⟩
    | thrown =>
      obtain ⟨fuel,ran⟩ := gives
      exact ⟨.thrown,fuel + 1,by rw [run_seq,ran]⟩
  | sor e f left right =>
    simp only [Peg.guarded,Bool.and_eq_true] at guarded
    obtain ⟨outcome,gives⟩ := left guarded.1
    obtain ⟨next,other⟩ := right guarded.2
    cases outcome with
    | matched trees rest => exact ⟨_,sor_matches gives⟩
    | failed => exact ⟨next,sor_gives gives other⟩
    | thrown =>
      obtain ⟨fuel,ran⟩ := gives
      exact ⟨.thrown,fuel + 1,by rw [run_sor,ran]⟩
  | star e ih =>
    have both := guarded
    simp only [Peg.guarded,Bool.and_eq_true] at guarded
    obtain ⟨outcome,gives⟩ := ih guarded.2
    cases outcome with
    | matched trees rest =>
      obtain ⟨fuel,ran⟩ := gives
      obtain ⟨text,same,derived⟩ := run_derives e input rest trees ran
      have some := List.length_pos_iff.mpr (derives_consumes _ ranking.consumed derived guarded.1)
      obtain ⟨next,after⟩ := weaker (.star e) rest (by simp [same,some]) (guarded_mono _ _ _ _ _ le _ both)
      exact ⟨_,star_gives ⟨fuel,ran⟩ after⟩
    | failed => exact ⟨_,star_done gives⟩
    | thrown =>
      obtain ⟨fuel,ran⟩ := gives
      exact ⟨.thrown,fuel + 1,by rw [run_star,ran]⟩
  | notAt e ih =>
    obtain ⟨outcome,gives⟩ := ih guarded
    cases outcome with
    | matched trees rest => exact ⟨.failed,notAt_fails gives⟩
    | failed => exact ⟨_,notAt_passes gives⟩
    | thrown =>
      obtain ⟨fuel,ran⟩ := gives
      exact ⟨.thrown,fuel + 1,by rw [run_notAt,ran]⟩
  | must e ih =>
    obtain ⟨outcome,gives⟩ := ih guarded
    cases outcome with
    | matched trees rest => exact ⟨_,must_matches gives⟩
    | failed | thrown =>
      obtain ⟨fuel,ran⟩ := gives
      exact ⟨.thrown,fuel + 1,by rw [run_must,ran]⟩
  | rule name =>
    simp only [Peg.guarded,decide_eq_true_eq] at guarded
    obtain ⟨outcome,gives⟩ := lower (ranking.rank name) guarded (body name) (by omega) (ranking.guarded name)
    exact ⟨_,rule_gives gives⟩
  | labelled label e ih =>
    obtain ⟨outcome,gives⟩ := ih guarded
    exact ⟨_,labelled_gives gives⟩

/-! The parse of a whole input by a grammar that ends. -/

theorem rule_ends (ranking : Ranking body) (name : R) (input : List α) :
    ∃ fuel, (run body fuel (.rule name) input).isSome = true := by
  have guarded : (Peg.rule name : Peg R α).guarded ranking.consuming ranking.rank ranking.limit
      ranking.limit = true := by
    simp [Peg.guarded,ranking.below name]
  obtain ⟨outcome,fuel,ran⟩ := run_ends ranking (.rule name) ranking.limit le_rfl guarded input
  exact ⟨fuel,by simp [ran]⟩

def parse (ranking : Ranking body) (name : R) (input : List α) : Outcome R α :=
  (run body (Nat.find (rule_ends ranking name input)) (.rule name) input).get
    (Nat.find_spec (rule_ends ranking name input))

theorem parse_eq (ranking : Ranking body) (name : R) (input : List α) (fuel : ℕ) (outcome : Outcome R α)
    (ran : run body fuel (.rule name) input = some outcome) : parse ranking name input = outcome := by
  have least : Nat.find (rule_ends ranking name input) ≤ fuel := Nat.find_min' _ (by simp [ran])
  obtain ⟨found,same⟩ := Option.isSome_iff_exists.mp (Nat.find_spec (rule_ends ranking name input))
  have both := run_mono least _ _ _ same
  rw [parse,Option.get_of_eq_some _ same]
  exact Option.some.inj (both.symm.trans ran)

theorem parse_gives (ranking : Ranking body) (name : R) (input : List α) (outcome : Outcome R α)
    (gives : Gives body (.rule name) input outcome) : parse ranking name input = outcome := by
  obtain ⟨fuel,ran⟩ := gives
  exact parse_eq ranking name input fuel outcome ran

theorem parse_derives (ranking : Ranking body) (name : R) (input rest : List α)
    (trees : List (Tree R α)) (parsed : parse ranking name input = .matched trees rest) :
    ∃ text, input = text ++ rest ∧ Derives body (.rule name) text trees := by
  have ran := Option.eq_some_iff_get_eq.mpr ⟨Nat.find_spec (rule_ends ranking name input),parsed⟩
  exact run_derives _ input rest trees ran

end Peg

end LoreDB.Library
