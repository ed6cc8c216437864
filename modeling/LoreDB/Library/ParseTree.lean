import Mathlib.Data.List.Forall2
import Mathlib.Tactic.Common

/-! Trees whose nodes carry a label and the text under them, and the visits of a tree that treat
the children of a node before the node. What no label of a tree touches, no visit changes. -/
namespace LoreDB.Library

variable {R α S ε : Type}

inductive Tree (R α : Type) where
  | node (label : R) (text : List α) (children : List (Tree R α))

namespace Tree

def label : Tree R α → R
  | .node label _ _ => label

def text : Tree R α → List α
  | .node _ text _ => text

def children : Tree R α → List (Tree R α)
  | .node _ _ children => children

@[simp] theorem label_node (label : R) (text : List α) (children : List (Tree R α)) :
    (node label text children).label = label := rfl

@[simp] theorem text_node (label : R) (text : List α) (children : List (Tree R α)) :
    (node label text children).text = text := rfl

@[simp] theorem children_node (label : R) (text : List α) (children : List (Tree R α)) :
    (node label text children).children = children := rfl

theorem induction {property : Tree R α → Prop}
    (step : ∀ label text children, (∀ child ∈ children, property child) →
      property (node label text children)) (tree : Tree R α) : property tree := by
  refine Tree.rec (motive_1 := property) (motive_2 := fun trees => ∀ tree ∈ trees, property tree)
    step ?nil ?cons tree
  case nil => simp
  case cons =>
    intro tree trees first rest tree' among
    rcases List.mem_cons.mp among with rfl | later
    · exact first
    · exact rest tree' later

/-! The visit of a tree, where what is done at a node sees its label, its text and its children. -/

section Visit

variable (act : R → List α → List (Tree R α) → S → Except ε S)

mutual

def visit : Tree R α → S → Except ε S
  | .node label text children, state => (visitAll children state).bind (act label text children)

def visitAll : List (Tree R α) → S → Except ε S
  | [], state => .ok state
  | tree :: trees, state => (visit tree state).bind (visitAll trees)

end

variable {act}

theorem bind_ok {β γ : Type} {first : Except ε β} {next : β → Except ε γ} {result : γ} :
    first.bind next = .ok result ↔ ∃ middle, first = .ok middle ∧ next middle = .ok result := by
  cases first <;> simp [Except.bind]

theorem map_ok {β γ : Type} {first : Except ε β} {next : β → γ} {result : γ} :
    first.map next = .ok result ↔ ∃ middle, first = .ok middle ∧ next middle = result := by
  cases first <;> simp [Except.map]

@[simp] theorem visit_node (label : R) (text : List α) (children : List (Tree R α)) (s s' : S) :
    visit act (node label text children) s = .ok s' ↔
      ∃ middle, visitAll act children s = .ok middle ∧ act label text children middle = .ok s' := by
  rw [visit,bind_ok]

@[simp] theorem visitAll_nil (s s' : S) : visitAll act [] s = .ok s' ↔ s = s' := by
  simp [visitAll]

@[simp] theorem visitAll_cons (tree : Tree R α) (trees : List (Tree R α)) (s s' : S) :
    visitAll act (tree :: trees) s = .ok s' ↔
      ∃ middle, visit act tree s = .ok middle ∧ visitAll act trees middle = .ok s' := by
  rw [visitAll,bind_ok]

theorem visitAll_append (before after : List (Tree R α)) (s s' : S) :
    visitAll act (before ++ after) s = .ok s' ↔
      ∃ middle, visitAll act before s = .ok middle ∧ visitAll act after middle = .ok s' := by
  induction before generalizing s with
  | nil => simp
  | cons tree trees ih =>
    simp only [List.cons_append,visitAll_cons,ih]
    grind

end Visit

/-! Trees all of whose labels are of one kind. -/

inductive All (kind : R → Bool) : Tree R α → Prop where
  | node {label : R} {text : List α} {children : List (Tree R α)} : kind label = true →
    (∀ child ∈ children, All kind child) → All kind (.node label text children)

theorem all_node (kind : R → Bool) (label : R) (text : List α) (children : List (Tree R α)) :
    All kind (node label text children) ↔ kind label = true ∧ ∀ child ∈ children, All kind child := by
  constructor
  · intro holds
    cases holds with
    | node here below => exact ⟨here,below⟩
  · rintro ⟨here,below⟩
    exact .node here below

theorem All.mono {kind wider : R → Bool} (sub : ∀ label, kind label = true → wider label = true)
    {tree : Tree R α} (holds : All kind tree) : All wider tree := by
  induction holds with
  | node here _ ih => exact .node (sub _ here) ih

/-- A visit keeps what no node of the tree changes. -/
theorem visit_keeps {act : R → List α → List (Tree R α) → S → Except ε S} {β : Type} (part : S → β)
    (kind : R → Bool) (keeps : ∀ label text children s s', kind label = true →
      act label text children s = .ok s' → part s' = part s)
    (tree : Tree R α) (holds : All kind tree) (s s' : S) (visited : visit act tree s = .ok s') :
    part s' = part s := by
  induction tree using Tree.induction generalizing s s' with
  | step label text children ih =>
    obtain ⟨here,below⟩ := (all_node ..).mp holds
    obtain ⟨middle,inside,done⟩ := (visit_node ..).mp visited
    rw [keeps _ _ _ _ _ here done]
    clear visited done holds
    induction children generalizing s with
    | nil =>
      rw [visitAll_nil] at inside
      rw [inside]
    | cons child rest ihRest =>
      obtain ⟨next,one,more⟩ := (visitAll_cons ..).mp inside
      rw [ihRest (fun tree among => ih tree (.tail _ among)) next
        (fun tree among => below tree (.tail _ among)) more]
      exact ih child (.head _) (below child (.head _)) s next one

theorem visitAll_keeps {act : R → List α → List (Tree R α) → S → Except ε S} {β : Type} (part : S → β)
    (kind : R → Bool) (keeps : ∀ label text children s s', kind label = true →
      act label text children s = .ok s' → part s' = part s)
    (trees : List (Tree R α)) (holds : ∀ tree ∈ trees, All kind tree) (s s' : S)
    (visited : visitAll act trees s = .ok s') : part s' = part s := by
  induction trees generalizing s with
  | nil =>
    rw [visitAll_nil] at visited
    rw [visited]
  | cons tree rest ih =>
    obtain ⟨next,one,more⟩ := (visitAll_cons ..).mp visited
    rw [ih (fun t among => holds t (.tail _ among)) next more]
    exact visit_keeps part kind keeps tree (holds tree (.head _)) s next one

/-! The topmost nodes with a wanted label, in the order of the text. -/

section Inside

variable (wanted : R → Bool)

mutual

def inside : Tree R α → List (Tree R α)
  | .node label text children =>
    if wanted label then [.node label text children] else insideAll children

def insideAll : List (Tree R α) → List (Tree R α)
  | [] => []
  | tree :: trees => inside tree ++ insideAll trees

end

variable {wanted}

theorem inside_here (label : R) (text : List α) (children : List (Tree R α))
    (here : wanted label = true) :
    inside wanted (node label text children) = [.node label text children] := by
  rw [inside,if_pos here]

theorem inside_below (label : R) (text : List α) (children : List (Tree R α))
    (other : wanted label = false) :
    inside wanted (node label text children) = insideAll wanted children := by
  rw [inside,if_neg (by simp [other])]

@[simp] theorem insideAll_nil : insideAll wanted ([] : List (Tree R α)) = [] := rfl

@[simp] theorem insideAll_cons (tree : Tree R α) (trees : List (Tree R α)) :
    insideAll wanted (tree :: trees) = inside wanted tree ++ insideAll wanted trees := rfl

@[simp] theorem insideAll_append (before after : List (Tree R α)) :
    insideAll wanted (before ++ after) = insideAll wanted before ++ insideAll wanted after := by
  induction before with
  | nil => simp
  | cons tree trees ih => simp [ih]

theorem inside_none (tree : Tree R α) (none : All (fun label => !wanted label) tree) :
    inside wanted tree = [] := by
  induction tree using Tree.induction with
  | step label text children ih =>
    obtain ⟨here,below⟩ := (all_node ..).mp none
    rw [inside_below _ _ _ (by simpa using here)]
    clear none here
    induction children with
    | nil => rfl
    | cons child rest ihRest =>
      rw [insideAll_cons,ih child (.head _) (below child (.head _)),List.nil_append]
      exact ihRest (fun t among => ih t (.tail _ among)) fun t among => below t (.tail _ among)

theorem insideAll_none (trees : List (Tree R α))
    (none : ∀ tree ∈ trees, All (fun label => !wanted label) tree) : insideAll wanted trees = [] := by
  induction trees with
  | nil => rfl
  | cons tree rest ih =>
    rw [insideAll_cons,inside_none tree (none tree (.head _)),List.nil_append]
    exact ih fun t among => none t (.tail _ among)

end Inside

/-! All the nodes of a tree. -/

mutual

def nodes : Tree R α → List (Tree R α)
  | .node label text children => .node label text children :: nodesAll children

def nodesAll : List (Tree R α) → List (Tree R α)
  | [] => []
  | tree :: trees => nodes tree ++ nodesAll trees

end

@[simp] theorem nodes_node (label : R) (text : List α) (children : List (Tree R α)) :
    nodes (node label text children) = .node label text children :: nodesAll children := by
  rw [nodes]

@[simp] theorem nodesAll_nil : nodesAll ([] : List (Tree R α)) = [] := rfl

@[simp] theorem nodesAll_cons (tree : Tree R α) (trees : List (Tree R α)) :
    nodesAll (tree :: trees) = nodes tree ++ nodesAll trees := rfl

theorem nodesAll_append (before after : List (Tree R α)) :
    nodesAll (before ++ after) = nodesAll before ++ nodesAll after := by
  induction before with
  | nil => rfl
  | cons tree trees ih => rw [List.cons_append,nodesAll_cons,ih,nodesAll_cons,List.append_assoc]

theorem mem_nodes (tree : Tree R α) : tree ∈ tree.nodes := by
  cases tree with
  | node label text children => rw [nodes]; exact .head _

theorem mem_nodesAll {tree : Tree R α} {trees : List (Tree R α)} :
    tree ∈ nodesAll trees ↔ ∃ root ∈ trees, tree ∈ root.nodes := by
  induction trees with
  | nil => simp
  | cons root trees ih => simp [ih]

section Succeeds

variable {act : R → List α → List (Tree R α) → S → Except ε S} {good : Tree R α → Prop}

theorem visitAll_each (trees : List (Tree R α)) (each : ∀ tree ∈ trees, ∀ s,
      (∃ s', visit act tree s = .ok s') ↔ ∀ node ∈ tree.nodes, good node) (s : S) :
    (∃ s', visitAll act trees s = .ok s') ↔ ∀ node ∈ nodesAll trees, good node := by
  induction trees generalizing s with
  | nil => simp
  | cons tree trees ih =>
    have first := each tree (.head _)
    have rest := ih fun other among => each other (.tail _ among)
    simp only [nodesAll_cons,List.forall_mem_append,visitAll_cons]
    constructor
    · rintro ⟨s',middle,one,more⟩
      exact ⟨(first s).mp ⟨middle,one⟩,(rest middle).mp ⟨s',more⟩⟩
    · rintro ⟨here,later⟩
      obtain ⟨middle,one⟩ := (first s).mpr here
      obtain ⟨s',more⟩ := (rest middle).mpr later
      exact ⟨s',middle,one,more⟩

/-- A visit succeeds if what is done at each node does, where that depends on the node alone. -/
theorem visit_succeeds (kind : R → Bool) (decides : ∀ label text children s, kind label = true →
      (∀ node ∈ nodesAll children, good node) →
      ((∃ s', act label text children s = .ok s') ↔ good (node label text children)))
    (tree : Tree R α) (holds : All kind tree) (s : S) :
    (∃ s', visit act tree s = .ok s') ↔ ∀ node ∈ tree.nodes, good node := by
  induction tree using Tree.induction generalizing s with
  | step label text children ih =>
    obtain ⟨here,below⟩ := (all_node ..).mp holds
    have inside := visitAll_each children fun child among => ih child among (below child among)
    simp only [nodes_node,List.forall_mem_cons,visit_node]
    constructor
    · rintro ⟨s',middle,children,done⟩
      have each := (inside s).mp ⟨middle,children⟩
      exact ⟨(decides _ _ _ middle here each).mp ⟨s',done⟩,each⟩
    · rintro ⟨own,each⟩
      obtain ⟨middle,children⟩ := (inside s).mpr each
      obtain ⟨s',done⟩ := (decides _ _ _ middle here each).mpr own
      exact ⟨s',middle,children,done⟩

end Succeeds

/-! What a visit collects at the wanted nodes of a tree, none of which is inside another. -/

section Collects

variable {wanted : R → Bool}

theorem mem_insideAll {node : Tree R α} {trees : List (Tree R α)} :
    node ∈ insideAll wanted trees ↔ ∃ tree ∈ trees, node ∈ inside wanted tree := by
  induction trees with
  | nil => simp
  | cons tree trees ih => simp [ih]

theorem inside_nodes (tree node : Tree R α) (member : node ∈ inside wanted tree) :
    node ∈ tree.nodes ∧ wanted node.label = true := by
  induction tree using Tree.induction with
  | step label text children ih =>
    cases here : wanted label with
    | true =>
      rw [inside_here _ _ _ here,List.mem_singleton] at member
      subst member
      exact ⟨mem_nodes _,here⟩
    | false =>
      rw [inside_below _ _ _ here] at member
      obtain ⟨child,among,below⟩ := mem_insideAll.mp member
      obtain ⟨inner,named⟩ := ih child among below
      rw [nodes_node]
      exact ⟨.tail _ (mem_nodesAll.mpr ⟨child,among,inner⟩),named⟩

/-- No wanted node has another one inside. -/
def Flat (wanted : R → Bool) (tree : Tree R α) : Prop :=
  ∀ node ∈ tree.nodes, wanted node.label = true → insideAll wanted node.children = []

theorem Flat.child {label : R} {text : List α} {children : List (Tree R α)} {child : Tree R α}
    (flat : Flat wanted (node label text children)) (among : child ∈ children) : Flat wanted child := by
  intro inner member
  rw [Flat,nodes_node] at flat
  exact flat inner (.tail _ (mem_nodesAll.mpr ⟨child,among,member⟩))

theorem nodes_inside (tree node : Tree R α) (flat : Flat wanted tree) (member : node ∈ tree.nodes)
    (named : wanted node.label = true) : node ∈ inside wanted tree := by
  induction tree using Tree.induction with
  | step label text children ih =>
    rw [nodes_node] at member
    rcases List.mem_cons.mp member with rfl | below
    · rw [label_node] at named
      rw [inside_here _ _ _ named]
      exact List.mem_singleton_self _
    · obtain ⟨child,among,inner⟩ := mem_nodesAll.mp below
      have among' : node ∈ insideAll wanted children :=
        mem_insideAll.mpr ⟨child,among,ih child among (flat.child among) inner⟩
      cases here : wanted label with
      | true =>
        have none : insideAll wanted children = [] := flat _ (mem_nodes _) here
        rw [none] at among'
        cases among'
      | false =>
        rw [inside_below _ _ _ here]
        exact among'

variable {act : R → List α → List (Tree R α) → S → Except ε S} {β : Type} {part : S → List β}
  {reads : Tree R α → β → Prop}

/-- What a visit has collected when it is through. -/
def Collects (part : S → List β) (reads : Tree R α → β → Prop) (trees : List (Tree R α)) (s s' : S) : Prop :=
  ∃ more, part s' = part s ++ more ∧ List.Forall₂ reads trees more

theorem Collects.nothing {s s' : S} (same : part s' = part s) : Collects part reads [] s s' :=
  ⟨[],by rw [same,List.append_nil],.nil⟩

theorem Collects.append {before after : List (Tree R α)} {s middle s' : S}
    (first : Collects part reads before s middle) (second : Collects part reads after middle s') :
    Collects part reads (before ++ after) s s' := by
  obtain ⟨more,grown,read⟩ := first
  obtain ⟨more',grown',read'⟩ := second
  exact ⟨more ++ more',by rw [grown',grown,List.append_assoc],List.rel_append read read'⟩

theorem visitAll_collects (trees : List (Tree R α)) (each : ∀ tree ∈ trees, ∀ s s',
      visit act tree s = .ok s' → Collects part reads (inside wanted tree) s s')
    (s s' : S) (visited : visitAll act trees s = .ok s') :
    Collects part reads (insideAll wanted trees) s s' := by
  induction trees generalizing s with
  | nil =>
    rw [visitAll_nil] at visited
    subst visited
    exact Collects.nothing rfl
  | cons tree trees ih =>
    obtain ⟨middle,one,more⟩ := (visitAll_cons ..).mp visited
    exact (each tree (.head _) s middle one).append (ih (fun t among => each t (.tail _ among)) middle more)

/-- What is done at a wanted node collects one thing, and what is done elsewhere nothing. -/
theorem visit_collects (kind : R → Bool)
    (collects : ∀ label text children s s', kind label = true → act label text children s = .ok s' →
      Collects part reads (if wanted label then [node label text children] else []) s s')
    (tree : Tree R α) (holds : All kind tree) (flat : Flat wanted tree) (s s' : S)
    (visited : visit act tree s = .ok s') : Collects part reads (inside wanted tree) s s' := by
  induction tree using Tree.induction generalizing s s' with
  | step label text children ih =>
    obtain ⟨here,below⟩ := (all_node ..).mp holds
    obtain ⟨middle,inner,done⟩ := (visit_node ..).mp visited
    have first := visitAll_collects children
      (fun child among => ih child among (below child among) (flat.child among)) s middle inner
    have second := collects label text children middle s' here done
    cases named : wanted label with
    | true =>
      have none : insideAll wanted children = [] := flat _ (mem_nodes _) named
      rw [none] at first
      rw [named,if_pos rfl] at second
      rw [inside_here _ _ _ named]
      exact first.append second
    | false =>
      rw [named,if_neg (by decide)] at second
      rw [inside_below _ _ _ named,← List.append_nil (insideAll wanted children)]
      exact first.append second

end Collects

end Tree

end LoreDB.Library
