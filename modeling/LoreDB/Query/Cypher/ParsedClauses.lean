import LoreDB.Query.Cypher.ParsedExpressions

/-! The clauses of a parsed query. They are the only nodes of the parse tree that matter between the
query and the parts of its clauses, and their kinds come in one fixed order. -/
namespace LoreDB.Query.Cypher
open LoreDB.Storage LoreDB.Library Grammar Peg

/-- The kinds of clauses in the order in which a query can have them. -/
def clauseRules : List Rule := [.matchClause,.createClause,.whereClause,.setClause,.deleteClause,
  .returnClause,.orderByClause,.limitClause]

/-- The rules of everything inside a clause. -/
def innerRules : List Rule := namingRules ++ silentRules ++ expressionRules ++
  [.propertyAccess,.setAssignment,.returnItem,.returnList,.orderDirection,.orderItem,.orderList,
    .limitKeyword,.orderKeyword,.byKeyword,.ascKeyword,.descKeyword]

theorem inner_closed : Closed innerRules := by decide

/-- Only clauses are wanted. -/
def WantsClauses (wanted : Rule → Bool) : Prop :=
  ((.query :: innerRules).all fun rule => !wanted rule) = true

instance (wanted : Rule → Bool) : Decidable (WantsClauses wanted) :=
  inferInstanceAs (Decidable (_ = true))

theorem WantsClauses.not {wanted : Rule → Bool} (clauses : WantsClauses wanted) (rule : Rule)
    (kind : among (.query :: innerRules) rule = true) : wanted rule = false := by
  have other := List.all_eq_true.mp clauses rule (List.contains_iff_mem.mp kind)
  simpa using other

def wants (wanted : Rule → Bool) (clause : CypherTree) : Bool := wanted clause.label

def Derived (tree : CypherTree) : Prop := Derives body (body tree.label) tree.text tree.children

theorem clause_inside {wanted : Rule → Bool} (clauses : WantsClauses wanted) {rule : Rule}
    (kind : among clauseRules rule = true) {text : Bytes} {children : List CypherTree}
    (derived : Derives body (body rule) text children) :
    Tree.inside wanted (.node rule text children) =
      List.filter (wants wanted) [.node rule text children] := by
  cases here : wanted rule with
  | true => simp [Tree.inside_here _ _ _ here,wants,here]
  | false =>
    have within : (body rule).within (among innerRules) = true := by
      simp only [among,clauseRules,List.contains_iff_mem,List.mem_cons,List.not_mem_nil,or_false] at kind
      rcases kind with rfl | rfl | rfl | rfl | rfl | rfl | rfl | rfl <;> decide
    have apart : (innerRules.all fun rule => !wanted rule) = true := by
      simp only [WantsClauses,List.all_cons,Bool.and_eq_true] at clauses
      exact clauses.2
    simp [Tree.inside_below _ _ _ here,inside_absent innerRules inner_closed wanted apart derived within,
      wants,here]

variable (conversions : Conversions)

/-- What trees do is done by clauses of these kinds in this order. -/
def Laid (order : List Rule) (trees : List CypherTree) : Prop :=
  ∃ clauses : List CypherTree, (clauses.map Tree.label).Sublist order ∧
    (∀ clause ∈ clauses, Derived clause) ∧
    (∀ wanted, WantsClauses wanted → Tree.insideAll wanted trees = clauses.filter (wants wanted)) ∧
    ∀ s s', Tree.visitAll (buildNodeOf conversions) trees s = .ok s' →
      Tree.visitAll (buildNodeOf conversions) clauses s = .ok s'

namespace Laid

variable {conversions}

theorem nil : Laid conversions [] [] :=
  ⟨[],.slnil,by simp,fun _ _ => rfl,fun _ _ visited => visited⟩

theorem widen {order more : List Rule} {trees : List CypherTree} (sub : order.Sublist more)
    (laid : Laid conversions order trees) : Laid conversions more trees := by
  obtain ⟨clauses,labels,rest⟩ := laid
  exact ⟨clauses,labels.trans sub,rest⟩

theorem append {order more : List Rule} {before after : List CypherTree}
    (first : Laid conversions order before) (second : Laid conversions more after) :
    Laid conversions (order ++ more) (before ++ after) := by
  obtain ⟨clauses,labels,derived,insides,visits⟩ := first
  obtain ⟨clauses',labels',derived',insides',visits'⟩ := second
  refine ⟨clauses ++ clauses',?_,?_,?_,?_⟩
  · rw [List.map_append]
    exact labels.append labels'
  · intro clause among
    exact (List.mem_append.mp among).elim (derived clause) (derived' clause)
  · intro wanted only
    rw [Tree.insideAll_append,insides wanted only,insides' wanted only,List.filter_append]
  · intro s s' visited
    obtain ⟨middle,one,two⟩ := (Tree.visitAll_append ..).mp visited
    exact (Tree.visitAll_append ..).mpr ⟨middle,visits s middle one,visits' middle s' two⟩

theorem cons {order more : List Rule} {tree : CypherTree} {trees : List CypherTree}
    (first : Laid conversions order [tree]) (second : Laid conversions more trees) :
    Laid conversions (order ++ more) (tree :: trees) := append first second

/-- Nodes without a rule and the node of the query do nothing. -/
theorem around {order : List Rule} {trees : List CypherTree} (rule : Rule) (text : Bytes)
    (kind : among (.query :: innerRules) rule = true)
    (nothing : ∀ s, buildNodeOf conversions rule text trees s = .ok s)
    (laid : Laid conversions order trees) : Laid conversions order [.node rule text trees] := by
  obtain ⟨clauses,labels,derived,insides,visits⟩ := laid
  refine ⟨clauses,labels,derived,?_,?_⟩
  · intro wanted only
    rw [Tree.insideAll_cons,Tree.inside_below _ _ _ (only.not rule kind),Tree.insideAll_nil,
      List.append_nil,insides wanted only]
  · intro s s' visited
    obtain ⟨_,here,same⟩ := (Tree.visitAll_cons ..).mp visited
    obtain rfl := (Tree.visitAll_nil ..).mp same
    obtain ⟨middle,walked,done⟩ := (Tree.visit_node ..).mp here
    rw [nothing] at done
    obtain rfl := Except.ok.inj done
    exact visits s middle walked

theorem unnamed {order : List Rule} {trees : List CypherTree} (text : Bytes)
    (laid : Laid conversions order trees) : Laid conversions order [.node .unnamed text trees] :=
  around .unnamed text (by decide) (fun _ => rfl) laid

theorem blank {rule : Rule} (kind : among blankRules rule = true) {text : Bytes}
    {trees : List CypherTree} (derived : Derives body (body rule) text trees) :
    Laid conversions [] [.node rule text trees] := by
  have silent : among silentRules rule = true := by
    simp only [among,blankRules,List.contains_iff_mem,List.mem_cons,List.not_mem_nil,or_false] at kind
    rcases kind with rfl | rfl <;> decide
  refine ⟨[],.slnil,by simp,?_,?_⟩
  · intro wanted only
    have apart : (silentRules.all fun rule => !wanted rule) = true := by
      refine List.all_eq_true.mpr fun rule member => ?_
      rw [only.not rule]
      · rfl
      · refine List.contains_iff_mem.mpr ?_
        simp [innerRules,member]
    exact inside_absent silentRules (by decide) wanted apart (.rule derived) silent
  · intro s s' visited
    obtain ⟨_,here,same⟩ := (Tree.visitAll_cons ..).mp visited
    obtain rfl := (Tree.visitAll_nil ..).mp same
    rw [silent_visit conversions rule silent derived _ _ here,Tree.visitAll_nil]

theorem clause {rule : Rule} (kind : among clauseRules rule = true) {text : Bytes}
    {children : List CypherTree} (derived : Derives body (body rule) text children) :
    Laid conversions [rule] [.node rule text children] := by
  refine ⟨[.node rule text children],List.Sublist.refl _,?_,?_,fun _ _ visited => visited⟩
  · intro other among
    obtain rfl := List.mem_singleton.mp among
    exact derived
  · intro wanted only
    rw [Tree.insideAll_cons,Tree.insideAll_nil,List.append_nil]
    exact clause_inside only kind derived

/-! The combinators of the grammar around clauses. -/

theorem group {rule : Rule} (kind : among clauseRules rule = true) {text : Bytes} {trees : List CypherTree}
    (derived : Derives body (group [.rule .ws,.rule rule]) text trees) :
    Laid conversions [rule] trees := by
  obtain ⟨children,rfl,within⟩ := (derives_labelled _ _).mp derived
  obtain ⟨_,_,_,_,rfl,spaces,d1⟩ := rule_then within
  obtain ⟨_,_,_,_,rfl,inner,d2⟩ := rule_then d1
  obtain ⟨-,rfl⟩ := derives_all_nil.mp d2
  exact unnamed text (cons (blank (by decide) spaces) (clause kind inner))

theorem optional {order : List Rule} {e : Expr} {text : Bytes} {trees : List CypherTree}
    (derived : Derives body (opt e) text trees)
    (some : ∀ trees, Derives body e text trees → Laid conversions order trees) :
    Laid conversions order trees := by
  rcases (derives_opt _).mp derived with one | ⟨-,rfl⟩
  · exact some trees one
  · exact nil.widen (List.nil_sublist _)

theorem further {rule : Rule} {es : List Expr} {order : List Rule} (kind : among clauseRules rule = true)
    {text : Bytes} {trees : List CypherTree} (derived : Derives body (all (further rule :: es)) text trees)
    (rest : ∀ text trees, Derives body (all es) text trees → Laid conversions order trees) :
    Laid conversions (rule :: order) trees := by
  obtain ⟨part,partTrees,_,_,rfl,maybe,later⟩ := optional_then derived
  exact cons (unnamed part (optional maybe fun _ one => group kind one)) (rest _ _ later)

theorem returned {text : Bytes} {trees : List CypherTree} (derived : Derives body returning text trees) :
    Laid conversions [.returnClause,.orderByClause,.limitClause] trees := by
  obtain ⟨children,rfl,within⟩ := (derives_labelled _ _).mp derived
  obtain ⟨_,_,_,_,rfl,spaces,d1⟩ := rule_then within
  obtain ⟨_,_,_,_,rfl,inner,d2⟩ := rule_then d1
  refine unnamed text (cons (blank (by decide) spaces) (cons (clause (by decide) inner) ?_))
  refine further (by decide) d2 fun _ _ d3 => further (by decide) d3 fun _ _ done => ?_
  obtain ⟨-,rfl⟩ := derives_all_nil.mp done
  exact nil

theorem matching {text : Bytes} {trees : List CypherTree}
    (derived : Derives body (all matchQuery) text trees) :
    Laid conversions clauseRules trees := by
  obtain ⟨_,_,_,_,rfl,opening,d1⟩ := rule_then derived
  have order : [Rule.matchClause,.whereClause,.setClause,.deleteClause,.returnClause,.orderByClause,
    .limitClause].Sublist clauseRules := by decide
  refine widen order (cons (clause (by decide) opening) (further (by decide) d1 fun _ _ d2 => ?_))
  obtain ⟨part,partTrees,_,_,rfl,maybe,done⟩ := optional_then d2
  obtain ⟨-,rfl⟩ := derives_all_nil.mp done
  refine unnamed part (optional maybe fun _ one => ?_)
  obtain ⟨children,rfl,chosen⟩ := choice_shape one
  simp only [first,derives_sor] at chosen
  refine unnamed part ?_
  rcases chosen with one | one | one
  · exact (returned one).widen (by decide)
  · exact (group (by decide) one).widen (by decide)
  · exact (group (by decide) one).widen (by decide)

theorem writing {rule : Rule} (kind : rule ∈ [Rule.createClause,.setClause,.deleteClause]) {text : Bytes}
    {trees : List CypherTree} (derived : Derives body (all (writeQuery rule)) text trees) :
    Laid conversions clauseRules trees := by
  obtain ⟨_,_,_,_,rfl,opening,d1⟩ := rule_then derived
  have writes : among clauseRules rule = true := by
    simp only [List.mem_cons,List.not_mem_nil,or_false] at kind
    rcases kind with rfl | rfl | rfl <;> decide
  have order : [rule,.returnClause].Sublist clauseRules := by
    simp only [List.mem_cons,List.not_mem_nil,or_false] at kind
    rcases kind with rfl | rfl | rfl <;> decide
  refine widen order (cons (clause writes opening) (further (by decide) d1 fun _ _ done => ?_))
  obtain ⟨-,rfl⟩ := derives_all_nil.mp done
  exact nil

end Laid

/-- At most one clause of a kind is visited. -/
def Visited (rule : Rule) (clauses : List CypherTree) (s s' : ParserState) : Prop :=
  (clauses = [] ∧ s = s') ∨ ∃ text children, clauses = [.node rule text children] ∧
    Derives body (body rule) text children ∧
    Tree.visit (buildNodeOf conversions) (.node rule text children) s = .ok s'

def VisitedInOrder (clausesOf : Rule → List CypherTree) : List Rule → ParserState → ParserState → Prop
  | [], s, s' => s = s'
  | kind :: order, s, s' => ∃ middle, Visited conversions kind (clausesOf kind) s middle ∧
      VisitedInOrder clausesOf order middle s'

theorem visitedInOrder_congr {clausesOf clausesOf' : Rule → List CypherTree} {order : List Rule}
    (same : ∀ rule ∈ order, clausesOf rule = clausesOf' rule) (s s' : ParserState) :
    VisitedInOrder conversions clausesOf order s s' ↔ VisitedInOrder conversions clausesOf' order s s' := by
  induction order generalizing s with
  | nil => exact Iff.rfl
  | cons rule order ih =>
    simp only [VisitedInOrder,same rule (.head _),ih fun other among => same other (.tail _ among)]

def ofKind (clauses : List CypherTree) (rule : Rule) : List CypherTree :=
  clauses.filter (wants (is rule))

theorem ofKind_none (clauses : List CypherTree) (rule : Rule) (absent : rule ∉ clauses.map Tree.label) :
    ofKind clauses rule = [] := by
  refine List.filter_eq_nil_iff.mpr fun clause among wanted => absent ?_
  have same : clause.label = rule := by simpa [wants,is] using wanted
  exact same ▸ List.mem_map_of_mem among

/-- On the order: its first kind is that of the first clause or of none. -/
theorem visited_in_order {order : List Rule} (distinct : order.Nodup) (clauses : List CypherTree)
    (labels : (clauses.map Tree.label).Sublist order) (derived : ∀ clause ∈ clauses, Derived clause)
    (s s' : ParserState) (visited : Tree.visitAll (buildNodeOf conversions) clauses s = .ok s') :
    VisitedInOrder conversions (ofKind clauses) order s s' := by
  induction order generalizing clauses s with
  | nil =>
    rw [List.sublist_nil,List.map_eq_nil_iff] at labels
    subst labels
    exact (Tree.visitAll_nil ..).mp visited
  | cons rule order ih =>
    obtain ⟨fresh,others⟩ := List.nodup_cons.mp distinct
    have skip (labels : (clauses.map Tree.label).Sublist order) :
        VisitedInOrder conversions (ofKind clauses) (rule :: order) s s' := by
      have none := ofKind_none clauses rule fun member => fresh (labels.subset member)
      exact ⟨s,.inl ⟨none,rfl⟩,ih others clauses labels derived s visited⟩
    cases clauses with
    | nil => exact skip (List.nil_sublist _)
    | cons clause later =>
      by_cases here : clause.label = rule
      · obtain ⟨kind,text,children⟩ := clause
        obtain rfl : kind = rule := here
        rw [List.map_cons,Tree.label,List.cons_sublist_cons] at labels
        obtain ⟨middle,one,more⟩ := (Tree.visitAll_cons ..).mp visited
        have none := ofKind_none later kind fun member => fresh (labels.subset member)
        have only : ofKind (.node kind text children :: later) kind = [.node kind text children] := by
          rw [ofKind,List.filter_cons_of_pos (by simp [wants,is,Tree.label])]
          exact congrArg _ none
        refine ⟨middle,.inr ⟨text,children,only,derived _ (.head _),one⟩,?_⟩
        have rest := ih others later labels (fun c among => derived c (.tail _ among)) middle more
        refine (visitedInOrder_congr conversions (fun other among => ?_) middle s').mp rest
        have different : kind ≠ other := fun same => fresh (same ▸ among)
        rw [ofKind,ofKind,List.filter_cons_of_neg]
        simpa [wants,is,Tree.label] using different
      · exact skip (List.Sublist.of_cons_of_ne here labels)

/-- A parsed query comes from visiting the clauses of its parse tree on empty stacks. -/
theorem parsed_in_order (text : Bytes) (query : Query)
    (parsed : CypherParser.parse conversions text = .ok query) :
    ∃ tree s', Reads text tree ∧ s'.query = query ∧
      VisitedInOrder conversions (fun rule => tree.inside (is rule)) clauseRules {} s' := by
  obtain ⟨tree,inner,trees,s',reads,within,cases,visited,result⟩ :=
    parsed_clauses conversions text query parsed
  have laid : Laid conversions clauseRules trees := by
    rcases cases with derived | ⟨rule,kind,derived⟩
    · exact Laid.matching derived
    · exact Laid.writing kind derived
  obtain ⟨clauses,labels,derived,insides,visits⟩ := laid
  refine ⟨tree,s',reads,result,?_⟩
  have ordered := visited_in_order conversions (by decide) clauses labels derived _ _ (visits _ _ visited)
  refine (visitedInOrder_congr conversions (fun rule among => ?_) _ _).mp ordered
  have only : WantsClauses (is rule) := by
    simp only [clauseRules,List.mem_cons,List.not_mem_nil,or_false] at among
    rcases among with rfl | rfl | rfl | rfl | rfl | rfl | rfl | rfl <;> decide
  rw [within (is rule) (by simp [only.not Rule.query (by decide),only.not Rule.optWs (by decide),
    only.not Rule.unnamed (by decide)]),insides (is rule) only,ofKind]

end LoreDB.Query.Cypher
