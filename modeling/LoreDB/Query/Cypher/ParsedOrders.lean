import LoreDB.Query.Cypher.ParsedReturns

/-! ORDER BY lists. The clause takes the whole stack for its items, with everything that the clauses
before it have left there, and never finds a direction, since those lie deeper in the tree. -/
namespace LoreDB.Query.Cypher
open LoreDB.Storage LoreDB.Library Grammar Peg

namespace Written

variable (conversions : Conversions)

def direction (tree : CypherTree) : OrderDirection :=
  if (tree.inside (is .orderDirection)).any fun part => part.text == ascii "DESC" then .desc else .asc

def orderItem (tree : CypherTree) : Option OrderByItem :=
  ((tree.inside (is .expression)).head?.bind (expression conversions)).map fun e => ⟨e,direction tree⟩

def orderItems (trees : List CypherTree) : List OrderByItem :=
  (Tree.insideAll (is .orderItem) trees).filterMap (orderItem conversions)

def ordered (tree : CypherTree) : Option (List OrderByItem) :=
  (tree.inside (is .orderByClause)).head?.map fun clause => orderItems conversions [clause]

/-- What the clauses before it leave for ORDER BY. -/
def beforeOrder (tree : CypherTree) : List Expression :=
  ReturnItem.leftover ((returned conversions tree).getD []) (beforeReturn conversions tree)

end Written

/-! What the items do to the stack, bottom first. -/

namespace Expression

/-- A property access or a variable. -/
def isKey : Expression → Bool
  | .propertyAccess _ _ | .identifier _ => true
  | _ => false

def access (pair : Bytes × Bytes) : List Expression :=
  [.identifier pair.1,.propertyAccess pair.1 pair.2]

def accessed : Expression → Option (Bytes × Bytes)
  | .propertyAccess entity property => some (entity,property)
  | _ => none

theorem onto_key (e : Expression) (stack : List Expression) (key : e.isKey = true) :
    (e.onto stack).reverse = stack.reverse ++ (e.accessed.map access).getD [] := by
  cases e with
  | propertyAccess entity property => simp [onto,accessed,access]
  | identifier name => simp [onto,accessed]
  | literal | comparison | logicalAnd | logicalOr | logicalNot => cases key

def piled (items stack : List Expression) : List Expression :=
  items.foldl (fun stack e => e.onto stack) stack

theorem piled_keys (items stack : List Expression) (keys : ∀ e ∈ items, e.isKey = true) :
    (piled items stack).reverse = stack.reverse ++ (items.filterMap accessed).flatMap access := by
  induction items generalizing stack with
  | nil => exact (List.append_nil _).symm
  | cons e items ih =>
    have rest := ih (e.onto stack) fun other among => keys other (.tail _ among)
    rw [piled,List.foldl_cons]
    refine rest.trans ?_
    rw [onto_key e stack (keys e (.head _)),List.append_assoc]
    cases h : e.accessed with
    | none => rw [List.filterMap_cons_none h,Option.map_none,Option.getD_none,List.nil_append]
    | some pair => rw [List.filterMap_cons_some h,Option.map_some,Option.getD_some,List.flatMap_cons]

theorem accessed_access (pairs : List (Bytes × Bytes)) :
    (pairs.flatMap access).filterMap accessed = pairs := by
  induction pairs with
  | nil => rfl
  | cons pair pairs ih =>
    rw [List.flatMap_cons,List.filterMap_append,ih]
    rfl

theorem accessed_names (names : List Bytes) : (names.map identifier).filterMap accessed = [] := by
  induction names with
  | nil => rfl
  | cons name names ih => exact ih

/-- Keys without an access are names. -/
theorem names_of_keys (items : List Expression) (keys : ∀ e ∈ items, e.isKey = true)
    (none : items.filterMap accessed = []) : ∃ names : List Bytes, items = names.map identifier := by
  induction items with
  | nil => exact ⟨[],rfl⟩
  | cons e items ih =>
    cases e with
    | identifier name =>
      obtain ⟨names,rfl⟩ := ih (fun other among => keys other (.tail _ among)) none
      exact ⟨name :: names,rfl⟩
    | propertyAccess => cases none
    | literal | comparison | logicalAnd | logicalOr | logicalNot => cases keys _ (.head _)

/-- The accesses lie there once, so what was there before has none and begins the list. -/
theorem piled_same (items stack : List Expression) (keys : ∀ e ∈ items, e.isKey = true) :
    (piled items stack).reverse = items ↔ ∃ (names : List Bytes) (pairs : List (Bytes × Bytes)),
      stack.reverse = names.map identifier ∧ items = names.map identifier ++ pairs.flatMap access := by
  rw [piled_keys items stack keys]
  constructor
  · intro same
    have accesses := congrArg (List.filterMap accessed) same
    rw [List.filterMap_append,accessed_access] at accesses
    have none : stack.reverse.filterMap accessed = [] := List.append_left_eq_self.mp accesses
    obtain ⟨names,named⟩ := names_of_keys stack.reverse
      (fun e among => keys e (same ▸ List.mem_append_left _ among)) none
    exact ⟨names,items.filterMap accessed,named,by rw [← named]; exact same.symm⟩
  · rintro ⟨names,pairs,named,rfl⟩
    rw [named,List.filterMap_append,accessed_names,List.nil_append,accessed_access]

end Expression

section Building

variable (conversions : Conversions)

/-- The rules around the expressions of the clause. -/
def orderRules : List Rule := [.unnamed,.ws,.optWs,.orderDirection,.ascKeyword,.descKeyword,.orderKeyword,
  .byKeyword]

theorem order_keeps (rule : Rule) (text : Bytes) (children : List CypherTree) (s s' : ParserState)
    (kind : among orderRules rule = true) (done : buildNodeOf conversions rule text children s = .ok s') :
    s' = s := by
  cases rule
  all_goals first
    | exact absurd kind (by decide)
    | exact (Except.ok.inj done).symm

theorem order_part {e : Expr} {text : Bytes} {trees : List CypherTree}
    (derived : Derives body e text trees) (holds : e.within (among orderRules) = true)
    (s s' : ParserState) (visited : Tree.visitAll (buildNodeOf conversions) trees s = .ok s') : s' = s :=
  Tree.visitAll_keeps id (among orderRules) (order_keeps conversions) trees
    (all_among orderRules (by decide) derived holds) s s' visited

theorem order_visits (rule : Rule) (kind : among orderRules rule = true) {text : Bytes}
    {children : List CypherTree} (derived : Derives body (body rule) text children) (s s' : ParserState)
    (visited : Tree.visit (buildNodeOf conversions) (.node rule text children) s = .ok s') : s' = s :=
  Tree.visit_keeps id (among orderRules) (order_keeps conversions) _
    (all_among orderRules (by decide) (.rule derived) kind _ (List.mem_singleton_self _)) s s' visited

theorem order_nothing (wanted : Rule → Bool) (apart : (orderRules.all fun rule => !wanted rule) = true)
    {e : Expr} {text : Bytes} {trees : List CypherTree} (derived : Derives body e text trees)
    (holds : e.within (among orderRules) = true) : Tree.insideAll wanted trees = [] :=
  inside_absent orderRules (by decide) wanted apart derived holds

theorem orderItem_visit {text : Bytes} {children : List CypherTree}
    (derived : Derives body (body .orderItem) text children) (s s' : ParserState)
    (visited : Tree.visit (buildNodeOf conversions) (.node .orderItem text children) s = .ok s') :
    ∃ item, Written.orderItem conversions (.node .orderItem text children) = some item ∧
      s'.expressionStack = item.expression.onto s.expressionStack := by
  obtain ⟨inside,insideTrees,_,_,rfl,inner,d1⟩ := rule_then derived
  obtain ⟨part,partTrees,_,_,rfl,maybe,d2⟩ := optional_then d1
  obtain ⟨-,rfl⟩ := derives_all_nil.mp d2
  obtain ⟨_,walked,done⟩ := (Tree.visit_node ..).mp visited
  obtain rfl := Except.ok.inj done
  obtain ⟨evaluated,here,v1⟩ := (Tree.visitAll_cons ..).mp walked
  obtain ⟨_,directing,v2⟩ := (Tree.visitAll_cons ..).mp v1
  obtain rfl := (Tree.visitAll_nil ..).mp v2
  obtain ⟨_,directed,same⟩ := (Tree.visit_node ..).mp directing
  obtain rfl := Except.ok.inj same
  obtain rfl := order_part conversions maybe (by decide) _ _ directed
  obtain ⟨e,written,stack,-⟩ := expression_visit conversions inner _ _ here
  have none := order_nothing (is .expression) (by decide) maybe (by decide)
  refine ⟨⟨e,Written.direction (.node .orderItem text
    [.node .expression inside insideTrees,.node .unnamed part partTrees])⟩,?_,stack⟩
  simp (disch := decide) [Written.orderItem,Tree.inside_below Rule.orderItem,
    Tree.inside_below Rule.unnamed,Tree.inside_here,none,written]

def ItemsPiled (trees : List CypherTree) (s s' : ParserState) : Prop :=
  s'.expressionStack = Expression.piled ((Written.orderItems conversions trees).map OrderByItem.expression)
    s.expressionStack

theorem itemsPiled_trans {before after : List CypherTree} {s middle s' : ParserState}
    (first : ItemsPiled conversions before s middle) (second : ItemsPiled conversions after middle s') :
    ItemsPiled conversions (before ++ after) s s' := by
  have split : Written.orderItems conversions (before ++ after) =
      Written.orderItems conversions before ++ Written.orderItems conversions after := by
    simp [Written.orderItems]
  rw [ItemsPiled,second,first,split,List.map_append,Expression.piled,Expression.piled,Expression.piled,
    List.foldl_append]

theorem orderList_visit {text : Bytes} {trees : List CypherTree}
    (derived : Derives body (body .orderList) text trees) (s s' : ParserState)
    (visited : Tree.visitAll (buildNodeOf conversions) trees s = .ok s') :
    ItemsPiled conversions trees s s' := by
  refine list_visits (ItemsPiled conversions) (fun s => rfl) (fun _ _ _ _ _ => itemsPiled_trans conversions)
    ?_ ?_ derived s s' visited
  · intro text trees s s' element visited
    obtain ⟨children,rfl,within⟩ := (derives_rule _).mp element
    obtain ⟨_,here,same⟩ := (Tree.visitAll_cons ..).mp visited
    obtain rfl := (Tree.visitAll_nil ..).mp same
    obtain ⟨item,written,stack⟩ := orderItem_visit conversions within _ _ here
    have only : Written.orderItems conversions [.node .orderItem text children] = [item] := by
      simp (disch := decide) only [Written.orderItems,Tree.insideAll_cons,Tree.insideAll_nil,
        Tree.inside_here,List.append_nil,List.filterMap_cons_some written,List.filterMap_nil]
    rw [ItemsPiled,only]
    exact stack
  · intro text trees s s' apart visited
    have none : Written.orderItems conversions trees = [] := by
      rw [Written.orderItems,comma_inside (is .orderItem) (by decide) apart]
      rfl
    rw [ItemsPiled,none,order_part conversions apart (by decide) s s' visited]
    rfl

theorem order_visit {text : Bytes} {children : List CypherTree}
    (derived : Derives body (body .orderByClause) text children) (s s' : ParserState)
    (visited : Tree.visit (buildNodeOf conversions) (.node .orderByClause text children) s = .ok s') :
    s'.query.orderBy.map OrderByClause.items = some ((Expression.piled ((Written.orderItems conversions
      [.node .orderByClause text children]).map OrderByItem.expression)
        s.expressionStack).reverse.map fun e => ⟨e,.asc⟩) := by
  obtain ⟨word,wordTrees,_,_,rfl,words,d1⟩ := rule_then derived
  obtain ⟨blank,blankTrees,_,_,rfl,spaces,d2⟩ := rule_then d1
  obtain ⟨word',wordTrees',_,_,rfl,words',d3⟩ := rule_then d2
  obtain ⟨blank',blankTrees',_,_,rfl,spaces',d4⟩ := rule_then d3
  obtain ⟨list,listTrees,_,_,rfl,listed,d5⟩ := rule_then d4
  obtain ⟨-,rfl⟩ := derives_all_nil.mp d5
  obtain ⟨_,walked,done⟩ := (Tree.visit_node ..).mp visited
  obtain rfl := Except.ok.inj done
  obtain ⟨_,skip1,v1⟩ := (Tree.visitAll_cons ..).mp walked
  obtain rfl := order_visits conversions .orderKeyword (by decide) words _ _ skip1
  obtain ⟨_,skip2,v2⟩ := (Tree.visitAll_cons ..).mp v1
  obtain rfl := order_visits conversions .ws (by decide) spaces _ _ skip2
  obtain ⟨_,skip3,v3⟩ := (Tree.visitAll_cons ..).mp v2
  obtain rfl := order_visits conversions .byKeyword (by decide) words' _ _ skip3
  obtain ⟨_,skip4,v4⟩ := (Tree.visitAll_cons ..).mp v3
  obtain rfl := order_visits conversions .ws (by decide) spaces' _ _ skip4
  obtain ⟨_,here,v5⟩ := (Tree.visitAll_cons ..).mp v4
  obtain rfl := (Tree.visitAll_nil ..).mp v5
  obtain ⟨_,listing,same⟩ := (Tree.visit_node ..).mp here
  obtain rfl := Except.ok.inj same
  have stack := orderList_visit conversions listed _ _ listing
  have quiet {rule : Rule} {text : Bytes} {trees : List CypherTree} (kind : among orderRules rule = true)
      (derived : Derives body (body rule) text trees) :
      Tree.inside (is .orderItem) (.node rule text trees) = [] := by
    have none := order_nothing (is .orderItem) (by decide) (.rule derived) kind
    rwa [Tree.insideAll_cons,Tree.insideAll_nil,List.append_nil] at none
  have only : Written.orderItems conversions [.node .orderByClause text [.node .orderKeyword word wordTrees,
      .node .ws blank blankTrees,.node .byKeyword word' wordTrees',.node .ws blank' blankTrees',
      .node .orderList list listTrees]] = Written.orderItems conversions listTrees := by
    simp (disch := decide) only [Written.orderItems,Tree.insideAll_cons,Tree.insideAll_nil,
      Tree.inside_below Rule.orderByClause,Tree.inside_below Rule.orderList,quiet (by decide) words,
      quiet (by decide) spaces,quiet (by decide) words',quiet (by decide) spaces',List.append_nil,
      List.nil_append]
  rw [only,← stack]
  rfl

def limitRules : List Rule := [.limitClause,.limitKeyword,.ws,.integer]

theorem limit_keeps (rule : Rule) (text : Bytes) (children : List CypherTree) (s s' : ParserState)
    (kind : among limitRules rule = true) (done : buildNodeOf conversions rule text children s = .ok s') :
    s'.query.orderBy = s.query.orderBy := by
  cases rule
  case limitClause =>
    simp only [buildNodeOf] at done
    split at done
    · obtain ⟨count,-,rfl⟩ := Tree.map_ok.mp done
      rfl
    · obtain rfl := Except.ok.inj done
      rfl
  all_goals first
    | exact absurd kind (by decide)
    | (obtain rfl := Except.ok.inj done; rfl)

end Building

/-! Whole queries. -/

/-- No item is written with DESC, the clauses before leave nothing but the variables of the first items,
and every other item is a variable whose own property comes next. -/
def OrdersFit (items : List OrderByItem) (before : List Expression) : Prop :=
  (∀ item ∈ items, item.direction = .asc) ∧ ∃ (names : List Bytes) (pairs : List (Bytes × Bytes)),
    before.reverse = names.map .identifier ∧
    items.map OrderByItem.expression = names.map .identifier ++
      pairs.flatMap fun pair => [.identifier pair.1,.propertyAccess pair.1 pair.2]

theorem ascending_same (items : List OrderByItem) (expressions : List Expression) :
    expressions.map (fun e => (⟨e,.asc⟩ : OrderByItem)) = items ↔
      (∀ item ∈ items, item.direction = .asc) ∧ expressions = items.map OrderByItem.expression := by
  constructor
  · rintro rfl
    refine ⟨?_,?_⟩
    · intro item among
      obtain ⟨e,-,rfl⟩ := List.mem_map.mp among
      rfl
    · rw [List.map_map]
      exact (List.map_id _).symm
  · rintro ⟨ascending,rfl⟩
    rw [List.map_map]
    refine (List.map_congr_left fun item among => ?_).trans (List.map_id _)
    obtain ⟨e,direction⟩ := item
    obtain rfl := ascending _ among
    rfl

/-- The items of an ORDER BY clause of variables and property accesses are what is written if and only
if they fit. -/
theorem parsed_orders (conversions : Conversions) (text : Bytes) (query : Query)
    (parsed : CypherParser.parse conversions text = .ok query) :
    ∃ tree, Reads text tree ∧ ∀ items, Written.ordered conversions tree = some items →
      (∀ item ∈ items, item.expression.isKey = true) →
      (query.orderBy.map OrderByClause.items = some items ↔
        OrdersFit items (Written.beforeOrder conversions tree)) := by
  obtain ⟨tree,reached,returned,ordered,ended,reads,before,-,-,returning,ordering,limiting,rfl⟩ :=
    return_reached conversions text query parsed
  refine ⟨tree,reads,fun items written keys => ?_⟩
  have left : returned.expressionStack = Written.beforeOrder conversions tree := by
    rcases returning with ⟨absent,rfl⟩ | ⟨text,children,only,derived,visited⟩
    · rw [before,Written.beforeOrder,Written.returned,absent]
      rfl
    · rw [(return_visit conversions derived _ _ visited).1,before,Written.beforeOrder,Written.returned,only]
      rfl
  have kept : ended.query.orderBy = ordered.query.orderBy := by
    rcases limiting with ⟨-,rfl⟩ | ⟨text,children,-,derived,visited⟩
    · rfl
    · have all := all_among limitRules (by decide) (.rule derived) (by decide) _ (List.mem_singleton_self _)
      exact Tree.visit_keeps (fun s => s.query.orderBy) _ (limit_keeps conversions) _ all _ _ visited
  rcases ordering with ⟨absent,rfl⟩ | ⟨text,children,only,derived,visited⟩
  · simp [Written.ordered,absent] at written
  · have found : items = Written.orderItems conversions [.node .orderByClause text children] := by
      rw [Written.ordered,only] at written
      exact (Option.some.inj written).symm
    rw [kept,order_visit conversions derived _ _ visited,← found,left,Option.some.injEq,ascending_same,
      Expression.piled_same _ _ fun e among => ?_]
    · rfl
    · obtain ⟨item,member,rfl⟩ := List.mem_map.mp among
      exact keys item member

def namesDescending : Bytes := ascii "MATCH (n) RETURN n.name ORDER BY n.name DESC"

theorem names_descending_ordered : ∃ query tree,
    CypherParser.parse wholeNumbers namesDescending = .ok query ∧ Reads namesDescending tree ∧
      Written.ordered wholeNumbers tree =
        some [⟨.propertyAccess (ascii "n") (ascii "name"),.desc⟩] ∧
      query.orderBy.map OrderByClause.items = some [⟨.identifier (ascii "n"),.asc⟩,
        ⟨.identifier (ascii "n"),.asc⟩,⟨.identifier (ascii "n"),.asc⟩,
        ⟨.propertyAccess (ascii "n") (ascii "name"),.asc⟩] := by
  obtain ⟨query,tree,parsed,reads,differs⟩ := parsed_of_run wholeNumbers namesDescending 70
    (fun query tree => decide (Written.ordered wholeNumbers tree =
        some [⟨.propertyAccess (ascii "n") (ascii "name"),.desc⟩]) &&
      decide (query.orderBy.map OrderByClause.items = some [⟨.identifier (ascii "n"),.asc⟩,
        ⟨.identifier (ascii "n"),.asc⟩,⟨.identifier (ascii "n"),.asc⟩,
        ⟨.propertyAccess (ascii "n") (ascii "name"),.asc⟩]))
    (by decide +kernel)
  rw [Bool.and_eq_true,decide_eq_true_eq,decide_eq_true_eq] at differs
  exact ⟨query,tree,parsed,reads,differs⟩

def byNodeAndAge : Bytes := ascii "MATCH (n) RETURN n ORDER BY n, n.age"

theorem parsed_orders_node : ∃ query tree,
    CypherParser.parse wholeNumbers byNodeAndAge = .ok query ∧ Reads byNodeAndAge tree ∧
      (query.orderBy.map OrderByClause.items =
          some [⟨.identifier (ascii "n"),.asc⟩,⟨.propertyAccess (ascii "n") (ascii "age"),.asc⟩] ↔
        OrdersFit [⟨.identifier (ascii "n"),.asc⟩,⟨.propertyAccess (ascii "n") (ascii "age"),.asc⟩]
          (Written.beforeOrder wholeNumbers tree)) := by
  obtain ⟨query,tree,parsed,reads,written⟩ := parsed_of_run wholeNumbers byNodeAndAge 70
    (fun _ tree => decide (Written.ordered wholeNumbers tree =
      some [⟨.identifier (ascii "n"),.asc⟩,⟨.propertyAccess (ascii "n") (ascii "age"),.asc⟩]))
    (by decide +kernel)
  rw [decide_eq_true_eq] at written
  obtain ⟨read,reads',exactly⟩ := parsed_orders wholeNumbers byNodeAndAge query parsed
  obtain rfl : read = tree := Option.some.inj (reads'.symm.trans reads)
  exact ⟨query,read,parsed,reads,exactly _ written (by decide)⟩

-- nothing to order by
example : (Peg.run body 70 (.rule .query) (ascii "MATCH (p) RETURN p ORDER BY")).any fun outcome =>
    (CypherParser.build wholeNumbers (ascii "MATCH (p) RETURN p ORDER BY") outcome).toOption.isNone := by decide +kernel

end LoreDB.Query.Cypher
