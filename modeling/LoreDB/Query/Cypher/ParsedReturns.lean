import LoreDB.Query.Cypher.ParsedConditions

/-! RETURN lists. An item takes the expression that its own expression leaves on top, whatever else
the clauses before it have left on the stack, and no item has its alias. -/
namespace LoreDB.Query.Cypher
open LoreDB.Storage LoreDB.Library Grammar Peg

def ParserState.returned (state : ParserState) : List ReturnItem := state.returnStack.headD []

section Building

variable (conversions : Conversions)

theorem buildReturnItem_takes (s : ParserState) :
    s.buildReturnItem.expressionStack = s.expressionStack.tail ∧
      s.buildReturnItem.returned = s.returned ++ (s.expressionStack.head?.map fun e => ⟨e,none⟩).toList := by
  unfold ParserState.buildReturnItem
  split
  · rename_i empty
    simp [empty]
  · rename_i top
    simp [top,ParserState.returned]

/-- The name after AS lies on the stack like any other. -/
theorem alias_visit {text : Bytes} {trees : List CypherTree}
    (derived : Derives body (opt (group [.rule .ws,.rule .asKeyword,.rule .ws,.rule .identifier])) text trees)
    (s s' : ParserState) (visited : Tree.visitAll (buildNodeOf conversions) trees s = .ok s') :
    ∃ name : Option Bytes,
      ((Tree.insideAll (fun rule => is .expression rule || is .identifier rule) trees).find? fun part =>
        part.label == .identifier).map Tree.text = name ∧
      Tree.insideAll (is .expression) trees = [] ∧
      s'.expressionStack = name.elim s.expressionStack (fun name => .identifier name :: s.expressionStack) ∧
      s'.results = s.results := by
  have results := idle_part conversions derived (by decide) s s' visited
  rcases (derives_opt _).mp derived with one | ⟨-,rfl⟩
  · obtain ⟨children,rfl,within⟩ := (derives_labelled _ _).mp one
    obtain ⟨blank,blankTrees,_,_,rfl,spaces,d1⟩ := rule_then within
    obtain ⟨word,wordTrees,_,_,rfl,words,d2⟩ := rule_then d1
    obtain ⟨blank',blankTrees',_,_,rfl,spaces',d3⟩ := rule_then d2
    obtain ⟨name,nameTrees,_,_,rfl,named,d4⟩ := rule_then d3
    obtain ⟨-,rfl⟩ := derives_all_nil.mp d4
    obtain ⟨-,rfl⟩ := identifier_text named
    obtain ⟨_,here,same⟩ := (Tree.visitAll_cons ..).mp visited
    obtain rfl := (Tree.visitAll_nil ..).mp same
    obtain ⟨_,walked,same⟩ := (Tree.visit_node ..).mp here
    obtain rfl := Except.ok.inj same
    obtain ⟨_,skip1,v1⟩ := (Tree.visitAll_cons ..).mp walked
    obtain rfl := silent_visit conversions .ws (by decide) spaces _ _ skip1
    obtain ⟨_,skip2,v2⟩ := (Tree.visitAll_cons ..).mp v1
    obtain rfl := silent_visit conversions .asKeyword (by decide) words _ _ skip2
    obtain ⟨_,skip3,v3⟩ := (Tree.visitAll_cons ..).mp v2
    obtain rfl := silent_visit conversions .ws (by decide) spaces' _ _ skip3
    obtain ⟨_,pushed,v4⟩ := (Tree.visitAll_cons ..).mp v3
    obtain rfl := (Tree.visitAll_nil ..).mp v4
    obtain rfl := Except.ok.inj pushed
    have quiet (rule : Rule) (kind : among silentRules rule = true) {text : Bytes} {trees : List CypherTree}
        (derived : Derives body (body rule) text trees) :
        Tree.inside (fun rule => is .expression rule || is .identifier rule) (.node rule text trees) = [] ∧
          Tree.inside (is .expression) (.node rule text trees) = [] :=
      ⟨silent_nothing _ (by decide) kind derived,silent_nothing _ (by decide) kind derived⟩
    refine ⟨some name,?_,?_,rfl,results⟩
    · simp (disch := decide) [Tree.inside_below Rule.unnamed,Tree.inside_here,
        (quiet .ws (by decide) spaces).1,(quiet .ws (by decide) spaces').1,
        (quiet .asKeyword (by decide) words).1]
    · simp (disch := decide) [Tree.inside_below Rule.unnamed,Tree.inside_below Rule.identifier,
        (quiet .ws (by decide) spaces).2,(quiet .ws (by decide) spaces').2,
        (quiet .asKeyword (by decide) words).2]
  · obtain rfl := (Tree.visitAll_nil ..).mp visited
    exact ⟨none,rfl,rfl,rfl,rfl⟩

theorem item_visit {text : Bytes} {children : List CypherTree}
    (derived : Derives body (body .returnItem) text children) (s s' : ParserState)
    (visited : Tree.visit (buildNodeOf conversions) (.node .returnItem text children) s = .ok s') :
    ∃ item, Written.item conversions (.node .returnItem text children) = some item ∧
      s'.expressionStack = (item.onto s.expressionStack).tail ∧
      s'.returned = s.returned ++ ((item.onto s.expressionStack).head?.map fun e => ⟨e,none⟩).toList := by
  obtain ⟨inside,insideTrees,_,_,rfl,inner,d1⟩ := rule_then derived
  obtain ⟨part,partTrees,_,_,rfl,maybe,d2⟩ := optional_then d1
  obtain ⟨-,rfl⟩ := derives_all_nil.mp d2
  obtain ⟨_,walked,done⟩ := (Tree.visit_node ..).mp visited
  obtain rfl := Except.ok.inj done
  obtain ⟨evaluated,here,v1⟩ := (Tree.visitAll_cons ..).mp walked
  obtain ⟨_,naming,v2⟩ := (Tree.visitAll_cons ..).mp v1
  obtain rfl := (Tree.visitAll_nil ..).mp v2
  obtain ⟨aliased,named,same⟩ := (Tree.visit_node ..).mp naming
  obtain rfl := Except.ok.inj same
  obtain ⟨e,written,stack,results⟩ := expression_visit conversions inner _ _ here
  obtain ⟨name,read,noExpression,stack',results'⟩ := alias_visit conversions maybe _ _ named
  have onto : aliased.expressionStack = (ReturnItem.mk e name).onto s.expressionStack := by
    rw [stack',stack,ReturnItem.onto]
  have kept : aliased.returned = s.returned :=
    congrArg (fun results : Results => results.returnStack.headD []) (results'.trans results)
  refine ⟨⟨e,name⟩,?_,?_,?_⟩
  · have alone : Written.aliasName (.node .returnItem text
        [.node .expression inside insideTrees,.node .unnamed part partTrees]) = name := by
      rw [← read]
      simp (disch := decide) only [Written.aliasName,Tree.inside_below Rule.returnItem,
        Tree.inside_below Rule.unnamed,Tree.inside_here,Tree.insideAll_cons,Tree.insideAll_nil,
        List.append_nil,List.cons_append,List.nil_append]
      rw [List.find?_cons_of_neg (by simp [Tree.label])]
    simp (disch := decide) [Written.item,alone,Tree.inside_below Rule.returnItem,
      Tree.inside_below Rule.unnamed,Tree.inside_here,noExpression,written]
  · rw [(buildReturnItem_takes _).1,onto]
  · rw [(buildReturnItem_takes _).2,onto,kept]

/-! The list. -/

def separatorRules : List Rule := .unnamed :: silentRules

theorem separator_keeps (rule : Rule) (text : Bytes) (children : List CypherTree) (s s' : ParserState)
    (kind : among separatorRules rule = true)
    (done : buildNodeOf conversions rule text children s = .ok s') : s' = s := by
  simp only [among,separatorRules,List.contains_iff_mem,List.mem_cons] at kind
  rcases kind with rfl | silent
  · exact (Except.ok.inj done).symm
  · exact silent_keeps conversions rule text children s s' (List.contains_iff_mem.mpr silent) done

theorem separator_part {e : Expr} {text : Bytes} {trees : List CypherTree}
    (derived : Derives body e text trees) (holds : e.within (among separatorRules) = true)
    (s s' : ParserState) (visited : Tree.visitAll (buildNodeOf conversions) trees s = .ok s') : s' = s :=
  Tree.visitAll_keeps id (among separatorRules) (separator_keeps conversions) trees
    (all_among separatorRules (by decide) derived holds) s s' visited

def ItemsTaken (trees : List CypherTree) (s s' : ParserState) : Prop :=
  s'.expressionStack = ReturnItem.leftover (Written.items conversions trees) s.expressionStack ∧
    s'.returned = s.returned ++ ReturnItem.taken (Written.items conversions trees) s.expressionStack

theorem itemsTaken_trans {before after : List CypherTree} {s middle s' : ParserState}
    (first : ItemsTaken conversions before s middle) (second : ItemsTaken conversions after middle s') :
    ItemsTaken conversions (before ++ after) s s' := by
  obtain ⟨stack,items⟩ := first
  obtain ⟨stack',items'⟩ := second
  have split : Written.items conversions (before ++ after) =
      Written.items conversions before ++ Written.items conversions after := by
    simp [Written.items]
  refine ⟨?_,?_⟩
  · rw [stack',stack,split,ReturnItem.leftover,ReturnItem.leftover,ReturnItem.leftover,List.foldl_append]
  · rw [items',items,stack,split,ReturnItem.taken_append,List.append_assoc]

theorem itemList_visit {text : Bytes} {trees : List CypherTree}
    (derived : Derives body (body .returnList) text trees) (s s' : ParserState)
    (visited : Tree.visitAll (buildNodeOf conversions) trees s = .ok s') :
    ItemsTaken conversions trees s s' := by
  refine list_visits (ItemsTaken conversions) (fun s => ⟨rfl,(List.append_nil _).symm⟩)
    (fun _ _ _ _ _ => itemsTaken_trans conversions) ?_ ?_ derived s s' visited
  · intro text trees s s' element visited
    obtain ⟨children,rfl,within⟩ := (derives_rule _).mp element
    obtain ⟨_,here,same⟩ := (Tree.visitAll_cons ..).mp visited
    obtain rfl := (Tree.visitAll_nil ..).mp same
    obtain ⟨item,written,stack,returned⟩ := item_visit conversions within _ _ here
    have only : Written.items conversions [.node .returnItem text children] = [item] := by
      simp (disch := decide) only [Written.items,Tree.insideAll_cons,Tree.insideAll_nil,Tree.inside_here,
        List.append_nil,List.filterMap_cons_some written,List.filterMap_nil]
    rw [ItemsTaken,only]
    refine ⟨stack,?_⟩
    rw [returned,ReturnItem.taken,ReturnItem.taken,List.append_nil]
  · intro text trees s s' apart visited
    have none : Written.items conversions trees = [] := by
      rw [Written.items,comma_inside (is .returnItem) (by decide) apart]
      rfl
    rw [ItemsTaken,none,separator_part conversions apart (by decide) s s' visited]
    exact ⟨rfl,(List.append_nil _).symm⟩

theorem return_visit {text : Bytes} {children : List CypherTree}
    (derived : Derives body (body .returnClause) text children) (s s' : ParserState)
    (visited : Tree.visit (buildNodeOf conversions) (.node .returnClause text children) s = .ok s') :
    s'.expressionStack = ReturnItem.leftover
        (Written.items conversions [.node .returnClause text children]) s.expressionStack ∧
      s'.query.returnClause.map ReturnClause.items = some (s.returned ++ ReturnItem.taken
        (Written.items conversions [.node .returnClause text children]) s.expressionStack) := by
  obtain ⟨word,wordTrees,_,_,rfl,words,d1⟩ := rule_then derived
  obtain ⟨part,partTrees,_,_,rfl,maybe,d2⟩ := optional_then d1
  obtain ⟨blank,blankTrees,_,_,rfl,spaces,d3⟩ := rule_then d2
  obtain ⟨list,listTrees,_,_,rfl,listed,d4⟩ := rule_then d3
  obtain ⟨-,rfl⟩ := derives_all_nil.mp d4
  obtain ⟨_,walked,done⟩ := (Tree.visit_node ..).mp visited
  obtain rfl := Except.ok.inj done
  obtain ⟨_,skip1,v1⟩ := (Tree.visitAll_cons ..).mp walked
  obtain rfl := silent_visit conversions .returnKeyword (by decide) words _ _ skip1
  obtain ⟨_,skip2,v2⟩ := (Tree.visitAll_cons ..).mp v1
  obtain ⟨_,distinct,same⟩ := (Tree.visit_node ..).mp skip2
  obtain rfl := Except.ok.inj same
  obtain rfl := separator_part conversions maybe (by decide) _ _ distinct
  obtain ⟨_,skip3,v3⟩ := (Tree.visitAll_cons ..).mp v2
  obtain rfl := silent_visit conversions .ws (by decide) spaces _ _ skip3
  obtain ⟨_,here,v4⟩ := (Tree.visitAll_cons ..).mp v3
  obtain rfl := (Tree.visitAll_nil ..).mp v4
  obtain ⟨_,listing,same⟩ := (Tree.visit_node ..).mp here
  obtain rfl := Except.ok.inj same
  obtain ⟨stack,items⟩ := itemList_visit conversions listed _ _ listing
  have noWord := silent_nothing (is .returnItem) (by decide) (by decide) words
  have noBlank := silent_nothing (is .returnItem) (by decide) (by decide) spaces
  have noPart : Tree.insideAll (is .returnItem) partTrees = [] :=
    inside_absent separatorRules (by decide) (is .returnItem) (by decide) maybe (by decide)
  have only : Written.items conversions [.node .returnClause text [.node .returnKeyword word wordTrees,
      .node .unnamed part partTrees,.node .ws blank blankTrees,.node .returnList list listTrees]] =
        Written.items conversions listTrees := by
    simp (disch := decide) only [Written.items,Tree.insideAll_cons,Tree.insideAll_nil,
      Tree.inside_below Rule.returnClause,Tree.inside_below Rule.unnamed,Tree.inside_below Rule.returnList,
      noWord,noBlank,noPart,List.append_nil,List.nil_append]
  rw [only,← items]
  exact ⟨stack,rfl⟩

end Building

/-! Whole queries. -/

namespace Written

variable (conversions : Conversions)

/-- What the clauses before it leave for RETURN. -/
def beforeReturn (tree : CypherTree) : List Expression :=
  let matched := mentions conversions (opening tree)
  let conditioned := (expressionOf conversions .whereClause tree).elim matched fun e =>
    (e.onto matched).tail
  let assigned := (expressionOf conversions .setClause tree).elim conditioned fun e =>
    (e.onto ((target tree).toList.map .identifier ++ conditioned)).tail
  mentions conversions (tree.inside (is .deleteClause)) ++ assigned

def returned (tree : CypherTree) : Option (List ReturnItem) :=
  (tree.inside (is .returnClause)).head?.map fun clause => items conversions [clause]

/-- No item has an alias, and each finds its variables on what the ones before it leave. -/
def ReturnsFit (tree : CypherTree) : Prop :=
  ∀ items ∈ returned conversions tree, ReturnItem.Fit items (beforeReturn conversions tree)

end Written

theorem condition_leaves (conversions : Conversions) (tree : CypherTree) (s s' : ParserState)
    (visited : Visited conversions .whereClause (tree.inside (is .whereClause)) s s') :
    s'.expressionStack = (Written.expressionOf conversions .whereClause tree).elim s.expressionStack
        (fun e => (e.onto s.expressionStack).tail) ∧
      s'.returned = s.returned ∧ s'.query.returnClause = s.query.returnClause := by
  rcases visited with ⟨absent,rfl⟩ | ⟨text,children,only,derived,visited⟩
  · simp [Written.expressionOf,absent]
  · obtain ⟨e,written,stack,results⟩ := where_visit conversions derived s s' visited
    have found : Written.expressionOf conversions .whereClause tree = some e := by
      rw [← written,Written.expressionOf,Written.expressionOf,only,Tree.inside_here _ _ _ (by decide)]
    rw [found]
    exact ⟨stack,congrArg (fun results : Results => results.returnStack.headD []) results,
      congrArg Results.returnClause results⟩

theorem value_leaves (conversions : Conversions) (tree : CypherTree) (s s' : ParserState)
    (visited : Visited conversions .setClause (tree.inside (is .setClause)) s s') :
    s'.expressionStack = (Written.expressionOf conversions .setClause tree).elim s.expressionStack
        (fun e => (e.onto ((Written.target tree).toList.map .identifier ++ s.expressionStack)).tail) ∧
      s'.returned = s.returned ∧ s'.query.returnClause = s.query.returnClause := by
  rcases visited with ⟨absent,rfl⟩ | ⟨text,children,only,derived,visited⟩
  · simp [Written.expressionOf,absent]
  · obtain ⟨e,entity,key,written,target,stack,results⟩ := set_visit conversions derived s s' visited
    have found : Written.expressionOf conversions .setClause tree = some e := by
      rw [← written,Written.expressionOf,Written.expressionOf,only,Tree.inside_here _ _ _ (by decide)]
    have set : Written.target tree = some entity := by
      rw [← target,Written.target,Written.target,only,Tree.inside_here _ _ _ (by decide)]
    rw [found,set]
    exact ⟨stack,congrArg (fun results : Results => results.returnStack.headD []) results,
      congrArg Results.returnClause results⟩

/-- How the clauses from RETURN on find the stack. -/
theorem return_reached (conversions : Conversions) (text : Bytes) (query : Query)
    (parsed : CypherParser.parse conversions text = .ok query) :
    ∃ tree, ∃ reached returned ordered ended : ParserState, Reads text tree ∧
      reached.expressionStack = Written.beforeReturn conversions tree ∧
      reached.returned = [] ∧ reached.query.returnClause = none ∧
      Visited conversions .returnClause (tree.inside (is .returnClause)) reached returned ∧
      Visited conversions .orderByClause (tree.inside (is .orderByClause)) returned ordered ∧
      Visited conversions .limitClause (tree.inside (is .limitClause)) ordered ended ∧
      ended.query = query := by
  obtain ⟨tree,last,reads,result,matched,matching,opened,creating,conditioned,conditioning,assigned,
    assigning,deleted,deleting,returned,returning,ordered,ordering,ended,limiting,rfl⟩ :=
    parsed_in_order conversions text query parsed
  obtain ⟨opens,results1⟩ := mentioned conversions (by decide) (by decide) _ _ matching
  obtain ⟨opens',results2⟩ := mentioned conversions (by decide) (by decide) _ _ creating
  obtain ⟨stack1,items1,clause1⟩ := condition_leaves conversions tree _ _ conditioning
  obtain ⟨stack2,items2,clause2⟩ := value_leaves conversions tree _ _ assigning
  obtain ⟨stack3,results3⟩ := mentioned conversions (by decide) (by decide) _ _ deleting
  have results : opened.results = ParserState.results {} := results2.trans results1
  refine ⟨tree,deleted,returned,ordered,ended,reads,?_,?_,?_,returning,ordering,limiting,result⟩
  · have stack : opened.expressionStack = Written.mentions conversions (Written.opening tree) := by
      rw [opens',opens,Written.opening,mentions_append]
      exact (List.append_nil _).symm ▸ rfl
    rw [stack3,stack2,stack1,stack,Written.beforeReturn]
  · have kept : deleted.returned = assigned.returned :=
      congrArg (fun results : Results => results.returnStack.headD []) results3
    rw [kept,items2,items1]
    exact congrArg (fun results : Results => results.returnStack.headD []) results
  · have kept : deleted.query.returnClause = assigned.query.returnClause :=
      congrArg Results.returnClause results3
    rw [kept,clause2,clause1]
    exact congrArg Results.returnClause results

/-- What a RETURN clause has is what its items take from what the clauses before it leave. -/
theorem returned_taken (conversions : Conversions) (text : Bytes) (query : Query)
    (parsed : CypherParser.parse conversions text = .ok query) :
    ∃ tree, Reads text tree ∧ query.returnClause.map ReturnClause.items =
      (Written.returned conversions tree).map fun items =>
        ReturnItem.taken items (Written.beforeReturn conversions tree) := by
  obtain ⟨tree,reached,returned,ordered,ended,reads,before,empty,none,returning,ordering,limiting,rfl⟩ :=
    return_reached conversions text query parsed
  refine ⟨tree,reads,?_⟩
  have last : ended.query.returnClause = returned.query.returnClause :=
    congrArg Results.returnClause ((idle_visited conversions (by decide) _ _ limiting).trans
      (idle_visited conversions (by decide) _ _ ordering))
  rw [last]
  rcases returning with ⟨absent,rfl⟩ | ⟨text,children,only,derived,visited⟩
  · simp [Written.returned,absent,none]
  · rw [(return_visit conversions derived _ _ visited).2,empty,before,Written.returned,only]
    rfl

/-- The items are what is written if each finds its variables; if no comparison is left before RETURN,
they are only then. -/
theorem parsed_returns (conversions : Conversions) (text : Bytes) (query : Query)
    (parsed : CypherParser.parse conversions text = .ok query) :
    ∃ tree, Reads text tree ∧
      (Written.ReturnsFit conversions tree →
        query.returnClause.map ReturnClause.items = Written.returned conversions tree) ∧
      (Expression.Plain (Written.beforeReturn conversions tree) →
        (query.returnClause.map ReturnClause.items = Written.returned conversions tree ↔
          Written.ReturnsFit conversions tree)) := by
  obtain ⟨tree,reads,items⟩ := returned_taken conversions text query parsed
  refine ⟨tree,reads,?_⟩
  rw [items,Written.ReturnsFit]
  cases Written.returned conversions tree with
  | none => simp
  | some written =>
    have enough (fit : ReturnItem.Fit written (Written.beforeReturn conversions tree)) :
        (some written).map (fun items => ReturnItem.taken items (Written.beforeReturn conversions tree)) =
          some written := congrArg some (ReturnItem.taken_fit written _ fit)
    refine ⟨fun fit => enough (fit written rfl),fun plain => ⟨?_,fun fit => enough (fit written rfl)⟩⟩
    rintro same _ ⟨rfl⟩
    exact ReturnItem.fit_of_taken written _ plain (Option.some.inj same)

def everyPerson : Bytes := ascii "MATCH (p:Person) RETURN p"

/-- The label is mentioned last. -/
theorem every_person_returned : ∃ query tree,
    CypherParser.parse wholeNumbers everyPerson = .ok query ∧ Reads everyPerson tree ∧
      query.returnClause.map ReturnClause.items = some [⟨.identifier (ascii "Person"),none⟩] ∧
      query.returnClause.map ReturnClause.items ≠ Written.returned wholeNumbers tree := by
  obtain ⟨query,tree,parsed,reads,differs⟩ := parsed_of_run wholeNumbers everyPerson 70
    (fun query tree => decide (query.returnClause.map ReturnClause.items =
        some [⟨.identifier (ascii "Person"),none⟩]) &&
      decide (query.returnClause.map ReturnClause.items ≠ Written.returned wholeNumbers tree))
    (by decide +kernel)
  rw [Bool.and_eq_true,decide_eq_true_eq,decide_eq_true_eq] at differs
  exact ⟨query,tree,parsed,reads,differs⟩

theorem parsed_returns_person : ∃ query tree,
    CypherParser.parse wholeNumbers everyPerson = .ok query ∧ Reads everyPerson tree ∧
      (Written.ReturnsFit wholeNumbers tree →
        query.returnClause.map ReturnClause.items = Written.returned wholeNumbers tree) := by
  obtain ⟨query,tree,parsed,-,-⟩ := parsed_of_run wholeNumbers everyPerson 70
    (fun _ _ => true) (by decide +kernel)
  obtain ⟨read,reads,fits,-⟩ := parsed_returns wholeNumbers everyPerson query parsed
  exact ⟨query,read,parsed,reads,fits⟩

-- nothing to return
example : (Peg.run body 70 (.rule .query) (ascii "MATCH (p) RETURN")).any fun outcome =>
    (CypherParser.build wholeNumbers (ascii "MATCH (p) RETURN") outcome).toOption.isNone := by decide +kernel

end LoreDB.Query.Cypher
