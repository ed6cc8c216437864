import LoreDB.Query.Cypher.ParsedClauses

/-! WHERE conditions and SET values. Each clause takes the expression that its own expression leaves
on top, so it has what was written exactly where that expression finds its variables on the stack. -/
namespace LoreDB.Query.Cypher
open LoreDB.Storage LoreDB.Library Grammar Peg

/-- The clauses that take expressions, and the items that wait for theirs. -/
@[ext] structure Results where
  whereClause : Option WhereClause
  setClause : Option SetClause
  returnClause : Option ReturnClause
  returnStack : List (List ReturnItem)

def ParserState.results (state : ParserState) : Results where
  whereClause := state.query.whereClause
  setClause := state.query.setClause
  returnClause := state.query.returnClause
  returnStack := state.returnStack

namespace Results

def setWhere (stack : List Expression) (results : Results) : Results :=
  {results with whereClause := (stack.head?.map WhereClause.mk).or results.whereClause}

def setValue (entity key : Bytes) (stack : List Expression) (results : Results) : Results :=
  {results with setClause := (stack.head?.map (SetClause.mk entity key)).or results.setClause}

end Results

section Building

variable (conversions : Conversions)

/-- The rules under which no clause takes an expression. -/
def idleRules : List Rule := [.matchClause,.createClause,.deleteClause,.orderByClause,.limitClause,
  .propertyAccess,.setAssignment,.orderDirection,.orderItem,.orderList,.limitKeyword,.orderKeyword,.byKeyword,
  .ascKeyword,.descKeyword] ++ namingRules ++ silentRules ++ expressionRules

theorem idle_keeps (rule : Rule) (text : Bytes) (children : List CypherTree) (s s' : ParserState)
    (kind : among idleRules rule = true) (done : buildNodeOf conversions rule text children s = .ok s') :
    s'.results = s.results := by
  cases rule
  case number =>
    obtain ⟨value,-,rfl⟩ := Tree.map_ok.mp done
    rfl
  case propertyPair =>
    obtain ⟨pair,-,rfl⟩ := Tree.map_ok.mp done
    unfold ParserState.addProperty
    split <;> rfl
  case directedEdge | undirectedEdge | simpleUndirectedEdge =>
    obtain ⟨hops,-,rfl⟩ := Tree.map_ok.mp done
    rfl
  case label =>
    obtain rfl := Except.ok.inj done
    unfold ParserState.addLabel
    split <;> rfl
  case edgeType =>
    obtain rfl := Except.ok.inj done
    unfold ParserState.addEdgeType
    split <;> rfl
  case propertyMap =>
    obtain rfl := Except.ok.inj done
    unfold ParserState.buildPropertyMap
    split <;> rfl
  case pattern =>
    obtain rfl := Except.ok.inj done
    unfold ParserState.buildPattern
    dsimp only
    split <;> rfl
  case deleteClause =>
    obtain rfl := Except.ok.inj done
    unfold ParserState.buildDelete
    dsimp only
    split <;> rfl
  case propertyAccessExpression =>
    obtain rfl := Except.ok.inj done
    split <;> rfl
  case comparisonExpression =>
    obtain rfl := Except.ok.inj done
    unfold ParserState.buildComparison
    split <;> rfl
  case limitClause =>
    simp only [buildNodeOf] at done
    split at done
    · obtain ⟨count,-,rfl⟩ := Tree.map_ok.mp done
      rfl
    · obtain rfl := Except.ok.inj done
      rfl
  all_goals first
    | exact absurd kind (by decide)
    | (obtain rfl := Except.ok.inj done; rfl)

theorem idle_part {e : Expr} {text : Bytes} {trees : List CypherTree}
    (derived : Derives body e text trees) (holds : e.within (among idleRules) = true)
    (s s' : ParserState) (visited : Tree.visitAll (buildNodeOf conversions) trees s = .ok s') :
    s'.results = s.results :=
  Tree.visitAll_keeps ParserState.results (among idleRules) (idle_keeps conversions) trees
    (all_among idleRules (by decide) derived holds) s s' visited

/-! The clauses. -/

theorem silent_nothing (wanted : Rule → Bool) (apart : (silentRules.all fun rule => !wanted rule) = true)
    {rule : Rule} (kind : among silentRules rule = true) {text : Bytes} {trees : List CypherTree}
    (derived : Derives body (body rule) text trees) : Tree.inside wanted (.node rule text trees) = [] := by
  have none := inside_absent silentRules (by decide) wanted apart (.rule derived) kind
  rwa [Tree.insideAll_cons,Tree.insideAll_nil,List.append_nil] at none

theorem expression_visit {text : Bytes} {children : List CypherTree}
    (derived : Derives body (body .expression) text children) (s s' : ParserState)
    (visited : Tree.visit (buildNodeOf conversions) (.node .expression text children) s = .ok s') :
    ∃ e, Written.expression conversions (.node .expression text children) = some e ∧
      s'.expressionStack = e.onto s.expressionStack ∧ s'.results = s.results := by
  obtain ⟨e,written,onto⟩ :=
    expression_said conversions _ _ _ _ rfl (by decide) derived s s' visited
  refine ⟨e,written,onto,idle_part conversions (.rule derived) (by decide) s s' ?_⟩
  simpa using visited

theorem buildWhere_takes (s : ParserState) :
    s.buildWhere.expressionStack = s.expressionStack.tail ∧
      s.buildWhere.results = s.results.setWhere s.expressionStack := by
  unfold ParserState.buildWhere
  split
  · rename_i empty
    simp [empty,Results.setWhere]
  · rename_i top
    simp [top,Results.setWhere,ParserState.results]

theorem buildSet_takes (children : List CypherTree) (entity key : Bytes) (s : ParserState)
    (names : setNames children = (entity,key)) (entity_some : entity ≠ []) (key_some : key ≠ []) :
    (s.buildSet children).expressionStack = s.expressionStack.tail ∧
      (s.buildSet children).results = s.results.setValue entity key s.expressionStack := by
  unfold ParserState.buildSet
  split
  · rename_i empty
    simp [empty,Results.setValue]
  · rename_i top
    simp [top,names,entity_some,key_some,Results.setValue,ParserState.results]

theorem where_visit {text : Bytes} {children : List CypherTree}
    (derived : Derives body (body .whereClause) text children) (s s' : ParserState)
    (visited : Tree.visit (buildNodeOf conversions) (.node .whereClause text children) s = .ok s') :
    ∃ e, Written.expressionOf conversions .whereClause (.node .whereClause text children) = some e ∧
      s'.expressionStack = (e.onto s.expressionStack).tail ∧
      s'.results = s.results.setWhere (e.onto s.expressionStack) := by
  obtain ⟨word,wordTrees,_,_,rfl,words,d1⟩ := rule_then derived
  obtain ⟨blank,blankTrees,_,_,rfl,spaces,d2⟩ := rule_then d1
  obtain ⟨inside,insideTrees,_,_,rfl,inner,d3⟩ := rule_then d2
  obtain ⟨-,rfl⟩ := derives_all_nil.mp d3
  obtain ⟨middle,walked,done⟩ := (Tree.visit_node ..).mp visited
  obtain rfl := Except.ok.inj done
  obtain ⟨_,skip1,v1⟩ := (Tree.visitAll_cons ..).mp walked
  obtain rfl := silent_visit conversions .whereKeyword (by decide) words _ _ skip1
  obtain ⟨_,skip2,v2⟩ := (Tree.visitAll_cons ..).mp v1
  obtain rfl := silent_visit conversions .ws (by decide) spaces _ _ skip2
  obtain ⟨_,here,v3⟩ := (Tree.visitAll_cons ..).mp v2
  obtain rfl := (Tree.visitAll_nil ..).mp v3
  obtain ⟨e,written,onto,results⟩ := expression_visit conversions inner _ _ here
  have noWord := silent_nothing (is .expression) (by decide) (by decide) words
  have noBlank := silent_nothing (is .expression) (by decide) (by decide) spaces
  refine ⟨e,?_,?_,?_⟩
  · simp (disch := decide) [Written.expressionOf,Tree.inside_here,Tree.inside_below Rule.whereClause,
      noWord,noBlank,written]
  · rw [(buildWhere_takes _).1,onto]
  · rw [(buildWhere_takes _).2,onto,results]

def accessTree (access entity key : Bytes) : CypherTree :=
  .node .propertyAccess access [.node .identifier entity [],.node .propertyKey key []]

theorem set_shape {text : Bytes} {children : List CypherTree}
    (derived : Derives body (body .setClause) text children) :
    ∃ word wordTrees blank blankTrees assignment access entity key before after inside insideTrees,
      children = [.node .setKeyword word wordTrees,.node .ws blank blankTrees,
        .node .setAssignment assignment [accessTree access entity key,.node .optWs before [],
          .node .optWs after [],.node .expression inside insideTrees]] ∧
      Derives body (body .setKeyword) word wordTrees ∧ Derives body (body .ws) blank blankTrees ∧
      entity ≠ [] ∧ key ≠ [] ∧ Derives body (body .expression) inside insideTrees := by
  obtain ⟨word,wordTrees,_,_,rfl,words,d1⟩ := rule_then derived
  obtain ⟨blank,blankTrees,_,_,rfl,spaces,d2⟩ := rule_then d1
  obtain ⟨assignment,assignmentTrees,_,_,rfl,assigned,d3⟩ := rule_then d2
  obtain ⟨-,rfl⟩ := derives_all_nil.mp d3
  obtain ⟨access,accessTrees,_,_,rfl,accessed,a1⟩ := rule_then assigned
  obtain ⟨before,_,_,rfl,a2⟩ := blank_then a1
  obtain ⟨_,a3⟩ := char_then a2
  obtain ⟨after,_,_,rfl,a4⟩ := blank_then a3
  obtain ⟨inside,insideTrees,_,_,rfl,inner,a5⟩ := rule_then a4
  obtain ⟨-,rfl⟩ := derives_all_nil.mp a5
  obtain ⟨entity,entityTrees,_,_,rfl,named,p1⟩ := rule_then accessed
  obtain ⟨_,p2⟩ := char_then p1
  obtain ⟨key,keyTrees,_,_,rfl,keyed,p3⟩ := rule_then p2
  obtain ⟨-,rfl⟩ := derives_all_nil.mp p3
  obtain ⟨entity_some,rfl⟩ := identifier_text named
  obtain ⟨key_some,rfl⟩ := identifier_text keyed
  exact ⟨word,wordTrees,blank,blankTrees,assignment,access,entity,key,before,after,inside,insideTrees,
    rfl,words,spaces,entity_some,key_some,inner⟩

/-- The variable of a SET clause lies under its expression. -/
theorem set_visit {text : Bytes} {children : List CypherTree}
    (derived : Derives body (body .setClause) text children) (s s' : ParserState)
    (visited : Tree.visit (buildNodeOf conversions) (.node .setClause text children) s = .ok s') :
    ∃ e entity key, Written.expressionOf conversions .setClause (.node .setClause text children) = some e ∧
      Written.target (.node .setClause text children) = some entity ∧
      s'.expressionStack = (e.onto (.identifier entity :: s.expressionStack)).tail ∧
      s'.results =
        s.results.setValue entity key (e.onto (.identifier entity :: s.expressionStack)) := by
  obtain ⟨word,wordTrees,blank,blankTrees,assignment,access,entity,key,before,after,inside,insideTrees,
    rfl,words,spaces,entity_some,key_some,inner⟩ := set_shape derived
  obtain ⟨beforeSet,walked,done⟩ := (Tree.visit_node ..).mp visited
  obtain rfl := Except.ok.inj done
  obtain ⟨afterWord,skip1,v1⟩ := (Tree.visitAll_cons ..).mp walked
  obtain rfl := silent_visit conversions .setKeyword (by decide) words _ _ skip1
  obtain ⟨afterBlank,skip2,v2⟩ := (Tree.visitAll_cons ..).mp v1
  obtain rfl := silent_visit conversions .ws (by decide) spaces _ _ skip2
  obtain ⟨_,here,v3⟩ := (Tree.visitAll_cons ..).mp v2
  obtain rfl := (Tree.visitAll_nil ..).mp v3
  obtain ⟨_,assigning,same⟩ := (Tree.visit_node ..).mp here
  obtain rfl := Except.ok.inj same
  obtain ⟨afterAccess,accessing,w1⟩ := (Tree.visitAll_cons ..).mp assigning
  obtain rfl := Except.ok.inj accessing
  obtain ⟨_,skip3,w2⟩ := (Tree.visitAll_cons ..).mp w1
  obtain rfl := Except.ok.inj skip3
  obtain ⟨_,skip4,w3⟩ := (Tree.visitAll_cons ..).mp w2
  obtain rfl := Except.ok.inj skip4
  obtain ⟨_,valued,w4⟩ := (Tree.visitAll_cons ..).mp w3
  obtain rfl := (Tree.visitAll_nil ..).mp w4
  obtain ⟨e,written,onto,results⟩ := expression_visit conversions inner _ _ valued
  have noWord := silent_nothing (is .expression) (by decide) (by decide) words
  have noBlank := silent_nothing (is .expression) (by decide) (by decide) spaces
  have noTarget := silent_nothing (is .propertyAccess) (by decide) (by decide) words
  have noTarget' := silent_nothing (is .propertyAccess) (by decide) (by decide) spaces
  have names : setNames [.node .setKeyword word wordTrees,.node .ws blank blankTrees,
      .node .setAssignment assignment [accessTree access entity key,.node .optWs before [],
        .node .optWs after [],.node .expression inside insideTrees]] = (entity,key) := by
    simp [setNames,childOf,assignedNames,accessTree]
  refine ⟨e,entity,key,?_,?_,?_,?_⟩
  · simp (disch := decide) [Written.expressionOf,Tree.inside_here,Tree.inside_below Rule.setClause,
      Tree.inside_below Rule.setAssignment,Tree.inside_below Rule.propertyAccess,
      Tree.inside_below Rule.identifier,Tree.inside_below Rule.propertyKey,
      Tree.inside_below Rule.optWs,accessTree,noWord,noBlank,written]
  · simp (disch := decide) [Written.target,Written.names,Tree.inside_here,Tree.inside_below Rule.setClause,
      Tree.inside_below Rule.setAssignment,Tree.inside_below Rule.propertyAccess,accessTree,
      noTarget,noTarget']
  · rw [(buildSet_takes _ entity key _ names entity_some key_some).1,onto]
    rfl
  · rw [(buildSet_takes _ entity key _ names entity_some key_some).2,onto,results]
    rfl

/-! Whole queries. -/

theorem idle_visited {rule : Rule} (idle : among idleRules rule = true) {clauses : List CypherTree}
    (s s' : ParserState) (visited : Visited conversions rule clauses s s') : s'.results = s.results := by
  rcases visited with ⟨rfl,rfl⟩ | ⟨text,children,rfl,derived,visited⟩
  · rfl
  · have visited : Tree.visitAll (buildNodeOf conversions) [.node rule text children] s = .ok s' := by
      simpa using visited
    exact idle_part conversions (.rule derived) idle s s' visited

theorem mentioned {rule : Rule} (kind : among mentionRules rule = true) (idle : among idleRules rule = true)
    {clauses : List CypherTree} (s s' : ParserState) (visited : Visited conversions rule clauses s s') :
    s'.expressionStack = Written.mentions conversions clauses ++ s.expressionStack ∧
      s'.results = s.results := by
  refine ⟨?_,idle_visited conversions idle s s' visited⟩
  rcases visited with ⟨rfl,rfl⟩ | ⟨text,children,rfl,derived,visited⟩
  · rfl
  · have visited : Tree.visitAll (buildNodeOf conversions) [.node rule text children] s = .ok s' := by
      simpa using visited
    exact mentions_part conversions (.rule derived) kind rfl s s' visited

/-- What the clauses of a query do, one kind after the other. -/
theorem query_visited (text : Bytes) (query : Query)
    (parsed : CypherParser.parse conversions text = .ok query) :
    ∃ tree, ∃ opened conditioned assigned deleted returned ended : ParserState, Reads text tree ∧
      opened.expressionStack = Written.mentions conversions (Written.opening tree) ∧
      opened.results = ParserState.results {} ∧
      Visited conversions .whereClause (tree.inside (is .whereClause)) opened conditioned ∧
      Visited conversions .setClause (tree.inside (is .setClause)) conditioned assigned ∧
      Visited conversions .deleteClause (tree.inside (is .deleteClause)) assigned deleted ∧
      Visited conversions .returnClause (tree.inside (is .returnClause)) deleted returned ∧
      ended.results = returned.results ∧ ended.query = query := by
  obtain ⟨tree,ended,reads,result,matched,matching,opened,creating,conditioned,conditioning,assigned,
    assigning,deleted,deleting,returned,returning,ordered,ordering,limited,limiting,rfl⟩ :=
    parsed_in_order conversions text query parsed
  obtain ⟨stack1,results1⟩ := mentioned conversions (by decide) (by decide) _ _ matching
  obtain ⟨stack2,results2⟩ := mentioned conversions (by decide) (by decide) _ _ creating
  refine ⟨tree,opened,conditioned,assigned,deleted,returned,limited,reads,?_,results2.trans results1,
    conditioning,assigning,deleting,returning,?_,result⟩
  · rw [stack2,stack1,Written.opening,mentions_append]
    exact (List.append_nil _).symm ▸ rfl
  · exact (idle_visited conversions (by decide) _ _ limiting).trans
      (idle_visited conversions (by decide) _ _ ordering)

/-! Nothing after them changes the conditions. -/

def ParserState.conditions (state : ParserState) : Option WhereClause × Option SetClause :=
  (state.query.whereClause,state.query.setClause)

def calmRules : List Rule := [.returnItem,.returnList,.returnClause] ++ idleRules

theorem calm_keeps (rule : Rule) (text : Bytes) (children : List CypherTree) (s s' : ParserState)
    (kind : among calmRules rule = true) (done : buildNodeOf conversions rule text children s = .ok s') :
    s'.conditions = s.conditions := by
  simp only [among,calmRules,List.contains_iff_mem,List.mem_append,List.mem_cons,List.not_mem_nil,
    or_false] at kind
  rcases kind with (rfl | rfl | rfl) | idle
  · obtain rfl := Except.ok.inj done
    unfold ParserState.buildReturnItem
    split <;> rfl
  · obtain rfl := Except.ok.inj done
    rfl
  · obtain rfl := Except.ok.inj done
    rfl
  · have results := idle_keeps conversions rule text children s s' (List.contains_iff_mem.mpr idle) done
    exact Prod.ext (congrArg Results.whereClause results) (congrArg Results.setClause results)

theorem calm_visited {rule : Rule} (calm : among calmRules rule = true) {clauses : List CypherTree}
    (s s' : ParserState) (visited : Visited conversions rule clauses s s') :
    s'.conditions = s.conditions := by
  rcases visited with ⟨rfl,rfl⟩ | ⟨text,children,rfl,derived,visited⟩
  · rfl
  · have all := all_among calmRules (by decide) (.rule derived) calm _ (List.mem_singleton_self _)
    exact Tree.visit_keeps ParserState.conditions _ (calm_keeps conversions) _ all s s' visited

end Building

/-- The condition and the value find their variables: the condition on what the patterns mention, the
value on the variable that is set and what the condition has left. -/
def Written.ConditionsFit (conversions : Conversions) (tree : CypherTree) : Prop :=
  let mentions := mentions conversions (opening tree)
  let condition := expressionOf conversions .whereClause tree
  (∀ e ∈ condition, e.Fits mentions) ∧
    ∀ e ∈ expressionOf conversions .setClause tree, ∀ entity ∈ target tree,
      e.Fits (.identifier entity :: condition.elim mentions (Expression.leaves mentions))

theorem where_fits (conversions : Conversions) (tree : CypherTree) (s s' : ParserState)
    (plain : Expression.Plain s.expressionStack) (none : s.results.whereClause = none)
    (visited : Visited conversions .whereClause (tree.inside (is .whereClause)) s s') :
    (s'.results.whereClause.map WhereClause.condition =
        Written.expressionOf conversions .whereClause tree ↔
      ∀ e ∈ Written.expressionOf conversions .whereClause tree, e.Fits s.expressionStack) ∧
    ((∀ e ∈ Written.expressionOf conversions .whereClause tree, e.Fits s.expressionStack) →
      s'.expressionStack = (Written.expressionOf conversions .whereClause tree).elim s.expressionStack
        (Expression.leaves s.expressionStack)) ∧ s'.results.setClause = s.results.setClause := by
  rcases visited with ⟨absent,rfl⟩ | ⟨text,children,only,derived,visited⟩
  · simp [Written.expressionOf,absent,none]
  · obtain ⟨e,written,stack,results⟩ := where_visit conversions derived s s' visited
    have found : Written.expressionOf conversions .whereClause tree = some e := by
      rw [← written,Written.expressionOf,Written.expressionOf,only,Tree.inside_here _ _ _ (by decide)]
    rw [found,results]
    refine ⟨?_,?_,rfl⟩
    · rw [Results.setWhere,none,Option.or_none,Option.map_map]
      simpa using Expression.fits_iff e plain
    · intro fits
      rw [stack,Expression.onto_fits e _ (fits e rfl)]
      rfl

theorem set_fits (conversions : Conversions) (tree : CypherTree) (s s' : ParserState)
    (none : s.results.setClause = none)
    (visited : Visited conversions .setClause (tree.inside (is .setClause)) s s') :
    s'.results.whereClause = s.results.whereClause ∧ (Expression.Plain s.expressionStack →
      (s'.results.setClause.map SetClause.value = Written.expressionOf conversions .setClause tree ↔
        ∀ e ∈ Written.expressionOf conversions .setClause tree, ∀ entity ∈ Written.target tree,
          e.Fits (.identifier entity :: s.expressionStack))) := by
  rcases visited with ⟨absent,rfl⟩ | ⟨text,children,only,derived,visited⟩
  · simp [Written.expressionOf,absent,none]
  · obtain ⟨e,entity,key,written,target,stack,results⟩ := set_visit conversions derived s s' visited
    have found : Written.expressionOf conversions .setClause tree = some e := by
      rw [← written,Written.expressionOf,Written.expressionOf,only,Tree.inside_here _ _ _ (by decide)]
    have set : Written.target tree = some entity := by
      rw [← target,Written.target,Written.target,only,Tree.inside_here _ _ _ (by decide)]
    rw [found,set,results]
    refine ⟨rfl,fun plain => ?_⟩
    rw [Results.setValue,none,Option.or_none,Option.map_map]
    simpa using Expression.fits_iff e (plain.cons_identifier entity)

/-- The condition and the value of a parsed query are what is written if and only if they find their
variables. -/
theorem parsed_conditions (conversions : Conversions) (text : Bytes) (query : Query)
    (parsed : CypherParser.parse conversions text = .ok query) :
    ∃ tree, Reads text tree ∧
      ((query.whereClause.map WhereClause.condition = Written.expressionOf conversions .whereClause tree ∧
          query.setClause.map SetClause.value = Written.expressionOf conversions .setClause tree) ↔
        Written.ConditionsFit conversions tree) := by
  obtain ⟨tree,opened,conditioned,assigned,deleted,returned,ended,reads,stack,results,conditioning,
    assigning,deleting,returning,same,rfl⟩ := query_visited conversions text query parsed
  refine ⟨tree,reads,?_⟩
  have conditions : ended.conditions = assigned.conditions := by
    have ended_conditions : ended.conditions = returned.conditions :=
      Prod.ext (congrArg Results.whereClause same) (congrArg Results.setClause same)
    rw [ended_conditions,calm_visited conversions (by decide) _ _ returning,
      calm_visited conversions (by decide) _ _ deleting]
  have condition : ended.query.whereClause = assigned.results.whereClause := congrArg Prod.fst conditions
  have value : ended.query.setClause = assigned.results.setClause := congrArg Prod.snd conditions
  have plain : Expression.Plain opened.expressionStack := stack ▸ mentions_plain conversions _
  obtain ⟨whereFits,whereLeaves,noValue⟩ :=
    where_fits conversions tree _ _ plain (congrArg Results.whereClause results) conditioning
  obtain ⟨kept,setFits⟩ := set_fits conversions tree _ _
    (noValue.trans (congrArg Results.setClause results)) assigning
  rw [condition,value,kept,whereFits,Written.ConditionsFit,← stack]
  refine and_congr_right fun fits => ?_
  have left := whereLeaves fits
  rw [setFits ?_,left]
  rw [left]
  cases Written.expressionOf conversions .whereClause tree with
  | none => exact plain
  | some e => exact plain.leaves e

def adultsInParis : Bytes := ascii "MATCH (n) WHERE (n.age = 30) AND (n.city = 'Paris') RETURN n"

theorem adults_in_paris_condition : ∃ query tree,
    CypherParser.parse wholeNumbers adultsInParis = .ok query ∧ Reads adultsInParis tree ∧
      query.whereClause.map WhereClause.condition =
        some (.comparison (.propertyAccess (ascii "n") (ascii "city")) .equal
          (.literal (.string (ascii "Paris")))) ∧
      query.whereClause.map WhereClause.condition ≠
        Written.expressionOf wholeNumbers .whereClause tree := by
  obtain ⟨query,tree,parsed,reads,differs⟩ := parsed_of_run wholeNumbers adultsInParis 70
    (fun query tree => decide (query.whereClause.map WhereClause.condition =
        some (.comparison (.propertyAccess (ascii "n") (ascii "city")) .equal
          (.literal (.string (ascii "Paris"))))) &&
      decide (query.whereClause.map WhereClause.condition ≠
        Written.expressionOf wholeNumbers .whereClause tree)) (by decide +kernel)
  rw [Bool.and_eq_true,decide_eq_true_eq,decide_eq_true_eq] at differs
  exact ⟨query,tree,parsed,reads,differs⟩

theorem parsed_conditions_paris : ∃ query tree,
    CypherParser.parse wholeNumbers adultsInParis = .ok query ∧ Reads adultsInParis tree ∧
      ((query.whereClause.map WhereClause.condition =
          Written.expressionOf wholeNumbers .whereClause tree ∧
        query.setClause.map SetClause.value = Written.expressionOf wholeNumbers .setClause tree) ↔
        Written.ConditionsFit wholeNumbers tree) := by
  obtain ⟨query,tree,parsed,-,-⟩ := parsed_of_run wholeNumbers adultsInParis 70
    (fun _ _ => true) (by decide +kernel)
  obtain ⟨read,reads,fits⟩ := parsed_conditions wholeNumbers adultsInParis query parsed
  exact ⟨query,read,parsed,reads,fits⟩

end LoreDB.Query.Cypher
