import LoreDB.Query.Cypher.ParsedValues

/-! The patterns of a parsed query are the patterns that its text writes. The scratch lists and the
stacks of nodes and edges are empty between the patterns, and those of labels, types and properties
between the nodes and edges. -/
namespace LoreDB.Query.Cypher
open LoreDB.Storage LoreDB.Library Grammar Peg

/-! What the patterns of a query are built in. -/

@[ext] structure Drafts where
  tempLabels : List Bytes
  tempEdgeTypes : List Bytes
  propertyStack : List PropertyMap
  nodeStack : List Node
  edgeStack : List Edge
  patternStack : List Pattern
  matchClause : Option MatchClause
  createClause : Option CreateClause

namespace ParserState

def drafts (state : ParserState) : Drafts where
  tempLabels := state.tempLabels
  tempEdgeTypes := state.tempEdgeTypes
  propertyStack := state.propertyStack
  nodeStack := state.nodeStack
  edgeStack := state.edgeStack
  patternStack := state.patternStack
  matchClause := state.query.matchClause
  createClause := state.query.createClause

@[simp] theorem drafts_push (e : Expression) (s : ParserState) : (s.push e).drafts = s.drafts := rfl

@[simp] theorem drafts_buildComparison (op : ComparisonOperator) (s : ParserState) :
    (s.buildComparison op).drafts = s.drafts := by
  unfold buildComparison
  split <;> rfl

@[simp] theorem drafts_buildReturnItem (s : ParserState) :
    s.buildReturnItem.drafts = s.drafts := by
  unfold buildReturnItem
  split <;> rfl

@[simp] theorem drafts_buildWhere (s : ParserState) : s.buildWhere.drafts = s.drafts := by
  unfold buildWhere
  split <;> rfl

@[simp] theorem drafts_buildSet (children : List CypherTree) (s : ParserState) :
    (s.buildSet children).drafts = s.drafts := by
  unfold buildSet
  split
  · rfl
  · dsimp only
    split <;> rfl

@[simp] theorem drafts_buildDelete (children : List CypherTree) (s : ParserState) :
    (s.buildDelete children).drafts = s.drafts := by
  unfold buildDelete
  dsimp only
  split <;> rfl

end ParserState

def plainRules : List Rule := [.ws,.optWs,.identifier,.propertyKey,.stringLiteral,.singleQuoteString,
  .stringValue,.integer,.decimal,.number,.trueLiteral,.falseLiteral,.boolean,.propertyValue,
  .propertyAccess,.eqOp,.neOp,.ltOp,.leOp,.gtOp,.geOp,.comparisonOp,.andOp,.orOp,.notOp,
  .literalExpression,.identifierExpression,.propertyAccessExpression,.primaryExpression,
  .comparisonExpression,.notExpression,.andExpression,.orExpression,.logicalExpression,.expression,
  .parenthesizedExpression,.minHops,.maxHops,.rangeSpec,.variableLengthRange,.matchKeyword,
  .whereKeyword,.returnKeyword,.createKeyword,.setKeyword,.deleteKeyword,.detachKeyword,
  .limitKeyword,.orderKeyword,.byKeyword,.ascKeyword,.descKeyword,.distinctKeyword,.asKeyword,
  .whereClause,.returnItem,.returnList,.returnClause,.setAssignment,.setClause,.deleteList,
  .deleteClause,.limitClause,.orderDirection,.orderItem,.orderList,.orderByClause,.optIdentifier,
  .unnamed]

theorem plain_closed : Closed plainRules := by decide

section Building

variable (conversions : Conversions)

theorem plain_keeps (rule : Rule) (text : Bytes) (children : List CypherTree) (s s' : ParserState)
    (kind : among plainRules rule = true) (done : buildNodeOf conversions rule text children s = .ok s') :
    s'.drafts = s.drafts := by
  cases rule
  case number =>
    obtain ⟨value,-,rfl⟩ := Tree.map_ok.mp done
    rfl
  case propertyAccessExpression =>
    obtain rfl := Except.ok.inj done
    split <;> rfl
  case limitClause =>
    simp only [buildNodeOf] at done
    split at done
    · obtain ⟨count,-,rfl⟩ := Tree.map_ok.mp done
      rfl
    · obtain rfl := Except.ok.inj done
      rfl
  all_goals first
    | exact absurd kind (by decide)
    | (obtain rfl := Except.ok.inj done; simp)
    | (obtain rfl := Except.ok.inj done; rfl)

theorem plain_part {e : Expr} {text : Bytes} {trees : List CypherTree}
    (derived : Derives body e text trees) (holds : e.within (among plainRules) = true)
    (s s' : ParserState) (visited : Tree.visitAll (buildNodeOf conversions) trees s = .ok s') :
    s'.drafts = s.drafts :=
  Tree.visitAll_keeps ParserState.drafts (among plainRules) (plain_keeps conversions) trees
    (all_among plainRules plain_closed derived holds) s s' visited

/-! The parts of a node or an edge. -/

theorem identifier_child {text : Bytes} {children : List CypherTree}
    (derived : Derives body (all [Grammar.one ':',.rule .identifier]) text children) :
    ∃ name, children = [.node .identifier name []] ∧ name ≠ [] := by
  simp only [Grammar.one,derives_all_one,derives_all_rule,derives_all_nil] at derived
  obtain ⟨_,_,-,-,name,_,inner,_,-,rfl,named,-,rfl⟩ := derived
  obtain ⟨nonempty,rfl⟩ := identifier_text named
  exact ⟨name,rfl,nonempty⟩

theorem colon_names {rule : Rule} {text name : Bytes} (other : is .identifier rule = false) :
    Written.names (.node rule text [.node .identifier name []]) = [name] := by
  simp (disch := decide) [Written.names,Tree.inside_below _ _ _ other,Tree.inside_here]

theorem label_visit {text : Bytes} {trees : List CypherTree} (s s' : ParserState)
    (derived : Derives body (.rule .label) text trees)
    (visited : Tree.visitAll (buildNodeOf conversions) trees s = .ok s') :
    s'.drafts = {s.drafts with tempLabels := s.drafts.tempLabels ++
      (Tree.insideAll (is .label) trees).flatMap Written.names} := by
  obtain ⟨children,rfl,within⟩ := (derives_rule _).mp derived
  obtain ⟨name,rfl,-⟩ := identifier_child within
  simp only [Tree.visitAll_cons,Tree.visit_node,Tree.visitAll_nil] at visited
  obtain ⟨_,⟨_,⟨_,⟨_,rfl,pushed⟩,rfl⟩,added⟩,rfl⟩ := visited
  obtain rfl := Except.ok.inj pushed
  obtain rfl := Except.ok.inj added
  simp (disch := decide) only [Tree.insideAll_cons,Tree.inside_here,Tree.insideAll_nil,
    List.append_nil,List.flatMap_cons,List.flatMap_nil,colon_names]
  rfl

theorem labels_part {text : Bytes} {trees : List CypherTree}
    (derived : Derives body (opt (.rule .nodeLabels)) text trees) (s s' : ParserState)
    (visited : Tree.visitAll (buildNodeOf conversions) trees s = .ok s') :
    s'.drafts = {s.drafts with tempLabels := s.drafts.tempLabels ++
      (Tree.insideAll (is .label) trees).flatMap Written.names} := by
  rcases (derives_opt _).mp derived with labelled | ⟨-,rfl⟩
  · obtain ⟨children,rfl,rounds⟩ := (derives_rule _).mp labelled
    simp only [Tree.visitAll_cons,Tree.visit_node,Tree.visitAll_nil] at visited
    obtain ⟨_,⟨_,visited,same⟩,rfl⟩ := visited
    obtain rfl := Except.ok.inj same
    simp (disch := decide) only [Tree.insideAll_cons,Tree.inside_below,Tree.insideAll_nil,
      List.append_nil]
    refine star_visits (fun trees s s' => s'.drafts = {s.drafts with tempLabels :=
      s.drafts.tempLabels ++ (Tree.insideAll (is .label) trees).flatMap Written.names})
      (fun s => by simp) ?_ (fun _ _ s s' => label_visit conversions s s') rounds _ _ visited
    intro trees trees' s middle s' first second
    simp [second,first]
  · rw [Tree.visitAll_nil] at visited
    simp [visited]

theorem edgeType_visit {text : Bytes} {trees : List CypherTree} (s s' : ParserState)
    (derived : Derives body (.rule .edgeType) text trees)
    (visited : Tree.visitAll (buildNodeOf conversions) trees s = .ok s') :
    s'.drafts = {s.drafts with tempEdgeTypes := s.drafts.tempEdgeTypes ++
      (Tree.insideAll (is .edgeType) trees).flatMap Written.names} := by
  obtain ⟨children,rfl,within⟩ := (derives_rule _).mp derived
  obtain ⟨name,rfl,-⟩ := identifier_child within
  simp only [Tree.visitAll_cons,Tree.visit_node,Tree.visitAll_nil] at visited
  obtain ⟨_,⟨_,⟨_,⟨_,rfl,pushed⟩,rfl⟩,added⟩,rfl⟩ := visited
  obtain rfl := Except.ok.inj pushed
  obtain rfl := Except.ok.inj added
  simp (disch := decide) only [Tree.insideAll_cons,Tree.inside_here,Tree.insideAll_nil,
    List.append_nil,List.flatMap_cons,List.flatMap_nil,colon_names]
  rfl

theorem edgeTypes_part {text : Bytes} {trees : List CypherTree}
    (derived : Derives body (opt (.rule .edgeTypes)) text trees) (s s' : ParserState)
    (visited : Tree.visitAll (buildNodeOf conversions) trees s = .ok s') :
    s'.drafts = {s.drafts with tempEdgeTypes := s.drafts.tempEdgeTypes ++
      (Tree.insideAll (is .edgeType) trees).flatMap Written.names} := by
  rcases (derives_opt _).mp derived with typed | ⟨-,rfl⟩
  · obtain ⟨children,rfl,rounds⟩ := (derives_rule _).mp typed
    simp only [Tree.visitAll_cons,Tree.visit_node,Tree.visitAll_nil] at visited
    obtain ⟨_,⟨_,visited,same⟩,rfl⟩ := visited
    obtain rfl := Except.ok.inj same
    simp (disch := decide) only [Tree.insideAll_cons,Tree.inside_below,Tree.insideAll_nil,
      List.append_nil]
    refine star_visits (fun trees s s' => s'.drafts = {s.drafts with tempEdgeTypes :=
      s.drafts.tempEdgeTypes ++ (Tree.insideAll (is .edgeType) trees).flatMap Written.names})
      (fun s => by simp) ?_ (fun _ _ s s' => edgeType_visit conversions s s') rounds _ _ visited
    intro trees trees' s middle s' first second
    simp [second,first]
  · rw [Tree.visitAll_nil] at visited
    simp [visited]

/-! The property map of a node or an edge. -/

def extend (stack : List PropertyMap) (entry : Bytes × PropertyValue) : List PropertyMap :=
  (stack.headD ∅).insert entry.1 entry.2 :: stack.tail

def extendAll (trees : List CypherTree) (stack : List PropertyMap) : List PropertyMap :=
  ((Tree.insideAll (is .propertyPair) trees).filterMap (Written.pair conversions)).foldl extend stack

theorem extend_empty (entries : List (Bytes × PropertyValue)) (stack : List PropertyMap)
    (last : stack.tail = []) :
    (entries.foldl extend stack).headD ∅ =
        entries.foldl (fun map entry => map.insert entry.1 entry.2) (stack.headD ∅) ∧
      (entries.foldl extend stack).tail = [] := by
  induction entries generalizing stack with
  | nil => exact ⟨rfl,last⟩
  | cons entry rest ih => exact ih (extend stack entry) last

theorem pair_visit {text : Bytes} {trees : List CypherTree} (s s' : ParserState)
    (derived : Derives body (.rule .propertyPair) text trees)
    (visited : Tree.visitAll (buildNodeOf conversions) trees s = .ok s') :
    s'.drafts = {s.drafts with propertyStack := extendAll conversions trees s.drafts.propertyStack} := by
  obtain ⟨children,rfl,within⟩ := (derives_rule _).mp derived
  simp only [Tree.visitAll_cons,Tree.visit_node,Tree.visitAll_nil] at visited
  obtain ⟨_,⟨middle,inner,paired⟩,rfl⟩ := visited
  have kept := plain_part conversions within (by decide) s middle inner
  obtain ⟨pair,read,rfl⟩ := Tree.map_ok.mp paired
  obtain ⟨written,nonempty⟩ := pair_written conversions within pair read
  have key : pair.1.isEmpty = false := by simpa using nonempty
  simp (disch := decide) only [extendAll,Tree.insideAll_cons,Tree.inside_here,Tree.insideAll_nil,
    List.append_nil,List.filterMap_cons,written,List.filterMap_nil,List.foldl_cons,List.foldl_nil]
  rw [← kept]
  simp only [ParserState.addProperty,key]
  rfl

theorem comma_inside (wanted : Rule → Bool) (apart : ([Rule.unnamed,.optWs].all fun rule => !wanted rule) = true)
    {text : Bytes} {trees : List CypherTree} (derived : Derives body comma text trees) :
    Tree.insideAll wanted trees = [] :=
  inside_absent [.unnamed,.optWs] (by decide) wanted apart derived (by decide)

/-- The stack that a property map leaves has the written properties and nothing else. -/
theorem map_part {text : Bytes} {trees : List CypherTree}
    (derived : Derives body (opt (.rule .propertyMap)) text trees) (s s' : ParserState)
    (empty : s.drafts.propertyStack = [])
    (visited : Tree.visitAll (buildNodeOf conversions) trees s = .ok s') :
    ∃ stack : List PropertyMap, s'.drafts = {s.drafts with propertyStack := stack} ∧
      stack.headD ∅ = ((Tree.insideAll (is .propertyPair) trees).filterMap
        (Written.pair conversions)).foldl (fun map entry => map.insert entry.1 entry.2) ∅ ∧
      stack.tail = [] := by
  rcases (derives_opt _).mp derived with mapped | ⟨-,rfl⟩
  · obtain ⟨children,rfl,within⟩ := (derives_rule _).mp mapped
    simp only [body,Grammar.one,Grammar.optional,derives_all_rule,derives_all_one,derives_all_labelled,
      derives_all_nil] at within
    obtain ⟨_,_,-,-,_,_,blank,_,-,rfl,spaces,listText,_,listed,_,-,rfl,properties,_,_,blank',_,-,rfl,
      spaces',_,_,-,-,-,rfl⟩ := within
    obtain rfl := star_bare spaces
    obtain rfl := star_bare spaces'
    simp only [Tree.visitAll_cons,Tree.visit_node,Tree.visitAll_nil] at visited
    obtain ⟨_,⟨_,⟨_,⟨_,rfl,same⟩,_,⟨filled,listVisited,same'⟩,_,⟨_,rfl,same''⟩,rfl⟩,mapMade⟩,rfl⟩ := visited
    obtain rfl := Except.ok.inj same
    obtain rfl := Except.ok.inj same'
    obtain rfl := Except.ok.inj same''
    obtain rfl := Except.ok.inj mapMade
    have pairs : filled.drafts = {s.drafts with
        propertyStack := extendAll conversions listed s.drafts.propertyStack} := by
      rcases (derives_opt _).mp properties with given | ⟨-,rfl⟩
      · obtain ⟨children,rfl,listed⟩ := (derives_rule _).mp given
        simp only [Tree.visitAll_cons,Tree.visit_node,Tree.visitAll_nil] at listVisited
        obtain ⟨_,⟨_,pairsVisited,same⟩,rfl⟩ := listVisited
        obtain rfl := Except.ok.inj same
        simp (disch := decide) only [extendAll,Tree.insideAll_cons,Tree.inside_below,Tree.insideAll_nil,
          List.append_nil]
        refine list_visits (fun trees s s' => s'.drafts =
          {s.drafts with propertyStack := extendAll conversions trees s.drafts.propertyStack})
          (fun s => rfl) ?_ (fun _ _ s s' => pair_visit conversions s s') ?_ listed _ _ pairsVisited
        · intro trees trees' s middle s' first second
          simp [second,first,extendAll]
        · intro text trees s s' derived visited
          rw [plain_part conversions derived (by decide) s s' visited]
          simp [extendAll,comma_inside (is .propertyPair) (by decide) derived]
      · rw [Tree.visitAll_nil] at listVisited
        rw [listVisited]
        rfl
    obtain ⟨head,tail⟩ := extend_empty
      ((Tree.insideAll (is .propertyPair) listed).filterMap (Written.pair conversions)) [] rfl
    rw [empty] at pairs
    simp (disch := decide) only [Tree.insideAll_cons,Tree.inside_below,Tree.insideAll_nil,
      List.append_nil,List.nil_append]
    unfold ParserState.buildPropertyMap
    split
    · rename_i none
      have none' : extendAll conversions listed [] = [] := by
        have : filled.drafts.propertyStack = [] := List.isEmpty_iff.mp none
        rwa [pairs] at this
      refine ⟨[∅],?_,?_,rfl⟩
      · rw [show ParserState.drafts _ = {filled.drafts with propertyStack := [∅]} from rfl,pairs]
      · rw [show List.foldl extend [] _ = [] from none'] at head
        exact head
    · exact ⟨_,pairs,head,tail⟩
  · rw [Tree.visitAll_nil] at visited
    subst visited
    exact ⟨[],by rw [← empty],rfl,rfl⟩

/-! Nodes and edges. -/

def labelRules : List Rule := [.nodeLabels,.label,.identifier]

def typeRules : List Rule := [.edgeTypes,.edgeType,.identifier]

def rangeRules : List Rule := [.variableLengthRange,.rangeSpec,.minHops,.maxHops,.unnamed]

def mapRules : List Rule :=
  [.propertyMap,.propertyList,.propertyPair,.propertyKey,.optWs,.unnamed] ++ valueRules

def between (rules : List Rule) : List Rule := .optWs :: .unnamed :: rules

theorem variable_part {text : Bytes} {trees : List CypherTree}
    (derived : Derives body (body .optIdentifier) text trees) :
    Written.names (.node .optIdentifier text trees) = if text.isEmpty then [] else [text] := by
  rcases (derives_opt _).mp derived with named | ⟨rfl,rfl⟩
  · obtain ⟨children,rfl,within⟩ := (derives_rule _).mp named
    obtain ⟨nonempty,-⟩ := identifier_text within
    have some : text.isEmpty = false := by simpa using nonempty
    simp (disch := decide) [Written.names,Tree.inside_below,Tree.inside_here,some]
  · rfl

theorem variable_shape {name : Bytes} {nameTrees : List CypherTree}
    (named : Derives body (body .optIdentifier) name nameTrees) :
    (Written.names (.node .optIdentifier name nameTrees)).head? =
      if name.isEmpty then none else some name := by
  rw [variable_part named]
  split <;> rfl

theorem char_then {c : Char} {es : List Expr} {text : Bytes} {trees : List CypherTree}
    (derived : Derives body (all (Grammar.one c :: es)) text trees) :
    ∃ rest, Derives body (all es) rest trees := by
  obtain ⟨_,rest,-,-,derived⟩ := (derives_all_one _ _).mp derived
  exact ⟨rest,derived⟩

theorem blank_then {es : List Expr} {text : Bytes} {trees : List CypherTree}
    (derived : Derives body (all (.rule .optWs :: es)) text trees) :
    ∃ blank rest trees', trees = .node .optWs blank [] :: trees' ∧ Derives body (all es) rest trees' := by
  obtain ⟨blank,rest,_,trees',-,rfl,spaces,later⟩ := (derives_all_rule _ _).mp derived
  obtain rfl := star_bare spaces
  exact ⟨blank,rest,trees',rfl,later⟩

theorem rule_then {name : Rule} {es : List Expr} {text : Bytes} {trees : List CypherTree}
    (derived : Derives body (all (.rule name :: es)) text trees) :
    ∃ part partTrees rest trees', trees = .node name part partTrees :: trees' ∧
      Derives body (body name) part partTrees ∧ Derives body (all es) rest trees' := by
  obtain ⟨part,rest,partTrees,trees',-,rfl,within,later⟩ := (derives_all_rule _ _).mp derived
  exact ⟨part,partTrees,rest,trees',rfl,within,later⟩

theorem optional_then {e : Expr} {es : List Expr} {text : Bytes} {trees : List CypherTree}
    (derived : Derives body (all (Grammar.optional e :: es)) text trees) :
    ∃ part partTrees rest trees', trees = .node .unnamed part partTrees :: trees' ∧
      Derives body (opt e) part partTrees ∧ Derives body (all es) rest trees' := by
  obtain ⟨part,rest,partTrees,trees',-,rfl,within,later⟩ := (derives_all_labelled _ _ _).mp derived
  exact ⟨part,partTrees,rest,trees',rfl,within,later⟩

/-- The children of a node pattern, and what is written in them. -/
theorem node_shape {text : Bytes} {children : List CypherTree}
    (derived : Derives body (body .nodePattern) text children) :
    ∃ name nameTrees labels labelTrees map mapTrees blank1 blank2 blank3 blank4,
      children = [.node .optWs blank1 [],.node .optIdentifier name nameTrees,.node .optWs blank2 [],
        .node .unnamed labels labelTrees,.node .optWs blank3 [],.node .unnamed map mapTrees,
        .node .optWs blank4 []] ∧
      Derives body (body .optIdentifier) name nameTrees ∧
      Derives body (opt (.rule .nodeLabels)) labels labelTrees ∧
      Derives body (opt (.rule .propertyMap)) map mapTrees ∧
      Written.node conversions (.node .nodePattern text children) = {
        variableName := if name.isEmpty then none else some name
        labels := (Tree.insideAll (is .label) labelTrees).flatMap Written.names
        properties := ((Tree.insideAll (is .propertyPair) mapTrees).filterMap
          (Written.pair conversions)).foldl (fun map entry => map.insert entry.1 entry.2) ∅} := by
  obtain ⟨_,d1⟩ := char_then derived
  obtain ⟨blank1,_,_,rfl,d2⟩ := blank_then d1
  obtain ⟨name,nameTrees,_,_,rfl,named,d3⟩ := rule_then d2
  obtain ⟨blank2,_,_,rfl,d4⟩ := blank_then d3
  obtain ⟨labels,labelTrees,_,_,rfl,labelled,d5⟩ := optional_then d4
  obtain ⟨blank3,_,_,rfl,d6⟩ := blank_then d5
  obtain ⟨map,mapTrees,_,_,rfl,mapped,d7⟩ := optional_then d6
  obtain ⟨blank4,_,_,rfl,d8⟩ := blank_then d7
  obtain ⟨_,d9⟩ := char_then d8
  obtain ⟨-,rfl⟩ := derives_all_nil.mp d9
  refine ⟨name,nameTrees,labels,labelTrees,map,mapTrees,blank1,blank2,blank3,blank4,rfl,named,labelled,
    mapped,?_⟩
  have skipLabels (wanted : Rule → Bool) (apart : (labelRules.all fun rule => !wanted rule) = true) :
      Tree.insideAll wanted labelTrees = [] :=
    inside_absent labelRules (by decide) wanted apart labelled (by decide)
  have skipMap (wanted : Rule → Bool) (apart : (mapRules.all fun rule => !wanted rule) = true) :
      Tree.insideAll wanted mapTrees = [] :=
    inside_absent mapRules (by decide) wanted apart mapped (by decide)
  have skipName (wanted : Rule → Bool) (apart : ([Rule.identifier].all fun rule => !wanted rule) = true) :
      Tree.insideAll wanted nameTrees = [] :=
    inside_absent [.identifier] (by decide) wanted apart named (by decide)
  unfold Written.node Written.variableName Written.properties
  simp (disch := decide) [Tree.inside_here,Tree.inside_below,skipLabels,skipMap,skipName,
    variable_shape named]

theorem edge_shape {last : Expr} (ends : ∀ text trees, Derives body (all [last]) text trees → trees = [])
    {rule : Rule} (kind : isEdge rule = true) {text : Bytes} {children : List CypherTree}
    (derived : Derives body (bracketedEdge last) text children) :
    ∃ name nameTrees types typeTrees range rangeTrees map mapTrees blank1 blank2 blank3 blank4 blank5,
      children = [.node .optWs blank1 [],.node .optIdentifier name nameTrees,.node .optWs blank2 [],
        .node .unnamed types typeTrees,.node .optWs blank3 [],.node .unnamed range rangeTrees,
        .node .optWs blank4 [],.node .unnamed map mapTrees,.node .optWs blank5 []] ∧
      Derives body (body .optIdentifier) name nameTrees ∧
      Derives body (opt (.rule .edgeTypes)) types typeTrees ∧
      Derives body (opt (.rule .variableLengthRange)) range rangeTrees ∧
      Derives body (opt (.rule .propertyMap)) map mapTrees ∧
      Written.edge conversions (.node rule text children) = {
        variableName := if name.isEmpty then none else some name
        types := (Tree.insideAll (is .edgeType) typeTrees).flatMap Written.names
        properties := ((Tree.insideAll (is .propertyPair) mapTrees).filterMap
          (Written.pair conversions)).foldl (fun map entry => map.insert entry.1 entry.2) ∅
        directed := rule == .directedEdge} := by
  obtain ⟨_,d1⟩ := char_then derived
  obtain ⟨_,d2⟩ := char_then d1
  obtain ⟨blank1,_,_,rfl,d3⟩ := blank_then d2
  obtain ⟨name,nameTrees,_,_,rfl,named,d4⟩ := rule_then d3
  obtain ⟨blank2,_,_,rfl,d5⟩ := blank_then d4
  obtain ⟨types,typeTrees,_,_,rfl,typed,d6⟩ := optional_then d5
  obtain ⟨blank3,_,_,rfl,d7⟩ := blank_then d6
  obtain ⟨range,rangeTrees,_,_,rfl,ranged,d8⟩ := optional_then d7
  obtain ⟨blank4,_,_,rfl,d9⟩ := blank_then d8
  obtain ⟨map,mapTrees,_,_,rfl,mapped,d10⟩ := optional_then d9
  obtain ⟨blank5,_,_,rfl,d11⟩ := blank_then d10
  obtain ⟨_,d12⟩ := char_then d11
  obtain rfl := ends _ _ d12
  refine ⟨name,nameTrees,types,typeTrees,range,rangeTrees,map,mapTrees,blank1,blank2,blank3,blank4,
    blank5,rfl,named,typed,ranged,mapped,?_⟩
  have skipTypes (wanted : Rule → Bool) (apart : (typeRules.all fun rule => !wanted rule) = true) :
      Tree.insideAll wanted typeTrees = [] :=
    inside_absent typeRules (by decide) wanted apart typed (by decide)
  have skipRange (wanted : Rule → Bool) (apart : (rangeRules.all fun rule => !wanted rule) = true) :
      Tree.insideAll wanted rangeTrees = [] :=
    inside_absent rangeRules (by decide) wanted apart ranged (by decide)
  have skipMap (wanted : Rule → Bool) (apart : (mapRules.all fun rule => !wanted rule) = true) :
      Tree.insideAll wanted mapTrees = [] :=
    inside_absent mapRules (by decide) wanted apart mapped (by decide)
  have skipName (wanted : Rule → Bool) (apart : ([Rule.identifier].all fun rule => !wanted rule) = true) :
      Tree.insideAll wanted nameTrees = [] :=
    inside_absent [.identifier] (by decide) wanted apart named (by decide)
  have below (wanted : Rule) (inner : isEdge wanted = false) : is wanted rule = false := by
    rw [is,beq_eq_false_iff_ne]
    rintro rfl
    simp [kind] at inner
  unfold Written.edge Written.variableName Written.properties
  simp (disch := decide) [Tree.inside_here,Tree.inside_below _ _ _ (below .optIdentifier rfl),
    Tree.inside_below _ _ _ (below .edgeType rfl),Tree.inside_below _ _ _ (below .propertyPair rfl),
    Tree.inside_below,skipTypes,skipRange,skipMap,skipName,variable_shape named]

/-- The variable is the first child of its kind that has a text. -/
theorem variable_found (before after : List CypherTree) (name : Bytes) (nameTrees : List CypherTree)
    (others : ∀ child ∈ before ++ after, child.label ≠ .optIdentifier) :
    variableOf (before ++ .node .optIdentifier name nameTrees :: after) =
      if name.isEmpty then none else some name := by
  have none (part : List CypherTree) (others : ∀ child ∈ part, child.label ≠ .optIdentifier) :
      (part.find? fun child => child.label == .optIdentifier && !child.text.isEmpty) = none := by
    rw [List.find?_eq_none]
    intro child among
    simp [others child among]
  have early := none before fun child among => others child (by simp [among])
  have late := none after fun child among => others child (by simp [among])
  rw [variableOf,List.find?_append,early,Option.none_or]
  cases h : name.isEmpty
  · simp [h]
  · simp [h,late]

theorem node_visit {text : Bytes} {trees : List CypherTree} (s s' : ParserState)
    (derived : Derives body (.rule .nodePattern) text trees) (noLabels : s.drafts.tempLabels = [])
    (noProperties : s.drafts.propertyStack = [])
    (visited : Tree.visitAll (buildNodeOf conversions) trees s = .ok s') :
    s'.drafts = {s.drafts with nodeStack :=
      ((Tree.insideAll (is .nodePattern) trees).map (Written.node conversions)).reverse ++
        s.drafts.nodeStack} := by
  obtain ⟨children,rfl,within⟩ := (derives_rule _).mp derived
  obtain ⟨name,nameTrees,labels,labelTrees,map,mapTrees,blank1,blank2,blank3,blank4,rfl,named,labelled,
    mapped,written⟩ := node_shape conversions within
  have found := variable_found [.node .optWs blank1 []] [.node .optWs blank2 [],
    .node .unnamed labels labelTrees,.node .optWs blank3 [],.node .unnamed map mapTrees,
    .node .optWs blank4 []] name nameTrees (by simp)
  simp only [Tree.visitAll_cons,Tree.visit_node,Tree.visitAll_nil] at visited
  obtain ⟨_,⟨_,⟨_,⟨_,rfl,ok1⟩,_,⟨mid1,visit1,ok2⟩,_,⟨_,rfl,ok3⟩,_,⟨mid2,visit2,ok4⟩,_,⟨_,rfl,ok5⟩,
    _,⟨mid3,visit3,ok6⟩,_,⟨_,rfl,ok7⟩,rfl⟩,made⟩,rfl⟩ := visited
  obtain rfl := Except.ok.inj ok1
  obtain rfl := Except.ok.inj ok2
  obtain rfl := Except.ok.inj ok3
  obtain rfl := Except.ok.inj ok4
  obtain rfl := Except.ok.inj ok5
  obtain rfl := Except.ok.inj ok6
  obtain rfl := Except.ok.inj ok7
  obtain rfl := Except.ok.inj made
  have first := plain_part conversions named (by decide) _ _ visit1
  have second := labels_part conversions labelled _ _ visit2
  rw [first,noLabels,List.nil_append] at second
  obtain ⟨stack,third,entries,last⟩ := map_part conversions mapped _ _
    (by rw [second]; exact noProperties) visit3
  rw [second] at third
  simp (disch := decide) only [Tree.insideAll_cons,Tree.inside_here,Tree.insideAll_nil,List.append_nil]
  rw [List.map_singleton,written,← entries,← found]
  ext1
  · exact noLabels.symm
  · exact (congrArg Drafts.tempEdgeTypes third :)
  · exact (congrArg (List.tail ∘ Drafts.propertyStack) third).trans (last.trans noProperties.symm)
  · have labels := congrArg Drafts.tempLabels third
    have properties := congrArg Drafts.propertyStack third
    have nodes := congrArg Drafts.nodeStack third
    simp only [ParserState.drafts] at labels properties nodes
    simp [ParserState.buildNode,ParserState.nodeOf,ParserState.drafts,labels,properties,nodes]
  · exact (congrArg Drafts.edgeStack third :)
  · exact (congrArg Drafts.patternStack third :)
  · exact (congrArg Drafts.matchClause third :)
  · exact (congrArg Drafts.createClause third :)

/-- An edge apart from its range of hops. -/
def Edge.withoutHops (edge : Edge) : Edge := {edge with minHops := 1, maxHops := 1}

theorem edge_made (rule : Rule) (kind : isEdge rule = true) (text : Bytes) (children : List CypherTree)
    (s s' : ParserState) (made : buildNodeOf conversions rule text children s = .ok s') :
    ∃ hops, s' = s.buildEdge (rule == .directedEdge) hops children := by
  simp only [isEdge,Bool.or_eq_true,beq_iff_eq] at kind
  rcases kind with (rfl | rfl) | rfl
  · obtain ⟨hops,-,rfl⟩ := Tree.map_ok.mp made
    exact ⟨hops,rfl⟩
  · obtain ⟨hops,-,rfl⟩ := Tree.map_ok.mp made
    exact ⟨hops,rfl⟩
  · obtain ⟨hops,-,rfl⟩ := Tree.map_ok.mp made
    exact ⟨hops,rfl⟩

/-- What a finished edge leaves behind: one edge more, and nothing for the next. -/
def EdgeBuilt (tree : CypherTree) (s s' : ParserState) : Prop :=
  ∃ edge : Edge, edge.withoutHops = Written.edge conversions tree ∧
    s'.drafts = {s.drafts with edgeStack := edge :: s.drafts.edgeStack}

theorem bracketed_visit {last : Expr}
    (ends : ∀ text trees, Derives body (all [last]) text trees → trees = [])
    {rule : Rule} (kind : isEdge rule = true) {text : Bytes} {children : List CypherTree}
    (derived : Derives body (bracketedEdge last) text children) (s s' : ParserState)
    (noTypes : s.drafts.tempEdgeTypes = []) (noProperties : s.drafts.propertyStack = [])
    (visited : Tree.visit (buildNodeOf conversions) (.node rule text children) s = .ok s') :
    EdgeBuilt conversions (.node rule text children) s s' := by
  obtain ⟨name,nameTrees,types,typeTrees,range,rangeTrees,map,mapTrees,blank1,blank2,blank3,blank4,
    blank5,shape,named,typed,ranged,mapped,written⟩ := edge_shape conversions ends kind derived
  have found := variable_found [.node .optWs blank1 []] [.node .optWs blank2 [],
    .node .unnamed types typeTrees,.node .optWs blank3 [],.node .unnamed range rangeTrees,
    .node .optWs blank4 [],.node .unnamed map mapTrees,.node .optWs blank5 []] name nameTrees (by simp)
  rw [List.singleton_append,← shape] at found
  rw [Tree.visit_node,shape] at visited
  simp only [Tree.visitAll_cons,Tree.visit_node,Tree.visitAll_nil] at visited
  obtain ⟨_,⟨_,⟨_,rfl,ok1⟩,_,⟨mid1,visit1,ok2⟩,_,⟨_,rfl,ok3⟩,_,⟨mid2,visit2,ok4⟩,_,⟨_,rfl,ok5⟩,
    _,⟨mid3,visit3,ok6⟩,_,⟨_,rfl,ok7⟩,_,⟨mid4,visit4,ok8⟩,_,⟨_,rfl,ok9⟩,rfl⟩,made⟩ := visited
  obtain rfl := Except.ok.inj ok1
  obtain rfl := Except.ok.inj ok2
  obtain rfl := Except.ok.inj ok3
  obtain rfl := Except.ok.inj ok4
  obtain rfl := Except.ok.inj ok5
  obtain rfl := Except.ok.inj ok6
  obtain rfl := Except.ok.inj ok7
  obtain rfl := Except.ok.inj ok8
  obtain rfl := Except.ok.inj ok9
  rw [← shape] at made
  have first := plain_part conversions named (by decide) _ _ visit1
  have second := edgeTypes_part conversions typed _ _ visit2
  rw [first,noTypes,List.nil_append] at second
  have third := plain_part conversions ranged (by decide) _ _ visit3
  rw [second] at third
  obtain ⟨stack,fourth,entries,last⟩ := map_part conversions mapped _ _
    (by rw [third]; exact noProperties) visit4
  rw [third] at fourth
  obtain ⟨hops,rfl⟩ := edge_made conversions rule kind _ _ _ _ made
  have types := congrArg Drafts.tempEdgeTypes fourth
  have properties := congrArg Drafts.propertyStack fourth
  have edges := congrArg Drafts.edgeStack fourth
  simp only [ParserState.drafts] at types properties edges
  refine ⟨mid4.edgeOf (rule == .directedEdge) hops children,?_,?_⟩
  · rw [written,← entries,← found,← types,← properties]
    rfl
  · ext1
    · exact (congrArg Drafts.tempLabels fourth :)
    · exact noTypes.symm
    · exact (congrArg (List.tail ∘ Drafts.propertyStack) fourth).trans (last.trans noProperties.symm)
    · exact (congrArg Drafts.nodeStack fourth :)
    · exact congrArg (_ :: ·) edges
    · exact (congrArg Drafts.patternStack fourth :)
    · exact (congrArg Drafts.matchClause fourth :)
    · exact (congrArg Drafts.createClause fourth :)

theorem string_bare (characters : List Char) {text : Bytes} {trees : List CypherTree}
    (derived : Derives body (string characters) text trees) : trees = [] := by
  induction characters generalizing text trees with
  | nil => exact (derives_all_nil.mp derived).2
  | cons c rest ih =>
    obtain ⟨_,later⟩ := char_then derived
    exact ih later

theorem edge_visit {text : Bytes} {trees : List CypherTree} (s s' : ParserState)
    (derived : Derives body (.rule .edgePattern) text trees) (noTypes : s.drafts.tempEdgeTypes = [])
    (noProperties : s.drafts.propertyStack = [])
    (visited : Tree.visitAll (buildNodeOf conversions) trees s = .ok s') :
    ∃ tree, Tree.insideAll isEdge trees = [tree] ∧ EdgeBuilt conversions tree s s' := by
  obtain ⟨children,rfl,within⟩ := (derives_rule _).mp derived
  simp only [Tree.visitAll_cons,Tree.visit_node,Tree.visitAll_nil] at visited
  obtain ⟨_,⟨_,visited,same⟩,rfl⟩ := visited
  obtain rfl := Except.ok.inj same
  simp only [body,first,derives_sor,derives_rule] at within
  rcases within with ⟨parts,rfl,bracketed⟩ | ⟨parts,rfl,bracketed⟩ | ⟨parts,rfl,simple⟩
  · simp only [Tree.visitAll_cons,Tree.visitAll_nil] at visited
    obtain ⟨_,visited,rfl⟩ := visited
    refine ⟨_,?_,bracketed_visit conversions ?_ rfl bracketed _ _ noTypes noProperties visited⟩
    · simp (disch := decide) [Tree.inside_here,Tree.inside_below]
    · intro text trees arrow
      obtain ⟨_,_,_,_,-,rfl,arrow,nothing⟩ := (derives_all_cons _ _).mp arrow
      rw [string_bare _ arrow,(derives_all_nil.mp nothing).2,List.append_nil]
  · simp only [Tree.visitAll_cons,Tree.visitAll_nil] at visited
    obtain ⟨_,visited,rfl⟩ := visited
    refine ⟨_,?_,bracketed_visit conversions ?_ rfl bracketed _ _ noTypes noProperties visited⟩
    · simp (disch := decide) [Tree.inside_here,Tree.inside_below]
    · intro text trees dash
      exact string_bare ['-'] dash
  · obtain rfl := string_bare ['-','-'] simple
    simp only [Tree.visitAll_cons,Tree.visit_node,Tree.visitAll_nil] at visited
    obtain ⟨_,⟨_,rfl,made⟩,rfl⟩ := visited
    obtain ⟨hops,rfl⟩ := edge_made conversions .simpleUndirectedEdge rfl _ _ _ _ made
    refine ⟨.node .simpleUndirectedEdge text [],?_,s.edgeOf false hops [],?_,?_⟩
    · simp (disch := decide) [Tree.inside_here,Tree.inside_below]
    · have types : s.tempEdgeTypes = [] := noTypes
      have properties : s.propertyStack = [] := noProperties
      simp (disch := decide) [Edge.withoutHops,ParserState.edgeOf,Written.edge,Written.variableName,
        Written.properties,variableOf,types,properties,Tree.inside_below]
    · ext1
      · rfl
      · exact noTypes.symm
      · exact (congrArg List.tail noProperties).trans noProperties.symm
      all_goals rfl

/-! Paths and lists of patterns. -/

def Pattern.written (pattern : Pattern) : List Node × List Edge :=
  (pattern.nodes,pattern.edges.map Edge.withoutHops)

/-- Nothing lies about that the next node or edge could take. -/
structure NothingPending (drafts : Drafts) : Prop where
  noLabels : drafts.tempLabels = []
  noTypes : drafts.tempEdgeTypes = []
  noProperties : drafts.propertyStack = []

/-- A path as far as it is built: its nodes and edges on top of their stacks. -/
def PathBuilt (trees : List CypherTree) (s s' : ParserState) : Prop :=
  NothingPending s.drafts → ∃ edges : List Edge,
    edges.map Edge.withoutHops = (Tree.insideAll isEdge trees).map (Written.edge conversions) ∧
    s'.drafts = {s.drafts with
      nodeStack := ((Tree.insideAll (is .nodePattern) trees).map (Written.node conversions)).reverse ++
        s.drafts.nodeStack
      edgeStack := edges.reverse ++ s.drafts.edgeStack}

theorem pathBuilt_trans {before after : List CypherTree} {s middle s' : ParserState}
    (first : PathBuilt conversions before s middle) (second : PathBuilt conversions after middle s') :
    PathBuilt conversions (before ++ after) s s' := by
  intro clean
  obtain ⟨edges,written,drafts⟩ := first clean
  have clean' : NothingPending middle.drafts := by
    rw [drafts]
    exact ⟨clean.noLabels,clean.noTypes,clean.noProperties⟩
  obtain ⟨edges',written',drafts'⟩ := second clean'
  refine ⟨edges ++ edges',by simp [written,written'],?_⟩
  rw [drafts',drafts]
  simp

def edgeRules : List Rule := [.edgePattern,.directedEdge,.undirectedEdge,.simpleUndirectedEdge,
  .optIdentifier] ++ typeRules ++ rangeRules ++ mapRules

def nodeRules : List Rule := [.nodePattern,.optIdentifier] ++ labelRules ++ mapRules

theorem node_path {text : Bytes} {trees : List CypherTree} (s s' : ParserState)
    (derived : Derives body (.rule .nodePattern) text trees)
    (visited : Tree.visitAll (buildNodeOf conversions) trees s = .ok s') :
    PathBuilt conversions trees s s' := by
  intro clean
  have noEdges : Tree.insideAll isEdge trees = [] :=
    inside_absent nodeRules (by decide) _ (by decide) derived (by decide)
  refine ⟨[],by simp [noEdges],?_⟩
  exact node_visit conversions s s' derived clean.noLabels clean.noProperties visited

theorem edge_path {text : Bytes} {trees : List CypherTree} (s s' : ParserState)
    (derived : Derives body (.rule .edgePattern) text trees)
    (visited : Tree.visitAll (buildNodeOf conversions) trees s = .ok s') :
    PathBuilt conversions trees s s' := by
  intro clean
  have noNodes : Tree.insideAll (is .nodePattern) trees = [] :=
    inside_absent edgeRules (by decide) _ (by decide) derived (by decide)
  obtain ⟨tree,only,edge,written,drafts⟩ :=
    edge_visit conversions s s' derived clean.noTypes clean.noProperties visited
  exact ⟨[edge],by simp [only,written],by simp [noNodes,drafts]⟩

/-- A further step of a path: an edge and the node at its end. -/
def pathStep : Expr := group [.rule .edgePattern,.rule .nodePattern]

theorem step_shape {text : Bytes} {trees : List CypherTree} (derived : Derives body pathStep text trees) :
    ∃ edge edgeTrees node nodeTrees, Derives body (.rule .edgePattern) edge edgeTrees ∧
      Derives body (.rule .nodePattern) node nodeTrees ∧
      trees = [.node .unnamed text (edgeTrees ++ nodeTrees)] := by
  obtain ⟨children,rfl,within⟩ := (derives_labelled _ _).mp derived
  obtain ⟨edge,edgeTrees,_,_,rfl,edged,later⟩ := rule_then within
  obtain ⟨node,nodeTrees,_,_,rfl,noded,done⟩ := rule_then later
  obtain ⟨-,rfl⟩ := derives_all_nil.mp done
  exact ⟨edge,_,node,_,.rule edged,.rule noded,rfl⟩

theorem step_path {text : Bytes} {trees : List CypherTree} (s s' : ParserState)
    (derived : Derives body pathStep text trees)
    (visited : Tree.visitAll (buildNodeOf conversions) trees s = .ok s') :
    PathBuilt conversions trees s s' := by
  obtain ⟨_,edgeTrees,_,nodeTrees,edged,noded,rfl⟩ := step_shape derived
  simp only [Tree.visitAll_cons,Tree.visit_node,Tree.visitAll_nil] at visited
  obtain ⟨_,⟨_,visited,same⟩,rfl⟩ := visited
  obtain rfl := Except.ok.inj same
  obtain ⟨middle,first,second⟩ := (Tree.visitAll_append ..).mp visited
  have both := pathBuilt_trans conversions (edge_path conversions _ _ edged first)
    (node_path conversions _ _ noded second)
  unfold PathBuilt at both ⊢
  simpa (disch := decide) only [Tree.insideAll_cons,Tree.inside_below,Tree.insideAll_nil,List.append_nil]
    using both

/-- Every step of a path has one edge and one node. -/
theorem steps_count {text : Bytes} {trees : List CypherTree}
    (derived : Derives body (.star pathStep) text trees) :
    (Tree.insideAll isEdge trees).length = (Tree.insideAll (is .nodePattern) trees).length := by
  refine star_rounds (fun _ trees => (Tree.insideAll isEdge trees).length =
    (Tree.insideAll (is .nodePattern) trees).length) rfl ?_ derived
  intro text trees text' trees' one rest
  obtain ⟨_,edgeTrees,_,nodeTrees,edged,noded,rfl⟩ := step_shape one
  have noNodes : Tree.insideAll (is .nodePattern) edgeTrees = [] :=
    inside_absent edgeRules (by decide) _ (by decide) edged (by decide)
  have noEdges : Tree.insideAll isEdge nodeTrees = [] :=
    inside_absent nodeRules (by decide) _ (by decide) noded (by decide)
  have oneEdge : (Tree.insideAll isEdge edgeTrees).length = 1 := by
    obtain ⟨children,rfl,within⟩ := (derives_rule _).mp edged
    simp only [body,first,derives_sor,derives_rule] at within
    rcases within with ⟨parts,rfl,-⟩ | ⟨parts,rfl,-⟩ | ⟨parts,rfl,-⟩
    all_goals simp (disch := decide) [Tree.inside_here,Tree.inside_below]
  have oneNode : (Tree.insideAll (is .nodePattern) nodeTrees).length = 1 := by
    obtain ⟨children,rfl,-⟩ := (derives_rule _).mp noded
    simp (disch := decide) [Tree.inside_here]
  simp (disch := decide) [Tree.inside_below,noNodes,noEdges,oneEdge,oneNode,rest]

structure PatternReady (drafts : Drafts) : Prop extends NothingPending drafts where
  noNodes : drafts.nodeStack = []
  noEdges : drafts.edgeStack = []

def PatternsBuilt (trees : List CypherTree) (s s' : ParserState) : Prop :=
  PatternReady s.drafts → ∃ patterns : List Pattern,
    patterns.map Pattern.written =
      (Tree.insideAll (is .pattern) trees).map (Written.pattern conversions) ∧
    (∀ pattern ∈ patterns, pattern.edges.length + 1 = pattern.nodes.length) ∧
    s'.drafts = {s.drafts with patternStack := patterns.reverse ++ s.drafts.patternStack}

theorem patternsBuilt_trans {before after : List CypherTree} {s middle s' : ParserState}
    (first : PatternsBuilt conversions before s middle)
    (second : PatternsBuilt conversions after middle s') :
    PatternsBuilt conversions (before ++ after) s s' := by
  intro ready
  obtain ⟨patterns,written,shaped,drafts⟩ := first ready
  have ready' : PatternReady middle.drafts := by
    rw [drafts]
    exact ⟨⟨ready.noLabels,ready.noTypes,ready.noProperties⟩,ready.noNodes,ready.noEdges⟩
  obtain ⟨patterns',written',shaped',drafts'⟩ := second ready'
  refine ⟨patterns ++ patterns',by simp [written,written'],?_,?_⟩
  · intro pattern among
    exact (List.mem_append.mp among).elim (shaped pattern) (shaped' pattern)
  · rw [drafts',drafts]
    simp

/-- A path has one more node than edges. -/
theorem path_count {text : Bytes} {trees : List CypherTree} (derived : Derives body pathPattern text trees) :
    (Tree.insideAll isEdge trees).length + 1 = (Tree.insideAll (is .nodePattern) trees).length := by
  obtain ⟨node,nodeTrees,_,_,rfl,noded,later⟩ := rule_then derived
  obtain ⟨_,_,steps,_,-,rfl,stepped,done⟩ := (derives_all_labelled _ _ _).mp later
  obtain ⟨-,rfl⟩ := derives_all_nil.mp done
  have noEdges : Tree.insideAll isEdge [.node .nodePattern node nodeTrees] = [] :=
    inside_absent nodeRules (by decide) _ (by decide) (Derives.rule noded) (by decide)
  rw [Tree.insideAll_cons,Tree.insideAll_nil,List.append_nil] at noEdges
  simp (disch := decide) only [Tree.insideAll_cons,Tree.inside_here,Tree.inside_below Rule.unnamed,noEdges,
    Tree.insideAll_nil,List.append_nil,List.nil_append,List.length_append,List.length_singleton,
    steps_count stepped]
  omega

theorem path_visit {text : Bytes} {trees : List CypherTree} (s s' : ParserState)
    (derived : Derives body pathPattern text trees)
    (visited : Tree.visitAll (buildNodeOf conversions) trees s = .ok s') :
    PathBuilt conversions trees s s' := by
  obtain ⟨node,nodeTrees,_,_,rfl,noded,later⟩ := rule_then derived
  obtain ⟨_,_,steps,_,-,rfl,stepped,done⟩ := (derives_all_labelled _ _ _).mp later
  obtain ⟨-,rfl⟩ := derives_all_nil.mp done
  obtain ⟨middle,first,second⟩ := (Tree.visitAll_append [_] ..).mp visited
  refine pathBuilt_trans conversions (node_path conversions _ _ (.rule noded) first) ?_
  simp only [Tree.visitAll_cons,Tree.visit_node,Tree.visitAll_nil] at second
  obtain ⟨_,⟨_,second,same⟩,rfl⟩ := second
  obtain rfl := Except.ok.inj same
  have walked := star_visits (PathBuilt conversions) (fun s _ => ⟨[],rfl,by simp⟩)
    (fun _ _ _ _ _ => pathBuilt_trans conversions)
    (fun _ _ s s' => step_path conversions s s') stepped _ _ second
  unfold PathBuilt at walked ⊢
  simpa (disch := decide) only [Tree.insideAll_cons,Tree.inside_below,Tree.insideAll_nil,List.append_nil]
    using walked

theorem pattern_visit {text : Bytes} {trees : List CypherTree} (s s' : ParserState)
    (derived : Derives body (.rule .pattern) text trees)
    (visited : Tree.visitAll (buildNodeOf conversions) trees s = .ok s') :
    PatternsBuilt conversions trees s s' := by
  intro ready
  obtain ⟨children,rfl,within⟩ := (derives_rule _).mp derived
  simp only [Tree.visitAll_cons,Tree.visit_node,Tree.visitAll_nil] at visited
  obtain ⟨_,⟨middle,visited,made⟩,rfl⟩ := visited
  obtain rfl := Except.ok.inj made
  have count := path_count within
  obtain ⟨edges,written,drafts⟩ := path_visit conversions s middle within visited ready.toNothingPending
  rw [ready.noNodes,ready.noEdges,List.append_nil,List.append_nil] at drafts
  have nodes : middle.nodeStack.reverse =
      (Tree.insideAll (is .nodePattern) children).map (Written.node conversions) := by
    rw [show middle.nodeStack = _ from congrArg Drafts.nodeStack drafts,List.reverse_reverse]
  have built : middle.edgeStack.reverse = edges := by
    rw [show middle.edgeStack = _ from congrArg Drafts.edgeStack drafts,List.reverse_reverse]
  have sizes : edges.length + 1 = middle.nodeStack.reverse.length := by
    have := congrArg List.length written
    simp only [List.length_map] at this
    rw [nodes,List.length_map,← count,this]
  have shape : middle.nodeStack.reverse.isEmpty = true ∨
      middle.edgeStack.reverse.length < middle.nodeStack.reverse.length := by
    rw [built]
    omega
  refine ⟨[⟨_,_,shape⟩],?_,?_,?_⟩
  · simp (disch := decide) only [Tree.insideAll_cons,Tree.inside_here,Tree.insideAll_nil,List.append_nil,
      List.map_singleton,Pattern.written,built,nodes,written]
    simp (disch := decide) [Written.pattern,Tree.inside_below]
  · intro pattern among
    obtain rfl := List.mem_singleton.mp among
    simpa [built] using sizes
  · unfold ParserState.buildPattern
    simp only [dif_pos shape]
    ext1
    · exact (congrArg Drafts.tempLabels drafts :)
    · exact (congrArg Drafts.tempEdgeTypes drafts :)
    · exact (congrArg Drafts.propertyStack drafts :)
    · exact ready.noNodes.symm
    · exact ready.noEdges.symm
    · exact congrArg (_ :: ·) (congrArg Drafts.patternStack drafts :)
    · exact (congrArg Drafts.matchClause drafts :)
    · exact (congrArg Drafts.createClause drafts :)

theorem patternList_visit {text : Bytes} {trees : List CypherTree} (s s' : ParserState)
    (derived : Derives body (.rule .patternList) text trees)
    (visited : Tree.visitAll (buildNodeOf conversions) trees s = .ok s') :
    PatternsBuilt conversions trees s s' := by
  obtain ⟨children,rfl,within⟩ := (derives_rule _).mp derived
  simp only [Tree.visitAll_cons,Tree.visit_node,Tree.visitAll_nil] at visited
  obtain ⟨_,⟨_,visited,same⟩,rfl⟩ := visited
  obtain rfl := Except.ok.inj same
  have listed := list_visits (PatternsBuilt conversions) (fun s _ => ⟨[],rfl,by simp,by simp⟩)
    (fun _ _ _ _ _ => patternsBuilt_trans conversions)
    (fun _ _ s s' => pattern_visit conversions s s') ?_ within _ _ visited
  · unfold PatternsBuilt at listed ⊢
    simpa (disch := decide) only [Tree.insideAll_cons,Tree.inside_below,Tree.insideAll_nil,
      List.append_nil] using listed
  · intro text trees s s' apart visited _
    refine ⟨[],?_,by simp,plain_part conversions apart (by decide) s s' visited⟩
    simp [comma_inside (is .pattern) (by decide) apart]

/-! Whole queries. -/

theorem choice_shape {es : List Expr} {text : Bytes} {trees : List CypherTree}
    (derived : Derives body (choice es) text trees) :
    ∃ children, trees = [.node .unnamed text children] ∧ Derives body (first es) text children :=
  (derives_labelled _ _).mp derived

/-- The nodes around the clauses of a query, and the clauses that there can be. -/
theorem query_shape {text : Bytes} {children : List CypherTree}
    (derived : Derives body (body .query) text children) :
    ∃ blank blank' inner clauses, children = [.node .optWs blank [],
        .node .unnamed inner [.node .unnamed inner clauses],.node .optWs blank' []] ∧
      (Derives body (all matchQuery) inner clauses ∨
        ∃ clause ∈ [Rule.createClause,.setClause,.deleteClause],
          Derives body (all (writeQuery clause)) inner clauses) := by
  obtain ⟨blank,_,_,rfl,d1⟩ := blank_then derived
  obtain ⟨inner,_,alternatives,_,-,rfl,chosen,d2⟩ := (derives_all_labelled _ _ _).mp d1
  obtain ⟨blank',_,_,rfl,d3⟩ := blank_then d2
  obtain ⟨_,_,_,_,-,rfl,ended,done⟩ := (derives_all_cons _ _).mp d3
  obtain ⟨-,rfl⟩ := derives_eof.mp ended
  obtain ⟨-,rfl⟩ := derives_all_nil.mp done
  simp only [first,derives_sor,group,derives_labelled] at chosen
  rcases chosen with ⟨clauses,rfl,one⟩ | ⟨clauses,rfl,one⟩ | ⟨clauses,rfl,one⟩ | ⟨clauses,rfl,one⟩
  · exact ⟨blank,blank',inner,clauses,rfl,.inl one⟩
  · exact ⟨blank,blank',inner,clauses,rfl,.inr ⟨_,by simp,one⟩⟩
  · exact ⟨blank,blank',inner,clauses,rfl,.inr ⟨_,by simp,one⟩⟩
  · exact ⟨blank,blank',inner,clauses,rfl,.inr ⟨_,by simp,one⟩⟩

def patternRules : List Rule := [.patternList,.pattern] ++ edgeRules ++ nodeRules

def matchRules : List Rule := .matchClause :: patternRules ++ plainRules

def createRules : List Rule := .createClause :: patternRules ++ plainRules

theorem clause_patterns {keyword : Rule} (plain : among plainRules keyword = true) {text : Bytes}
    {children : List CypherTree}
    (derived : Derives body (all [.rule keyword,.rule .ws,.rule .patternList]) text children)
    (s s' : ParserState) (visited : Tree.visitAll (buildNodeOf conversions) children s = .ok s') :
    PatternsBuilt conversions children s s' := by
  have quiet (rule : Rule) (kind : among plainRules rule = true) {text : Bytes} {trees : List CypherTree}
      (derived : Derives body (body rule) text trees) (s s' : ParserState)
      (visited : Tree.visitAll (buildNodeOf conversions) [.node rule text trees] s = .ok s') :
      PatternsBuilt conversions [.node rule text trees] s s' := by
    have within : (Peg.rule rule : Expr).within (among plainRules) = true := kind
    intro _
    refine ⟨[],?_,by simp,plain_part conversions (.rule derived) within s s' visited⟩
    rw [inside_absent plainRules plain_closed (is .pattern) (by decide) (.rule derived) within]
    rfl
  obtain ⟨word,wordTrees,_,_,rfl,keyed,d1⟩ := rule_then derived
  obtain ⟨blank,blankTrees,_,_,rfl,spaced,d2⟩ := rule_then d1
  obtain ⟨list,listTrees,_,_,rfl,listed,d3⟩ := rule_then d2
  obtain ⟨-,rfl⟩ := derives_all_nil.mp d3
  obtain ⟨_,first,later⟩ := (Tree.visitAll_append [_] ..).mp visited
  obtain ⟨_,second,third⟩ := (Tree.visitAll_append [_] ..).mp later
  exact patternsBuilt_trans conversions (quiet keyword plain keyed _ _ first)
    (patternsBuilt_trans conversions (quiet .ws (by decide) spaced _ _ second)
      (patternList_visit conversions _ _ (.rule listed) third))

theorem match_visit {text : Bytes} {children : List CypherTree}
    (derived : Derives body (body .matchClause) text children) (s s' : ParserState) (ready : PatternReady s.drafts)
    (noPatterns : s.drafts.patternStack = [])
    (visited : Tree.visitAll (buildNodeOf conversions) [.node .matchClause text children] s = .ok s') :
    ∃ patterns : List Pattern, patterns.map Pattern.written =
        Written.patterns conversions (.node .matchClause text children) ∧
      (∀ pattern ∈ patterns, pattern.edges.length + 1 = pattern.nodes.length) ∧
      s'.drafts = {s.drafts with matchClause := some ⟨patterns⟩} := by
  simp only [Tree.visitAll_cons,Tree.visit_node,Tree.visitAll_nil] at visited
  obtain ⟨_,⟨middle,visited,made⟩,rfl⟩ := visited
  obtain rfl := Except.ok.inj made
  obtain ⟨patterns,written,shaped,drafts⟩ :=
    clause_patterns conversions (by decide) derived _ _ visited ready
  rw [noPatterns,List.append_nil] at drafts
  have stack : middle.patternStack.reverse = patterns := by
    rw [show middle.patternStack = _ from congrArg Drafts.patternStack drafts,List.reverse_reverse]
  refine ⟨patterns,?_,shaped,?_⟩
  · rw [written,Written.patterns,Tree.inside_below _ _ _ (by decide)]
  · ext1
    · exact (congrArg Drafts.tempLabels drafts :)
    · exact (congrArg Drafts.tempEdgeTypes drafts :)
    · exact (congrArg Drafts.propertyStack drafts :)
    · exact (congrArg Drafts.nodeStack drafts :)
    · exact (congrArg Drafts.edgeStack drafts :)
    · exact noPatterns.symm
    · exact congrArg (fun patterns => some (MatchClause.mk patterns)) stack
    · exact (congrArg Drafts.createClause drafts :)

theorem create_visit {text : Bytes} {children : List CypherTree}
    (derived : Derives body (body .createClause) text children) (s s' : ParserState) (ready : PatternReady s.drafts)
    (noPatterns : s.drafts.patternStack = [])
    (visited : Tree.visitAll (buildNodeOf conversions) [.node .createClause text children] s = .ok s') :
    ∃ patterns : List Pattern, patterns.map Pattern.written =
        Written.patterns conversions (.node .createClause text children) ∧
      (∀ pattern ∈ patterns, pattern.edges.length + 1 = pattern.nodes.length) ∧
      s'.drafts = {s.drafts with createClause := some ⟨patterns⟩} := by
  simp only [Tree.visitAll_cons,Tree.visit_node,Tree.visitAll_nil] at visited
  obtain ⟨_,⟨middle,visited,made⟩,rfl⟩ := visited
  obtain rfl := Except.ok.inj made
  obtain ⟨patterns,written,shaped,drafts⟩ :=
    clause_patterns conversions (by decide) derived _ _ visited ready
  rw [noPatterns,List.append_nil] at drafts
  have stack : middle.patternStack.reverse = patterns := by
    rw [show middle.patternStack = _ from congrArg Drafts.patternStack drafts,List.reverse_reverse]
  refine ⟨patterns,?_,shaped,?_⟩
  · rw [written,Written.patterns,Tree.inside_below _ _ _ (by decide)]
  · ext1
    · exact (congrArg Drafts.tempLabels drafts :)
    · exact (congrArg Drafts.tempEdgeTypes drafts :)
    · exact (congrArg Drafts.propertyStack drafts :)
    · exact (congrArg Drafts.nodeStack drafts :)
    · exact (congrArg Drafts.edgeStack drafts :)
    · exact noPatterns.symm
    · exact (congrArg Drafts.matchClause drafts :)
    · exact congrArg (fun patterns => some (CreateClause.mk patterns)) stack

/-- A text that is read is parsed by a visit of its tree on empty stacks. -/
theorem parse_visit (text : Bytes) (tree : CypherTree) (reads : Reads text tree) (query : Query) :
    CypherParser.parse conversions text = .ok query ↔
      ∃ s', buildAstFromTree conversions tree {} = .ok s' ∧ s'.query = query ∧ query.isValid = true := by
  unfold Reads Outcome.only at reads
  split at reads
  · rename_i found rest matched
    obtain rfl := Option.some.inj reads
    have alone (s s' : ParserState) : Tree.visitAll (buildNodeOf conversions) [found] s = .ok s' ↔
        buildAstFromTree conversions found s = .ok s' := by simp [buildAstFromTree]
    rw [CypherParser.parse,matched,CypherParser.build]
    cases visited : Tree.visitAll (buildNodeOf conversions) [found] {} with
    | error what =>
      refine iff_of_false (by simp) ?_
      rintro ⟨s',done,-⟩
      rw [(alone _ s').mpr done] at visited
      cases visited
    | ok s' =>
      have done := (alone _ s').mp visited
      dsimp only
      constructor
      · intro parsed
        split at parsed
        · rename_i valid
          obtain rfl := Except.ok.inj parsed
          exact ⟨s',done,rfl,valid⟩
        · cases parsed
      · rintro ⟨final,again,rfl,valid⟩
        obtain rfl := Except.ok.inj (done.symm.trans again)
        rw [if_pos valid]
  · cases reads

theorem parsed_reads (text : Bytes) (query : Query)
    (parsed : CypherParser.parse conversions text = .ok query) : ∃ tree, Reads text tree := by
  unfold CypherParser.parse CypherParser.build at parsed
  split at parsed
  · simp at parsed
  · simp at parsed
  · rename_i trees rest matched
    obtain ⟨whole,-,derived⟩ := parse_derives ranking .query text rest trees matched
    obtain ⟨children,rfl,-⟩ := (derives_rule _).mp derived
    exact ⟨_,by rw [Reads,matched]; rfl⟩

/-- Of a tree that is read only the clauses do anything. -/
theorem reads_clauses (text : Bytes) (tree : CypherTree) (reads : Reads text tree) :
    ∃ inner clauses,
      (∀ wanted : Rule → Bool, ([Rule.query,.optWs,.unnamed].all fun rule => !wanted rule) = true →
        tree.inside wanted = Tree.insideAll wanted clauses) ∧
      (Derives body (all matchQuery) inner clauses ∨
        ∃ clause ∈ [Rule.createClause,.setClause,.deleteClause],
          Derives body (all (writeQuery clause)) inner clauses) ∧
      (∀ node ∈ Tree.nodesAll clauses, node ∈ tree.nodes) ∧
      ∀ s s', Tree.visit (buildNodeOf conversions) tree s = .ok s' →
        Tree.visitAll (buildNodeOf conversions) clauses s = .ok s' := by
  unfold Reads Outcome.only at reads
  split at reads
  · rename_i found rest matched
    obtain rfl := Option.some.inj reads
    obtain ⟨whole,-,derived⟩ := parse_derives ranking .query text rest [found] matched
    obtain ⟨children,same,within⟩ := (derives_rule _).mp derived
    obtain rfl := (List.singleton_inj.mp same).symm
    obtain ⟨blank,blank',inner,clauses,rfl,cases⟩ := query_shape within
    refine ⟨inner,clauses,?_,cases,fun node among => by simp [among],?_⟩
    · intro wanted apart
      simp only [List.all_cons,List.all_nil,Bool.and_true,Bool.and_eq_true,Bool.not_eq_true'] at apart
      simp [Tree.inside_below _ _ _ apart.1,Tree.inside_below _ _ _ apart.2.1,
        Tree.inside_below _ _ _ apart.2.2]
    · intro s s' visited
      simp only [Tree.visitAll_cons,Tree.visit_node,Tree.visitAll_nil] at visited
      obtain ⟨_,⟨_,⟨_,rfl,ok1⟩,_,⟨_,⟨_,⟨_,visited,ok2⟩,rfl⟩,ok3⟩,_,⟨_,rfl,ok4⟩,rfl⟩,ok5⟩ := visited
      obtain rfl := Except.ok.inj ok1
      obtain rfl := Except.ok.inj ok2
      obtain rfl := Except.ok.inj ok3
      obtain rfl := Except.ok.inj ok4
      obtain rfl := Except.ok.inj ok5
      exact visited
  · cases reads

/-- A parsed query comes from the clauses of a parse tree, visited on empty stacks. -/
theorem parsed_clauses (text : Bytes) (query : Query)
    (parsed : CypherParser.parse conversions text = .ok query) :
    ∃ tree inner clauses s', Reads text tree ∧
      (∀ wanted : Rule → Bool, ([Rule.query,.optWs,.unnamed].all fun rule => !wanted rule) = true →
        tree.inside wanted = Tree.insideAll wanted clauses) ∧
      (Derives body (all matchQuery) inner clauses ∨
        ∃ clause ∈ [Rule.createClause,.setClause,.deleteClause],
          Derives body (all (writeQuery clause)) inner clauses) ∧
      Tree.visitAll (buildNodeOf conversions) clauses {} = .ok s' ∧ s'.query = query := by
  obtain ⟨tree,reads⟩ := parsed_reads conversions text query parsed
  obtain ⟨s',visited,same,-⟩ := (parse_visit conversions text tree reads query).mp parsed
  obtain ⟨inner,clauses,within,cases,-,visits⟩ := reads_clauses conversions text tree reads
  exact ⟨tree,inner,clauses,s',reads,within,cases,visits {} s' visited,same⟩

end Building

set_option linter.dupNamespace false in
def Query.patterns (query : Query) : List Pattern :=
  query.matchClause.elim [] MatchClause.patterns ++ query.createClause.elim [] CreateClause.patterns

theorem parsed_patterns (conversions : Conversions) (text : Bytes) (query : Query)
    (parsed : CypherParser.parse conversions text = .ok query) :
    ∃ tree, Reads text tree ∧
      query.matchClause.map (fun clause => clause.patterns.map Pattern.written) =
        (tree.inside (is .matchClause)).head?.map (Written.patterns conversions) ∧
      query.createClause.map (fun clause => clause.patterns.map Pattern.written) =
        (tree.inside (is .createClause)).head?.map (Written.patterns conversions) ∧
      ∀ pattern ∈ query.patterns, pattern.edges.length + 1 = pattern.nodes.length := by
  obtain ⟨tree,inner,clauses,s',reads,within,cases,visited,rfl⟩ :=
    parsed_clauses conversions text query parsed
  refine ⟨tree,reads,?_⟩
  rw [within (is .matchClause) (by decide),within (is .createClause) (by decide)]
  have ready : PatternReady (ParserState.drafts {}) := ⟨⟨rfl,rfl,rfl⟩,rfl,rfl⟩
  rcases cases with derived | ⟨clause,among,derived⟩
  · obtain ⟨_,_,_,later,rfl,matching,rest⟩ := rule_then derived
    obtain ⟨middle,first,second⟩ := (Tree.visitAll_append [_] ..).mp visited
    have kept := plain_part conversions rest (by decide) _ _ second
    obtain ⟨patterns,written,shaped,drafts⟩ := match_visit conversions matching _ _ ready rfl first
    have matched : s'.query.matchClause = some ⟨patterns⟩ := congrArg Drafts.matchClause (kept.trans drafts)
    have created : s'.query.createClause = none := congrArg Drafts.createClause (kept.trans drafts)
    have noCreate : Tree.insideAll (is .createClause) (_ :: later) = [] :=
      inside_absent matchRules (by decide) _ (by decide) derived (by decide)
    rw [noCreate,Tree.insideAll_cons,Tree.inside_here _ _ _ (by decide)]
    refine ⟨by simp [matched,written],by simp [created],?_⟩
    simpa [matched,created,Query.patterns] using shaped
  · obtain ⟨_,_,_,later,rfl,writing,rest⟩ := rule_then derived
    obtain ⟨middle,first,second⟩ := (Tree.visitAll_append [_] ..).mp visited
    have kept := plain_part conversions rest (by decide) _ _ second
    simp only [List.mem_cons,List.not_mem_nil,or_false] at among
    rcases among with rfl | rfl | rfl
    · obtain ⟨patterns,written,shaped,drafts⟩ := create_visit conversions writing _ _ ready rfl first
      have matched : s'.query.matchClause = none := congrArg Drafts.matchClause (kept.trans drafts)
      have created : s'.query.createClause = some ⟨patterns⟩ :=
        congrArg Drafts.createClause (kept.trans drafts)
      have noMatch : Tree.insideAll (is .matchClause) (_ :: later) = [] :=
        inside_absent createRules (by decide) _ (by decide) derived (by decide)
      rw [noMatch,Tree.insideAll_cons,Tree.inside_here _ _ _ (by decide)]
      refine ⟨by simp [matched],by simp [created,written],?_⟩
      simpa [matched,created,Query.patterns] using shaped
    all_goals
      have drafts := plain_part conversions (.rule writing) (by decide) _ _ first
      have matched : s'.query.matchClause = none := congrArg Drafts.matchClause (kept.trans drafts)
      have created : s'.query.createClause = none := congrArg Drafts.createClause (kept.trans drafts)
      have none (wanted : Rule → Bool) (apart : (plainRules.all fun rule => !wanted rule) = true) :
          Tree.insideAll wanted (_ :: later) = [] :=
        inside_absent plainRules plain_closed wanted apart derived (by decide)
      rw [none _ (by decide),none _ (by decide)]
      simp [matched,created,Query.patterns]

/-- For texts without decimal points: the exceptions carry the names of the functions. -/
def wholeNumbers : Conversions where
  stod _ := .error "stod"
  invalidArgument name := name
  outOfRange name := name
  parseError _ := "parse error"

def aliceKnowsBob : Bytes :=
  ascii "CREATE (a:Person \x7bname: 'Alice', age: 30\x7d)-[r:KNOWS \x7bsince: 2020\x7d]->(b:Person \x7bname: 'Bob'\x7d)"

theorem parsed_patterns_alice : ∃ query tree,
    CypherParser.parse wholeNumbers aliceKnowsBob = .ok query ∧ Reads aliceKnowsBob tree ∧
      query.createClause.map (fun clause => clause.patterns.map Pattern.written) =
        (tree.inside (is .createClause)).head?.map (Written.patterns wholeNumbers) := by
  have accepted : ((Peg.run body 70 (.rule .query) aliceKnowsBob).bind fun outcome =>
      (CypherParser.build wholeNumbers aliceKnowsBob outcome).toOption).isSome = true := by decide +kernel
  obtain ⟨query,ran⟩ := Option.isSome_iff_exists.mp accepted
  have parsed := CypherParser.parse_of_run wholeNumbers aliceKnowsBob 70 query ran
  obtain ⟨tree,reads,-,created,-⟩ := parsed_patterns wholeNumbers aliceKnowsBob query parsed
  exact ⟨query,tree,parsed,reads,created⟩

-- a bracket that stays open
example : (Peg.run body 70 (.rule .query) (ascii "MATCH (a RETURN a")).any fun outcome =>
    (CypherParser.build wholeNumbers (ascii "MATCH (a RETURN a") outcome).toOption.isNone := by decide +kernel

end LoreDB.Query.Cypher
