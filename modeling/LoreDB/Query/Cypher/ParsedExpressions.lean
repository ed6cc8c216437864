import LoreDB.Query.Cypher.ExpressionStack
import LoreDB.Query.Cypher.ParsedPatterns

/-! The condition and the value of a parsed query. Building an expression does to the stack of
expressions what reading it there does, and a clause takes what is on top. Below lie the names and
values of the patterns. -/
namespace LoreDB.Query.Cypher
open LoreDB.Storage LoreDB.Library Grammar Peg

section Building

variable (conversions : Conversions)

def silentRules : List Rule := [.ws,.optWs,.eqOp,.neOp,.ltOp,.leOp,.gtOp,.geOp,.comparisonOp,.andOp,.orOp,
  .notOp,.matchKeyword,.whereKeyword,.returnKeyword,.createKeyword,.setKeyword,.deleteKeyword,
  .detachKeyword,.distinctKeyword,.asKeyword,.stringLiteral,.singleQuoteString,.integer,.decimal,
  .trueLiteral,.falseLiteral]

theorem silent_keeps (rule : Rule) (text : Bytes) (children : List CypherTree) (s s' : ParserState)
    (kind : among silentRules rule = true) (done : buildNodeOf conversions rule text children s = .ok s') :
    s' = s := by
  cases rule
  all_goals first
    | exact absurd kind (by decide)
    | exact (Except.ok.inj done).symm

theorem silent_visit (rule : Rule) (kind : among silentRules rule = true) {text : Bytes}
    {children : List CypherTree} (derived : Derives body (body rule) text children) (s s' : ParserState)
    (visited : Tree.visit (buildNodeOf conversions) (.node rule text children) s = .ok s') : s' = s :=
  Tree.visit_keeps id (among silentRules) (silent_keeps conversions) _
    (all_among silentRules (by decide) (.rule derived) kind _ (List.mem_singleton_self _)) s s' visited

/-! Operators. -/

theorem string_text (characters : List Char) {text : Bytes} {trees : List CypherTree}
    (derived : Derives body (string characters) text trees) : text = characters.map byte := by
  induction characters generalizing text trees with
  | nil => exact (derives_all_nil.mp derived).1
  | cons c rest ih =>
    obtain ⟨b,after,rfl,same,later⟩ := (derives_all_one _ _).mp derived
    rw [ih later,List.map_cons]
    congr 1
    simpa using same

theorem operator_written {text : Bytes} {children : List CypherTree}
    (derived : Derives body (body .comparisonOp) text children) (before after : List CypherTree)
    (others : ∀ child ∈ before, child.label ≠ .comparisonOp) :
    (before ++ .node .comparisonOp text children :: after).find? (fun child => child.label == .comparisonOp) =
        some (.node .comparisonOp text children) ∧
      Written.operator (.node .comparisonOp text children) =
        some (comparisonOperator (before ++ .node .comparisonOp text children :: after)) := by
  have found : (before ++ .node .comparisonOp text children :: after).find?
      (fun child => child.label == .comparisonOp) = some (.node .comparisonOp text children) := by
    rw [List.find?_append,List.find?_eq_none.mpr fun child member => by simpa using others child member]
    simp
  refine ⟨found,?_⟩
  unfold comparisonOperator childOf
  rw [found]
  simp only [body,first,derives_sor,derives_rule] at derived
  rcases derived with ⟨_,rfl,op⟩ | ⟨_,rfl,op⟩ | ⟨_,rfl,op⟩ | ⟨_,rfl,op⟩ | ⟨_,rfl,op⟩ | ⟨_,rfl,op⟩
  all_goals
    obtain rfl := string_bare _ op
    obtain rfl := string_text _ op
    decide

/-! Reading an expression. -/

def expressionRules : List Rule := [.literalExpression,.identifierExpression,.propertyAccessExpression,
  .primaryExpression,.comparisonExpression,.notExpression,.andExpression,.orExpression,
  .logicalExpression,.expression,.parenthesizedExpression]

/-- A tree that says one expression, and does to the stack what that expression does. -/
def SaidOnto (tree : CypherTree) : Prop :=
  ∀ s s', Tree.visit (buildNodeOf conversions) tree s = .ok s' →
    ∃ e, Written.expression conversions tree = some e ∧ s'.expressionStack = e.onto s.expressionStack

theorem wrapped_said (rule : Rule)
    (kind : rule = .primaryExpression ∨ rule = .logicalExpression ∨ rule = .expression) (text : Bytes)
    (inner : CypherTree) (said : SaidOnto conversions inner) :
    SaidOnto conversions (.node rule text [inner]) := by
  intro s s' visited
  obtain ⟨middle,walked,done⟩ := (Tree.visit_node ..).mp visited
  obtain ⟨_,here,same⟩ := (Tree.visitAll_cons ..).mp walked
  rw [Tree.visitAll_nil] at same
  have kept : s' = middle := by
    rcases kind with rfl | rfl | rfl <;> exact (Except.ok.inj done).symm
  obtain ⟨e,written,onto⟩ := said _ _ here
  refine ⟨e,?_,by rw [kept,← same]; exact onto⟩
  rw [Written.expression,Written.expressions,written,Written.expressions]
  rcases kind with rfl | rfl | rfl <;> rfl

theorem blank_nothing (text : Bytes) :
    Written.expression conversions (.node .optWs text []) = none := by
  rw [Written.expression]
  rfl

/-- The two sides of an operator, one after the other. -/
theorem operation_visit {operator : Rule} (quiet : among silentRules operator = true)
    (nothing : ∀ text trees, Written.expression conversions (.node operator text trees) = none)
    {text : Bytes} {children : List CypherTree} (derived : Derives body (operation operator) text children)
    (said : ∀ child ∈ children, ∀ text' inner, child = .node .primaryExpression text' inner →
      Derives body (body .primaryExpression) text' inner → SaidOnto conversions child)
    (s s' : ParserState) (visited : Tree.visitAll (buildNodeOf conversions) children s = .ok s') :
    ∃ left right, Written.expressions conversions children = [left,right] ∧
      s'.expressionStack = right.onto (left.onto s.expressionStack) := by
  obtain ⟨left,leftTrees,_,_,rfl,lefts,d1⟩ := rule_then derived
  obtain ⟨blank,_,_,rfl,d2⟩ := blank_then d1
  obtain ⟨opText,opTrees,_,_,rfl,op,d3⟩ := rule_then d2
  obtain ⟨blank',_,_,rfl,d4⟩ := blank_then d3
  obtain ⟨right,rightTrees,_,_,rfl,rights,d5⟩ := rule_then d4
  obtain ⟨-,rfl⟩ := derives_all_nil.mp d5
  obtain ⟨first,visitLeft,v1⟩ := (Tree.visitAll_cons ..).mp visited
  obtain ⟨_,skip1,v2⟩ := (Tree.visitAll_cons ..).mp v1
  obtain rfl := Except.ok.inj skip1
  obtain ⟨_,skip2,v3⟩ := (Tree.visitAll_cons ..).mp v2
  obtain rfl := silent_visit conversions operator quiet op _ _ skip2
  obtain ⟨_,skip3,v4⟩ := (Tree.visitAll_cons ..).mp v3
  obtain rfl := Except.ok.inj skip3
  obtain ⟨_,visitRight,v5⟩ := (Tree.visitAll_cons ..).mp v4
  obtain rfl := (Tree.visitAll_nil ..).mp v5
  obtain ⟨l,writtenLeft,ontoLeft⟩ := said _ (by simp) _ _ rfl lefts _ _ visitLeft
  obtain ⟨r,writtenRight,ontoRight⟩ := said _ (by simp) _ _ rfl rights _ _ visitRight
  refine ⟨l,r,?_,by rw [ontoRight,ontoLeft]⟩
  simp [Written.expressions,blank_nothing,nothing,writtenLeft,writtenRight]

theorem literal_pushed {rule : Rule} (kind : isLiteral rule = true) {text : Bytes}
    {children : List CypherTree} (derived : Derives body (body rule) text children) (s s' : ParserState)
    (visited : Tree.visit (buildNodeOf conversions) (.node rule text children) s = .ok s') :
    ∃ value, Written.literal conversions (.node rule text children) = some value ∧
      s' = s.push (.literal value) := by
  obtain ⟨middle,below,done⟩ := (Tree.visit_node ..).mp visited
  have quiet : (body rule).within (among silentRules) = true := by
    simp only [isLiteral,Bool.or_eq_true,beq_iff_eq] at kind
    rcases kind with (rfl | rfl) | rfl <;> decide
  obtain rfl : middle = s := Tree.visitAll_keeps id (among silentRules) (silent_keeps conversions) _
    (all_among silentRules (by decide) derived quiet) s middle below
  have read : ∃ value, pairValue conversions (.string []) (.node rule text children) = .ok value ∧
      s' = middle.push (.literal value) := by
    simp only [isLiteral,Bool.or_eq_true,beq_iff_eq] at kind
    rcases kind with (rfl | rfl) | rfl
    · exact ⟨_,rfl,(Except.ok.inj done).symm⟩
    · obtain ⟨value,read,same⟩ := Tree.map_ok.mp done
      exact ⟨value,read,same.symm⟩
    · exact ⟨_,rfl,(Except.ok.inj done).symm⟩
  obtain ⟨value,read,same⟩ := read
  exact ⟨value,literal_written conversions kind derived _ value read,same⟩

theorem literal_said {text : Bytes} {children : List CypherTree}
    (derived : Derives body (body .literalExpression) text children) :
    SaidOnto conversions (.node .literalExpression text children) := by
  obtain ⟨rule,inner,rfl,kind,literal⟩ := value_written derived
  intro s s' visited
  obtain ⟨middle,walked,done⟩ := (Tree.visit_node ..).mp visited
  obtain rfl := Except.ok.inj done
  obtain ⟨_,here,same⟩ := (Tree.visitAll_cons ..).mp walked
  obtain rfl := (Tree.visitAll_nil ..).mp same
  obtain ⟨value,written,rfl⟩ := literal_pushed conversions kind literal _ _ here
  refine ⟨.literal value,?_,rfl⟩
  rw [Written.expression]
  simp [Written.combine,written]

theorem access_said {text : Bytes} {children : List CypherTree}
    (derived : Derives body (body .propertyAccessExpression) text children) :
    SaidOnto conversions (.node .propertyAccessExpression text children) := by
  obtain ⟨entity,entityTrees,_,_,rfl,named,d1⟩ := rule_then derived
  obtain ⟨_,d2⟩ := char_then d1
  obtain ⟨key,keyTrees,_,_,rfl,keyed,d3⟩ := rule_then d2
  obtain ⟨-,rfl⟩ := derives_all_nil.mp d3
  obtain ⟨entity_some,rfl⟩ := identifier_text named
  obtain ⟨key_some,rfl⟩ := identifier_text keyed
  intro s s' visited
  refine ⟨.propertyAccess entity key,by simp [Written.expression,Written.combine],?_⟩
  simp only [Tree.visit_node,Tree.visitAll_cons,Tree.visitAll_nil] at visited
  obtain ⟨_,⟨_,⟨_,rfl,pushed⟩,_,⟨_,rfl,skip⟩,rfl⟩,done⟩ := visited
  obtain rfl := Except.ok.inj pushed
  obtain rfl := Except.ok.inj skip
  obtain rfl := Except.ok.inj done
  have entity_some : entity.isEmpty = false := by simpa using entity_some
  have key_some : key.isEmpty = false := by simpa using key_some
  simp [accessNames,entity_some,key_some,ParserState.push,Expression.onto]

theorem parenthesized_said {text : Bytes} {children : List CypherTree}
    (derived : Derives body (body .parenthesizedExpression) text children)
    (said : ∀ child ∈ children, ∀ text' inner, child = .node .expression text' inner →
      Derives body (body .expression) text' inner → SaidOnto conversions child) :
    SaidOnto conversions (.node .parenthesizedExpression text children) := by
  obtain ⟨_,d0⟩ := char_then derived
  obtain ⟨blank,_,_,rfl,d1⟩ := blank_then d0
  obtain ⟨inside,insideTrees,_,_,rfl,inner,d2⟩ := rule_then d1
  obtain ⟨blank',_,_,rfl,d3⟩ := blank_then d2
  obtain ⟨_,d4⟩ := char_then d3
  obtain ⟨-,rfl⟩ := derives_all_nil.mp d4
  intro s s' visited
  obtain ⟨middle,walked,done⟩ := (Tree.visit_node ..).mp visited
  obtain rfl := Except.ok.inj done
  obtain ⟨_,skip1,v1⟩ := (Tree.visitAll_cons ..).mp walked
  obtain rfl := Except.ok.inj skip1
  obtain ⟨_,here,v2⟩ := (Tree.visitAll_cons ..).mp v1
  obtain ⟨_,skip2,v3⟩ := (Tree.visitAll_cons ..).mp v2
  obtain rfl := Except.ok.inj skip2
  obtain rfl := (Tree.visitAll_nil ..).mp v3
  obtain ⟨e,written,onto⟩ := said _ (by simp) _ _ rfl inner _ _ here
  refine ⟨e,?_,onto⟩
  rw [Written.expression]
  simp [Written.expressions,blank_nothing,written,Written.combine]

theorem comparison_said {text : Bytes} {children : List CypherTree}
    (derived : Derives body (body .comparisonExpression) text children)
    (said : ∀ child ∈ children, ∀ text' inner, child = .node .primaryExpression text' inner →
      Derives body (body .primaryExpression) text' inner → SaidOnto conversions child) :
    SaidOnto conversions (.node .comparisonExpression text children) := by
  intro s s' visited
  obtain ⟨middle,walked,done⟩ := (Tree.visit_node ..).mp visited
  obtain rfl := Except.ok.inj done
  obtain ⟨left,right,operands,onto⟩ := operation_visit conversions (by decide)
    (fun _ _ => by rw [Written.expression]; rfl) derived said s middle walked
  have found : (children.find? fun child => child.label == .comparisonOp).bind Written.operator =
      some (comparisonOperator children) := by
    obtain ⟨left,leftTrees,_,_,rfl,-,d1⟩ := rule_then derived
    obtain ⟨blank,_,_,rfl,d2⟩ := blank_then d1
    obtain ⟨opText,opTrees,_,later,rfl,op,-⟩ := rule_then d2
    obtain ⟨found,operator⟩ := operator_written op
      [.node .primaryExpression left leftTrees,.node .optWs blank []] later (by simp)
    rw [List.cons_append,List.cons_append,List.nil_append] at found operator
    rw [found,Option.bind_some,operator]
  refine ⟨.comparison left (comparisonOperator children) right,?_,?_⟩
  · rw [Written.expression,operands]
    simp [Written.combine,found]
  · rw [Expression.onto,← onto]
    unfold ParserState.buildComparison
    rcases same : middle.expressionStack with _ | ⟨second,_ | ⟨first,rest⟩⟩
    · exact same
    · exact same
    · rfl

/-- A connective is never built: its sides stay on the stack as they are. -/
theorem connective_said {rule operator : Rule} (connect : Expression → Expression → Expression)
    (combines : ∀ text children l r,
      Written.combine conversions rule text children [l,r] = some (connect l r))
    (quiet : among silentRules operator = true)
    (nothing : ∀ text trees, Written.expression conversions (.node operator text trees) = none)
    (silent : ∀ text children s, buildNodeOf conversions rule text children s = .ok s)
    (through : ∀ l r stack, (connect l r).onto stack = r.onto (l.onto stack))
    {text : Bytes} {children : List CypherTree} (derived : Derives body (operation operator) text children)
    (said : ∀ child ∈ children, ∀ text' inner, child = .node .primaryExpression text' inner →
      Derives body (body .primaryExpression) text' inner → SaidOnto conversions child) :
    SaidOnto conversions (.node rule text children) := by
  intro s s' visited
  obtain ⟨middle,walked,done⟩ := (Tree.visit_node ..).mp visited
  rw [silent] at done
  obtain rfl := Except.ok.inj done
  obtain ⟨left,right,operands,onto⟩ :=
    operation_visit conversions quiet nothing derived said s middle walked
  refine ⟨connect left right,?_,by rw [through,onto]⟩
  rw [Written.expression,operands,combines]

theorem not_said {text : Bytes} {children : List CypherTree}
    (derived : Derives body (body .notExpression) text children)
    (said : ∀ child ∈ children, ∀ text' inner, child = .node .primaryExpression text' inner →
      Derives body (body .primaryExpression) text' inner → SaidOnto conversions child) :
    SaidOnto conversions (.node .notExpression text children) := by
  obtain ⟨word,wordTrees,_,_,rfl,words,d1⟩ := rule_then derived
  obtain ⟨blank,blankTrees,_,_,rfl,spaces,d2⟩ := rule_then d1
  obtain ⟨operand,operandTrees,_,_,rfl,inner,d3⟩ := rule_then d2
  obtain ⟨-,rfl⟩ := derives_all_nil.mp d3
  intro s s' visited
  obtain ⟨middle,walked,done⟩ := (Tree.visit_node ..).mp visited
  obtain rfl := Except.ok.inj done
  obtain ⟨_,skip1,v1⟩ := (Tree.visitAll_cons ..).mp walked
  obtain rfl := silent_visit conversions .notOp (by decide) words _ _ skip1
  obtain ⟨_,skip2,v2⟩ := (Tree.visitAll_cons ..).mp v1
  obtain rfl := silent_visit conversions .ws (by decide) spaces _ _ skip2
  obtain ⟨_,here,v3⟩ := (Tree.visitAll_cons ..).mp v2
  obtain rfl := (Tree.visitAll_nil ..).mp v3
  obtain ⟨e,written,onto⟩ := said _ (by simp) _ _ rfl inner _ _ here
  have noWord : Written.expression conversions (.node .notOp word wordTrees) = none := by
    rw [Written.expression]
    rfl
  have noBlank : Written.expression conversions (.node .ws blank blankTrees) = none := by
    rw [Written.expression]
    rfl
  refine ⟨.logicalNot e,?_,onto⟩
  rw [Written.expression]
  simp [Written.expressions,noWord,noBlank,written,Written.combine]

/-- On the nesting of the tree, with one case for each form of an expression. -/
theorem expression_said (tree : CypherTree) : ∀ rule text children, tree = .node rule text children →
    among expressionRules rule = true → Derives body (body rule) text children →
    SaidOnto conversions tree := by
  induction tree using Tree.induction with
  | step rule text children ih =>
  rintro _ _ _ ⟨rfl,rfl,rfl⟩ kind derived
  have primaries (child : CypherTree) (member : child ∈ children) (text' : Bytes) (inner : List CypherTree)
      (same : child = .node .primaryExpression text' inner)
      (derived : Derives body (body .primaryExpression) text' inner) : SaidOnto conversions child :=
    ih child member _ _ _ same (by decide) derived
  cases rule
  case literalExpression => exact literal_said conversions derived
  case identifierExpression =>
    obtain ⟨-,rfl⟩ := identifier_text derived
    intro s s' visited
    obtain ⟨_,skip,done⟩ := (Tree.visit_node ..).mp visited
    obtain rfl := (Tree.visitAll_nil ..).mp skip
    obtain rfl := Except.ok.inj done
    exact ⟨.identifier text,by simp [Written.expression,Written.combine],rfl⟩
  case propertyAccessExpression => exact access_said conversions derived
  case primaryExpression =>
    change Derives body (first [_,_,_,_]) text children at derived
    simp only [first,derives_sor,derives_rule] at derived
    rcases derived with ⟨_,rfl,inner⟩ | ⟨_,rfl,inner⟩ | ⟨_,rfl,inner⟩ | ⟨_,rfl,inner⟩
    all_goals
      exact wrapped_said conversions _ (.inl rfl) text _
        (ih _ (List.mem_singleton_self _) _ _ _ rfl (by decide) inner)
  case logicalExpression =>
    change Derives body (first [_,_,_]) text children at derived
    simp only [first,derives_sor,derives_rule] at derived
    rcases derived with ⟨_,rfl,inner⟩ | ⟨_,rfl,inner⟩ | ⟨_,rfl,inner⟩
    all_goals
      exact wrapped_said conversions _ (.inr (.inl rfl)) text _
        (ih _ (List.mem_singleton_self _) _ _ _ rfl (by decide) inner)
  case expression =>
    change Derives body (first [_,_,_]) text children at derived
    simp only [first,derives_sor,derives_rule] at derived
    rcases derived with ⟨_,rfl,inner⟩ | ⟨_,rfl,inner⟩ | ⟨_,rfl,inner⟩
    all_goals
      exact wrapped_said conversions _ (.inr (.inr rfl)) text _
        (ih _ (List.mem_singleton_self _) _ _ _ rfl (by decide) inner)
  case parenthesizedExpression =>
    exact parenthesized_said conversions derived fun child member _ _ same derived =>
      ih child member _ _ _ same (by decide) derived
  case comparisonExpression => exact comparison_said conversions derived primaries
  case andExpression =>
    exact connective_said conversions .logicalAnd (fun _ _ _ _ => rfl) (by decide)
      (fun _ _ => by rw [Written.expression]; rfl) (fun _ _ _ => rfl) (fun _ _ _ => rfl) derived primaries
  case orExpression =>
    exact connective_said conversions .logicalOr (fun _ _ _ _ => rfl) (by decide)
      (fun _ _ => by rw [Written.expression]; rfl) (fun _ _ _ => rfl) (fun _ _ _ => rfl) derived primaries
  case notExpression => exact not_said conversions derived primaries
  all_goals exact absurd kind (by decide)

/-! What the patterns leave on the stack. -/

/-- The rules of everything that has a name or a value in a pattern. -/
def namingRules : List Rule := [.ws,.optWs,.identifier,.label,.propertyKey,.propertyPair,
  .propertyList,.propertyMap,.nodeLabels,.nodePattern,.edgeType,.edgeTypes,.directedEdge,
  .undirectedEdge,.simpleUndirectedEdge,.edgePattern,.pattern,.patternList,.matchKeyword,
  .createKeyword,.deleteKeyword,.detachKeyword,.deleteList,.optIdentifier] ++ rangeRules ++ valueRules

def mentionRules : List Rule := [.matchClause,.createClause,.deleteClause] ++ namingRules

theorem mention_keeps (rule : Rule) (text : Bytes) (children : List CypherTree) (s s' : ParserState)
    (kind : among mentionRules rule = true) (other : Written.isOperand rule = false)
    (done : buildNodeOf conversions rule text children s = .ok s') :
    s'.expressionStack = s.expressionStack := by
  cases rule
  case propertyPair =>
    obtain ⟨pair,-,rfl⟩ := Tree.map_ok.mp done
    unfold ParserState.addProperty
    split <;> rfl
  case directedEdge | undirectedEdge | simpleUndirectedEdge =>
    obtain ⟨hops,-,rfl⟩ := Tree.map_ok.mp done
    rfl
  case label =>
    obtain rfl := Except.ok.inj done
    unfold ParserState.addLabel
    split <;> rfl
  case edgeType =>
    obtain rfl := Except.ok.inj done
    unfold ParserState.addEdgeType
    split <;> rfl
  case propertyMap =>
    obtain rfl := Except.ok.inj done
    unfold ParserState.buildPropertyMap
    split <;> rfl
  case pattern =>
    obtain rfl := Except.ok.inj done
    unfold ParserState.buildPattern
    dsimp only
    split <;> rfl
  case deleteClause =>
    obtain rfl := Except.ok.inj done
    unfold ParserState.buildDelete
    dsimp only
    split <;> rfl
  all_goals first
    | exact absurd kind (by decide)
    | exact absurd other (by decide)
    | (obtain rfl := Except.ok.inj done; rfl)

theorem mentions_append (before after : List CypherTree) :
    Written.mentions conversions (before ++ after) =
      Written.mentions conversions after ++ Written.mentions conversions before := by
  simp [Written.mentions]

theorem mentions_plain (trees : List CypherTree) :
    Expression.Plain (Written.mentions conversions trees) := by
  refine Expression.Plain.of_each _ fun e among => ?_
  simp only [Written.mentions,List.mem_reverse,List.mem_filterMap] at among
  obtain ⟨tree,-,operand⟩ := among
  unfold Written.operand at operand
  split at operand
  · obtain rfl := Option.some.inj operand
    exact ⟨rfl,rfl⟩
  · obtain ⟨value,-,rfl⟩ := Option.map_eq_some_iff.mp operand
    exact ⟨rfl,rfl⟩

theorem body_labels (rule : Rule) : (body rule).labels (is .unnamed) = true := by
  cases rule <;> decide

/-- On the derivation, since only then nothing is mentioned inside what is mentioned itself. -/
theorem mentions_part {e : Expr} {text : Bytes} {trees : List CypherTree}
    (derived : Derives body e text trees) (holds : e.within (among mentionRules) = true)
    (wraps : e.labels (is .unnamed) = true)
    (s s' : ParserState) (visited : Tree.visitAll (buildNodeOf conversions) trees s = .ok s') :
    s'.expressionStack = Written.mentions conversions trees ++ s.expressionStack := by
  have closed : Closed mentionRules := by decide
  have inner (name : Rule) (kind : among mentionRules name = true) {text : Bytes} {children : List CypherTree}
      (derived : Derives body (body name) text children)
      (below : ∀ s s', Tree.visitAll (buildNodeOf conversions) children s = .ok s' →
        s'.expressionStack = Written.mentions conversions children ++ s.expressionStack) (s s' : ParserState)
      (visited : Tree.visitAll (buildNodeOf conversions) [.node name text children] s = .ok s') :
      s'.expressionStack =
        Written.mentions conversions [.node name text children] ++ s.expressionStack := by
    obtain ⟨_,here,same⟩ := (Tree.visitAll_cons ..).mp visited
    rw [Tree.visitAll_nil] at same
    subst same
    cases operand : Written.isOperand name with
    | false =>
      obtain ⟨middle,walked,done⟩ := (Tree.visit_node ..).mp here
      rw [mention_keeps conversions name _ _ _ _ kind operand done,below s middle walked]
      simp [Written.mentions,Tree.inside_below _ _ _ operand]
    | true =>
      simp only [Written.mentions,Tree.insideAll_cons,Tree.inside_here _ _ _ operand,Tree.insideAll_nil,
        List.append_nil]
      simp only [Written.isOperand,Bool.or_eq_true,beq_iff_eq] at operand
      rcases operand with rfl | literal
      · obtain ⟨-,rfl⟩ := identifier_text derived
        obtain ⟨middle,walked,done⟩ := (Tree.visit_node ..).mp here
        obtain rfl := (Tree.visitAll_nil ..).mp walked
        obtain rfl := Except.ok.inj done
        rfl
      · obtain ⟨value,written,rfl⟩ := literal_pushed conversions literal derived _ _ here
        have operand : Written.operand conversions (.node name text children) = some (.literal value) := by
          have other : name ≠ .identifier := by
            rintro rfl
            simp [isLiteral] at literal
          simp only [Written.operand,written]
          cases name
          case identifier => exact absurd rfl other
          all_goals rfl
        simp [operand,ParserState.push]
  induction derived generalizing s s' with
  | one | empty | eof | starDone | notAt =>
    rw [Tree.visitAll_nil] at visited
    simp [visited,Written.mentions]
  | seq _ _ left right =>
    simp only [within,labels,Bool.and_eq_true] at holds wraps
    obtain ⟨middle,first,second⟩ := (Tree.visitAll_append ..).mp visited
    rw [right holds.2 wraps.2 _ _ second,left holds.1 wraps.1 _ _ first,mentions_append,
      List.append_assoc]
  | sorLeft _ ih =>
    simp only [within,labels,Bool.and_eq_true] at holds wraps
    exact ih holds.1 wraps.1 _ _ visited
  | sorRight _ ih =>
    simp only [within,labels,Bool.and_eq_true] at holds wraps
    exact ih holds.2 wraps.2 _ _ visited
  | starMore _ _ left right =>
    obtain ⟨middle,first,second⟩ := (Tree.visitAll_append ..).mp visited
    rw [right holds wraps _ _ second,left holds wraps _ _ first,mentions_append,List.append_assoc]
  | must _ ih => exact ih holds wraps _ _ visited
  | rule derived ih =>
    refine inner _ holds derived (fun s s' visited => ih ?_ (body_labels _) s s' visited) s s' visited
    exact List.all_eq_true.mp closed _ (List.contains_iff_mem.mp holds)
  | labelled _ ih =>
    simp only [within,labels,is,Bool.and_eq_true,beq_iff_eq] at holds wraps
    obtain ⟨rfl,wraps⟩ := wraps
    simp only [Tree.visitAll_cons,Tree.visit_node,Tree.visitAll_nil] at visited
    obtain ⟨_,⟨middle,walked,done⟩,rfl⟩ := visited
    obtain rfl := Except.ok.inj done
    rw [ih holds.2 wraps _ _ walked]
    simp (disch := decide) [Written.mentions,Tree.inside_below]

end Building

end LoreDB.Query.Cypher
