import LoreDB.Query.Cypher.Parser

/-! What is written in a query, read off the parse tree of its text without any stack: the parts of
a pattern are the nodes of their kind inside it, in the order of the text. -/
namespace LoreDB.Query.Cypher
open LoreDB.Storage LoreDB.Library Grammar

/-- The parse tree of a text. -/
def Reads (text : Bytes) (tree : CypherTree) : Prop :=
  (Peg.parse ranking .query text).only = some tree

/-- What a run with enough fuel shows holds of the query and the tree. -/
theorem parsed_of_run (conversions : Conversions) (text : Bytes) (fuel : ℕ)
    (holds : Query → CypherTree → Bool)
    (ran : ((Peg.run body fuel (.rule .query) text).bind fun outcome =>
      (CypherParser.build conversions text outcome).toOption.bind fun query =>
        outcome.only.map (holds query)) = some true) :
    ∃ query tree, CypherParser.parse conversions text = .ok query ∧ Reads text tree ∧
      holds query tree = true := by
  obtain ⟨outcome,run,found⟩ := Option.bind_eq_some_iff.mp ran
  obtain ⟨query,built,read⟩ := Option.bind_eq_some_iff.mp found
  obtain ⟨tree,only,holds⟩ := Option.map_eq_some_iff.mp read
  refine ⟨query,tree,CypherParser.parse_of_run conversions text fuel query ?_,?_,holds⟩
  · rw [run,Option.bind_some,built]
  · rw [Reads,Peg.parse_eq ranking .query text fuel outcome run,only]

def is (rule : Rule) (other : Rule) : Bool := other == rule

def isEdge (other : Rule) : Bool :=
  other == .directedEdge || other == .undirectedEdge || other == .simpleUndirectedEdge

def isLiteral (other : Rule) : Bool :=
  other == .stringValue || other == .number || other == .boolean

namespace Written

def integer (text : Bytes) : ℤ :=
  if text.head? = some (byte '-') then -(Conversions.digitsValue text.tail : ℤ)
  else Conversions.digitsValue text

variable (conversions : Conversions)

def literal (tree : CypherTree) : Option PropertyValue :=
  match tree.label with
  | .stringValue => some (.string tree.text.tail.dropLast)
  | .boolean => some (.boolean (tree.text == ascii "true"))
  | .number =>
    if byte '.' ∈ tree.text then (conversions.stod tree.text).toOption.map .float
    else if Int64.minValue.toInt ≤ integer tree.text ∧ integer tree.text ≤ Int64.maxValue.toInt then
      some (.integer (Int64.ofInt (integer tree.text)))
    else none
  | _ => none

theorem literal_number (text : Bytes) (children : List CypherTree) :
    literal conversions (.node .number text children) =
      if byte '.' ∈ text then (conversions.stod text).toOption.map .float
      else if Int64.minValue.toInt ≤ integer text ∧ integer text ≤ Int64.maxValue.toInt then
        some (.integer (Int64.ofInt (integer text)))
      else none := rfl

def names (tree : CypherTree) : List Bytes := (tree.inside (is .identifier)).map Tree.text

def pair (tree : CypherTree) : Option (Bytes × PropertyValue) :=
  match tree.inside (is .propertyKey), tree.inside isLiteral with
  | [key], [value] => (literal conversions value).map fun value => (key.text,value)
  | _, _ => none

/-- The last value of a repeated key stays. -/
def properties (tree : CypherTree) : PropertyMap :=
  ((tree.inside (is .propertyPair)).filterMap (pair conversions)).foldl
    (fun map entry => map.insert entry.1 entry.2) ∅

def variableName (tree : CypherTree) : Option Bytes :=
  ((tree.inside (is .optIdentifier)).flatMap names).head?

def node (tree : CypherTree) : Node where
  variableName := variableName tree
  labels := (tree.inside (is .label)).flatMap names
  properties := properties conversions tree

def edge (tree : CypherTree) : Edge where
  variableName := variableName tree
  types := (tree.inside (is .edgeType)).flatMap names
  properties := properties conversions tree
  directed := tree.label == .directedEdge

def pattern (tree : CypherTree) : List Node × List Edge :=
  ((tree.inside (is .nodePattern)).map (node conversions),(tree.inside isEdge).map (edge conversions))

def patterns (tree : CypherTree) : List (List Node × List Edge) :=
  (tree.inside (is .pattern)).map (pattern conversions)

/-! Expressions. Around an expression nothing changes what it says. -/

def operator (tree : CypherTree) : Option ComparisonOperator :=
  match tree.children.map Tree.label with
  | [.eqOp] => some .equal
  | [.neOp] => some .notEqual
  | [.ltOp] => some .lessThan
  | [.leOp] => some .lessEqual
  | [.gtOp] => some .greaterThan
  | [.geOp] => some .greaterEqual
  | _ => none

def combine (rule : Rule) (text : Bytes) (children : List CypherTree) (operands : List Expression) :
    Option Expression :=
  match rule, operands with
  | .literalExpression, _ => (children.head?.bind (literal conversions)).map .literal
  | .identifierExpression, _ => some (.identifier text)
  | .propertyAccessExpression, _ =>
    match children with
    | [entity,key] => some (.propertyAccess entity.text key.text)
    | _ => none
  | .comparisonExpression, [left,right] =>
    ((children.find? fun child => child.label == .comparisonOp).bind operator).map fun op =>
      .comparison left op right
  | .andExpression, [left,right] => some (.logicalAnd left right)
  | .orExpression, [left,right] => some (.logicalOr left right)
  | .notExpression, [operand] => some (.logicalNot operand)
  | .primaryExpression, [e] | .logicalExpression, [e] | .expression, [e]
  | .parenthesizedExpression, [e] => some e
  | _, _ => none

mutual

def expression : CypherTree → Option Expression
  | .node rule text children => combine conversions rule text children (expressions children)

def expressions : List CypherTree → List Expression
  | [] => []
  | tree :: trees => (expression tree).toList ++ expressions trees

end

/-! Every variable, label, type and value of a pattern is an expression of its own to the parser. -/

def isOperand (other : Rule) : Bool := other == .identifier || isLiteral other

def operand (tree : CypherTree) : Option Expression :=
  match tree.label with
  | .identifier => some (.identifier tree.text)
  | _ => (literal conversions tree).map .literal

/-- The last one first, as they lie on a stack. -/
def mentions (trees : List CypherTree) : List Expression :=
  ((Tree.insideAll isOperand trees).filterMap (operand conversions)).reverse

/-- What lies before every condition. -/
def opening (tree : CypherTree) : List CypherTree :=
  tree.inside (is .matchClause) ++ tree.inside (is .createClause)

/-- The expression of the first clause of a kind. -/
def expressionOf (clause : Rule) (tree : CypherTree) : Option Expression :=
  ((tree.inside (is clause)).flatMap fun clause => clause.inside (is .expression)).head?.bind
    (expression conversions)

/-- The variable whose property a SET clause sets. -/
def target (tree : CypherTree) : Option Bytes :=
  (((tree.inside (is .setClause)).flatMap fun clause =>
    clause.inside (is .propertyAccess)).flatMap names).head?

/-- The name after AS, next to the expression and not inside it. -/
def aliasName (tree : CypherTree) : Option Bytes :=
  ((tree.inside fun rule => is .expression rule || is .identifier rule).find? fun part =>
    part.label == .identifier).map Tree.text

def item (tree : CypherTree) : Option ReturnItem :=
  ((tree.inside (is .expression)).head?.bind (expression conversions)).map fun e => ⟨e,aliasName tree⟩

def items (trees : List CypherTree) : List ReturnItem :=
  (Tree.insideAll (is .returnItem) trees).filterMap (item conversions)

end Written

end LoreDB.Query.Cypher
