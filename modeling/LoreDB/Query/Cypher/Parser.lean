import LoreDB.Query.Cypher.Ast
import LoreDB.Query.Cypher.ExpressionEvaluator
import LoreDB.Query.Cypher.Grammar

/-! The syntax tree of a query is built from the parse tree of its text, the children of a node
before the node. What the children leave lies on stacks that the node takes from. Stacks list their
tops first, and the messages of the exceptions are the standard library's and the parser library's
own. -/
namespace LoreDB.Query.Cypher
open LoreDB.Storage LoreDB.Library Grammar

set_option linter.dupNamespace false in
def Query.isValid (query : Query) : Bool :=
  query.matchClause.isSome || query.createClause.isSome || query.setClause.isSome ||
    query.deleteClause.isSome

structure ParserState where
  query : Query := {}
  expressionStack : List Expression := []
  patternStack : List Pattern := []
  nodeStack : List Node := []
  edgeStack : List Edge := []
  propertyStack : List PropertyMap := []
  returnStack : List (List ReturnItem) := []
  tempLabels : List Bytes := []
  tempEdgeTypes : List Bytes := []

structure Conversions where
  stod : Bytes → Except String UInt64
  invalidArgument : String → String
  outOfRange : String → String
  parseError : Bytes → String

namespace Conversions

def digitsValue (digits : Bytes) : ℕ :=
  digits.foldl (fun value digit => 10 * value + (digit.toNat - (byte '0').toNat)) 0

/-- The longest beginning that is a number, after blanks and a sign; what follows is not looked at. -/
def leadingInteger (text : Bytes) : Option ℤ :=
  let text := text.dropWhile isSpace
  let digits := if text.head? = some (byte '-') ∨ text.head? = some (byte '+') then text.tail else text
  let digits := digits.takeWhile isDigit
  if digits.isEmpty then none
  else if text.head? = some (byte '-') then some (-(digitsValue digits : ℤ))
  else some (digitsValue digits)

variable (conversions : Conversions)

def stoll (text : Bytes) : Except String Int64 :=
  match leadingInteger text with
  | none => .error (conversions.invalidArgument "stoll")
  | some value =>
    if Int64.minValue.toInt ≤ value ∧ value ≤ Int64.maxValue.toInt then .ok (Int64.ofInt value)
    else .error (conversions.outOfRange "stoll")

def stoi (text : Bytes) : Except String Int32 :=
  match leadingInteger text with
  | none => .error (conversions.invalidArgument "stoi")
  | some value =>
    if Int32.minValue.toInt ≤ value ∧ value ≤ Int32.maxValue.toInt then .ok (Int32.ofInt value)
    else .error (conversions.outOfRange "stoi")

end Conversions

/-! What a node reads off its own text and its children. -/

def unquoted (text : Bytes) : Bytes :=
  if 2 ≤ text.length ∧ (text.head? = some (byte '"') ∨ text.head? = some (byte '\'')) then
    (text.drop 1).take (text.length - 2)
  else text

def numberValue (conversions : Conversions) (text : Bytes) : Except String PropertyValue :=
  if byte '.' ∈ text then (conversions.stod text).map .float
  else (conversions.stoll text).map .integer

def booleanValue (text : Bytes) : PropertyValue := .boolean (text == ascii "true")

/-- The last child of a kind is the one that counts. -/
def accessNames (children : List CypherTree) : Bytes × Bytes :=
  children.foldl (fun names child =>
    match child.label with
    | .identifier => if names.1.isEmpty then (child.text,names.2) else (names.1,child.text)
    | .propertyKey => (names.1,child.text)
    | _ => names) ([],[])

def assignedNames (children : List CypherTree) : Bytes × Bytes :=
  children.foldl (fun names child =>
    match child.label with
    | .identifier => if names.1.isEmpty then (child.text,names.2) else names
    | .propertyKey => (names.1,child.text)
    | _ => names) ([],[])

def childOf (rule : Rule) (children : List CypherTree) : Option CypherTree :=
  children.find? fun child => child.label == rule

def comparisonOperator (children : List CypherTree) : ComparisonOperator :=
  match childOf .comparisonOp children with
  | none => .equal
  | some child =>
    if child.text = ascii "=" then .equal
    else if child.text = ascii "<>" then .notEqual
    else if child.text = ascii "<" then .lessThan
    else if child.text = ascii "<=" then .lessEqual
    else if child.text = ascii ">" then .greaterThan
    else if child.text = ascii ">=" then .greaterEqual
    else .equal

def pairValue (conversions : Conversions) (value : PropertyValue) (grandchild : CypherTree) :
    Except String PropertyValue :=
  match grandchild.label with
  | .stringValue => .ok (.string (unquoted grandchild.text))
  | .number => numberValue conversions grandchild.text
  | .boolean => .ok (booleanValue grandchild.text)
  | _ => .ok value

def pairOf (conversions : Conversions) (children : List CypherTree) :
    Except String (Bytes × PropertyValue) :=
  children.foldlM (fun pair child =>
    match child.label with
    | .propertyKey => .ok (child.text,pair.2)
    | .propertyValue =>
      (child.children.foldlM (pairValue conversions) pair.2).map fun value => (pair.1,value)
    | _ => .ok pair) ([],.string [])

def variableOf (children : List CypherTree) : Option Bytes :=
  (children.find? fun child => child.label == .optIdentifier && !child.text.isEmpty).map Tree.text

def splitDots : Bytes → Option (Bytes × Bytes)
  | [] => none
  | b :: rest =>
    if b = byte '.' ∧ rest.head? = some (byte '.') then some ([],rest.tail)
    else (splitDots rest).map fun parts => (b :: parts.1,parts.2)

def hopRange (conversions : Conversions) (range : Bytes) : Except String (Int32 × Int32) :=
  if range.isEmpty then .ok (1,-1)
  else
    match splitDots range with
    | some (low,high) =>
      (if low.isEmpty then Except.ok 1 else conversions.stoi low).bind fun minHops =>
        (if high.isEmpty then Except.ok (-1) else conversions.stoi high).map fun maxHops => (minHops,maxHops)
    | none => (conversions.stoi range).map fun hops => (hops,hops)

/-- A range among the children comes first; after it the text is searched for a star. -/
def hopsOf (conversions : Conversions) (text : Bytes) (children : List CypherTree) :
    Except String (Int32 × Int32) :=
  (match childOf .variableLengthRange children with
  | none => Except.ok (1,1)
  | some child =>
    hopRange conversions
      (if child.text.head? = some (byte '*') then child.text.tail else child.text)).bind fun hops =>
    if hops = (1,1) ∧ byte '*' ∈ text then
      hopRange conversions
        (((text.dropWhile fun b => b != byte '*').tail).takeWhile fun b => b != byte ']')
    else .ok hops

def setNames (children : List CypherTree) : Bytes × Bytes :=
  match children.find? fun child => child.label == .propertyAccess || child.label == .setAssignment with
  | none => ([],[])
  | some child =>
    if child.label = .propertyAccess then assignedNames child.children
    else
      match childOf .propertyAccess child.children with
      | none => ([],[])
      | some access => assignedNames access.children

def deletedNames (children : List CypherTree) : List Bytes :=
  children.flatMap fun child =>
    match child.label with
    | .identifier => [child.text]
    | .deleteList =>
      (child.children.filter fun grandchild => grandchild.label == .identifier).map Tree.text
    | _ => []

/-! What a node does to the stacks. -/

namespace ParserState

def push (expression : Expression) (state : ParserState) : ParserState :=
  {state with expressionStack := expression :: state.expressionStack}

def buildComparison (op : ComparisonOperator) (state : ParserState) : ParserState :=
  match state.expressionStack with
  | right :: left :: rest => {state with expressionStack := .comparison left op right :: rest}
  | _ => state

/-- Where the library iterates a new key is left open. -/
def addProperty (key : Bytes) (value : PropertyValue) (state : ParserState) : ParserState :=
  if key.isEmpty then state
  else {state with propertyStack :=
    (state.propertyStack.headD ∅).insert key value :: state.propertyStack.tail}

def buildPropertyMap (state : ParserState) : ParserState :=
  if state.propertyStack.isEmpty then {state with propertyStack := [∅]} else state

def addLabel (children : List CypherTree) (state : ParserState) : ParserState :=
  match childOf .identifier children with
  | some name => {state with tempLabels := state.tempLabels ++ [name.text]}
  | none => state

def addEdgeType (children : List CypherTree) (state : ParserState) : ParserState :=
  match childOf .identifier children with
  | some name => {state with tempEdgeTypes := state.tempEdgeTypes ++ [name.text]}
  | none => state

def nodeOf (children : List CypherTree) (state : ParserState) : Node where
  variableName := variableOf children
  labels := state.tempLabels
  properties := state.propertyStack.headD ∅

def buildNode (children : List CypherTree) (state : ParserState) : ParserState :=
  {state with
    nodeStack := state.nodeOf children :: state.nodeStack
    tempLabels := []
    propertyStack := state.propertyStack.tail}

def edgeOf (directed : Bool) (hops : Int32 × Int32) (children : List CypherTree)
    (state : ParserState) : Edge where
  variableName := variableOf children
  types := state.tempEdgeTypes
  properties := state.propertyStack.headD ∅
  directed := directed
  minHops := hops.1
  maxHops := hops.2

def buildEdge (directed : Bool) (hops : Int32 × Int32) (children : List CypherTree)
    (state : ParserState) : ParserState :=
  {state with
    edgeStack := state.edgeOf directed hops children :: state.edgeStack
    tempEdgeTypes := []
    propertyStack := state.propertyStack.tail}

/-- The grammar puts a node on either side of an edge, so the nodes are always enough. -/
def buildPattern (state : ParserState) : ParserState :=
  let nodes := state.nodeStack.reverse
  let edges := state.edgeStack.reverse
  if shape : nodes.isEmpty = true ∨ edges.length < nodes.length then
    {state with
      patternStack := ⟨nodes,edges,shape⟩ :: state.patternStack
      nodeStack := []
      edgeStack := []}
  else state

def buildMatch (state : ParserState) : ParserState :=
  {state with
    query := {state.query with matchClause := some ⟨state.patternStack.reverse⟩}
    patternStack := []}

def buildCreate (state : ParserState) : ParserState :=
  {state with
    query := {state.query with createClause := some ⟨state.patternStack.reverse⟩}
    patternStack := []}

def buildReturnItem (state : ParserState) : ParserState :=
  match state.expressionStack with
  | [] => state
  | expression :: rest => {state with
      expressionStack := rest
      returnStack := (state.returnStack.headD [] ++ [⟨expression,none⟩]) :: state.returnStack.tail}

def buildReturn (state : ParserState) : ParserState :=
  {state with
    query := {state.query with returnClause := some {items := state.returnStack.headD []}}
    returnStack := state.returnStack.tail}

def buildWhere (state : ParserState) : ParserState :=
  match state.expressionStack with
  | [] => state
  | condition :: rest => {state with
      query := {state.query with whereClause := some ⟨condition⟩}
      expressionStack := rest}

def buildOrderBy (children : List CypherTree) (state : ParserState) : ParserState :=
  let direction := match childOf .orderDirection children with
    | some child => if child.text = ascii "DESC" then OrderDirection.desc else .asc
    | none => .asc
  {state with
    query := {state.query with
      orderBy := some ⟨state.expressionStack.reverse.map fun item => ⟨item,direction⟩⟩}
    expressionStack := []}

def buildSet (children : List CypherTree) (state : ParserState) : ParserState :=
  match state.expressionStack with
  | [] => state
  | value :: rest =>
    let names := setNames children
    let query := if names.1.isEmpty || names.2.isEmpty then state.query
      else {state.query with setClause := some ⟨names.1,names.2,value⟩}
    {state with query := query, expressionStack := rest}

def buildDelete (children : List CypherTree) (state : ParserState) : ParserState :=
  let names := deletedNames children
  if names.isEmpty then state
  else {state with query := {state.query with
    deleteClause := some ⟨names,(childOf .detachKeyword children).isSome⟩}}

def buildLimit (count : Int64) (state : ParserState) : ParserState :=
  {state with query := {state.query with limitClause := some ⟨count⟩}}

end ParserState

open ParserState in
def buildNodeOf (conversions : Conversions) (rule : Rule) (text : Bytes) (children : List CypherTree)
    (state : ParserState) : Except String ParserState :=
  match rule with
  | .identifier => .ok (state.push (.identifier text))
  | .stringValue => .ok (state.push (.literal (.string (unquoted text))))
  | .number => (numberValue conversions text).map fun value => state.push (.literal value)
  | .boolean => .ok (state.push (.literal (booleanValue text)))
  | .propertyAccessExpression =>
    let names := accessNames children
    .ok (if names.1.isEmpty || names.2.isEmpty then state
      else state.push (.propertyAccess names.1 names.2))
  | .comparisonExpression => .ok (state.buildComparison (comparisonOperator children))
  | .propertyPair => (pairOf conversions children).map fun pair => state.addProperty pair.1 pair.2
  | .propertyMap => .ok state.buildPropertyMap
  | .label => .ok (state.addLabel children)
  | .edgeType => .ok (state.addEdgeType children)
  | .nodePattern => .ok (state.buildNode children)
  | .directedEdge =>
    (hopsOf conversions text children).map fun hops => state.buildEdge true hops children
  | .undirectedEdge | .simpleUndirectedEdge =>
    (hopsOf conversions text children).map fun hops => state.buildEdge false hops children
  | .pattern => .ok state.buildPattern
  | .matchClause => .ok state.buildMatch
  | .createClause => .ok state.buildCreate
  | .returnItem => .ok state.buildReturnItem
  | .returnClause => .ok state.buildReturn
  | .whereClause => .ok state.buildWhere
  | .limitClause =>
    match childOf .integer children with
    | some child => (conversions.stoll child.text).map fun count => state.buildLimit count
    | none => .ok state
  | .orderByClause => .ok (state.buildOrderBy children)
  | .setClause => .ok (state.buildSet children)
  | .deleteClause => .ok (state.buildDelete children)
  | _ => .ok state

def buildAstFromTree (conversions : Conversions) : CypherTree → ParserState → Except String ParserState :=
  Tree.visit (buildNodeOf conversions)

namespace CypherParser

/-- The root has the node of the query under it, and no rule of its own. -/
def build (conversions : Conversions) (text : Bytes) : Peg.Outcome Rule UInt8 → Except Error Query
  | .thrown => .error ⟨.invalidArgument,"Parse error: " ++ conversions.parseError text⟩
  | .failed => .error ⟨.invalidArgument,"Parse error: invalid syntax"⟩
  | .matched trees _ =>
    match Tree.visitAll (buildNodeOf conversions) trees {} with
    | .error what => .error ⟨.invalidArgument,"Parse error: " ++ what⟩
    | .ok state =>
      if state.query.isValid then .ok state.query
      else .error ⟨.invalidArgument,"Parser not fully implemented"⟩

def parse (conversions : Conversions) (text : Bytes) : Except Error Query :=
  build conversions text (Peg.parse ranking .query text)

/-- A parse with enough fuel is the parse. -/
theorem parse_of_run (conversions : Conversions) (text : Bytes) (fuel : ℕ) (query : Query)
    (ran : ((Peg.run body fuel (.rule .query) text).bind fun outcome =>
      (build conversions text outcome).toOption) = some query) :
    parse conversions text = .ok query := by
  obtain ⟨outcome,run,built⟩ := Option.bind_eq_some_iff.mp ran
  rw [parse,Peg.parse_eq ranking .query text fuel outcome run]
  cases h : build conversions text outcome with
  | error e => simp [h,Except.toOption] at built
  | ok found => simpa [h,Except.toOption] using built

end CypherParser

end LoreDB.Query.Cypher
