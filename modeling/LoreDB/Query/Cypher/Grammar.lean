import LoreDB.Library.Peg
import LoreDB.Storage.Record

/-! The grammar of Cypher queries over the bytes of a text. A rule that is another rule under a new
name matches what the other matches and leaves one node, its own. Of the combinators without a name
only those around named rules leave nodes here. -/
namespace LoreDB.Query.Cypher
open LoreDB.Storage LoreDB.Library

inductive Rule where
  | ws | optWs
  | identifier | label | propertyKey
  | stringLiteral | singleQuoteString | stringValue
  | integer | decimal | number
  | trueLiteral | falseLiteral | boolean
  | propertyValue | propertyAccess
  | eqOp | neOp | ltOp | leOp | gtOp | geOp | comparisonOp
  | andOp | orOp | notOp
  | literalExpression | identifierExpression | propertyAccessExpression | primaryExpression
  | comparisonExpression | notExpression | andExpression | orExpression
  | logicalExpression | expression | parenthesizedExpression
  | propertyPair | propertyList | propertyMap
  | nodeLabels | nodePattern
  | edgeType | edgeTypes
  | minHops | maxHops | rangeSpec | variableLengthRange
  | directedEdge | undirectedEdge | simpleUndirectedEdge | edgePattern
  | pattern | patternList
  | matchKeyword | whereKeyword | returnKeyword | createKeyword | setKeyword | deleteKeyword
  | detachKeyword | limitKeyword | orderKeyword | byKeyword | ascKeyword | descKeyword
  | distinctKeyword | asKeyword
  | matchClause | whereClause
  | returnItem | returnList | returnClause
  | createClause
  | setAssignment | setClause
  | deleteList | deleteClause
  | limitClause
  | orderDirection | orderItem | orderList | orderByClause
  | query
  /-- `opt<identifier>` -/
  | optIdentifier
  /-- Every other `opt`, `seq`, `sor` or `star` around named rules. -/
  | unnamed
  deriving DecidableEq, Repr

abbrev CypherTree := Tree Rule UInt8

namespace Grammar
open Peg

abbrev Expr := Peg Rule UInt8

def byte (c : Char) : UInt8 := c.toNat.toUInt8

def one (c : Char) : Expr := .one fun b => b == byte c

def isDigit (b : UInt8) : Bool := byte '0' ≤ b && b ≤ byte '9'

def isLetter (b : UInt8) : Bool :=
  byte 'a' ≤ b && b ≤ byte 'z' || byte 'A' ≤ b && b ≤ byte 'Z' || b == byte '_'

def isIdentifierOther (b : UInt8) : Bool := isLetter b || isDigit b

def isSpace (b : UInt8) : Bool := b == byte ' ' || 9 ≤ b && b ≤ 13

def space : Expr := .one isSpace

def digit : Expr := .one isDigit

def string (text : List Char) : Expr := all (text.map one)

def keyword (text : List Char) : Expr := .seq (string text) (.notAt (.one isIdentifierOther))

def quoted (quote : Char) : Expr := .seq (one quote) (.must (upTo (one quote)))

/-! The combinators that leave nodes of their own. -/

def optional (e : Expr) : Expr := .labelled .unnamed (opt e)

def group (es : List Expr) : Expr := .labelled .unnamed (all es)

def choice (es : List Expr) : Expr := .labelled .unnamed (first es)

def comma : Expr := group [.rule .optWs,one ',',.rule .optWs]

/-! The bodies that several rules share. -/

def identifierBody : Expr := .seq (.one isLetter) (.star (.one isIdentifierOther))

def integerBody : Expr := .seq (opt (one '-')) (plus digit)

def propertyValueBody : Expr := first [.rule .stringValue,.rule .number,.rule .boolean]

def propertyAccessBody : Expr := all [.rule .identifier,one '.',.rule .propertyKey]

def operation (operator : Rule) : Expr :=
  all [.rule .primaryExpression,.rule .optWs,.rule operator,.rule .optWs,.rule .primaryExpression]

def pathPattern : Expr :=
  all [.rule .nodePattern,.labelled .unnamed (.star (group [.rule .edgePattern,.rule .nodePattern]))]

def bracketedEdge (last : Expr) : Expr :=
  all [one '-',one '[',.rule .optWs,.rule .optIdentifier,.rule .optWs,optional (.rule .edgeTypes),
    .rule .optWs,optional (.rule .variableLengthRange),.rule .optWs,optional (.rule .propertyMap),
    .rule .optWs,one ']',last]

def further (clause : Rule) : Expr := optional (group [.rule .ws,.rule clause])

def returning : Expr := group [.rule .ws,.rule .returnClause,further .orderByClause,further .limitClause]

/-- The queries that start with MATCH. -/
def matchQuery : List Expr :=
  [.rule .matchClause,further .whereClause,
    optional (choice [returning,group [.rule .ws,.rule .setClause],group [.rule .ws,.rule .deleteClause]])]

def writeQuery (clause : Rule) : List Expr := [.rule clause,further .returnClause]

def body : Rule → Expr
  | .ws => plus space
  | .optWs => .star space
  | .identifier => identifierBody
  | .label => all [one ':',.rule .identifier]
  | .propertyKey => identifierBody
  | .stringLiteral => quoted '"'
  | .singleQuoteString => quoted '\''
  | .stringValue => first [.rule .stringLiteral,.rule .singleQuoteString]
  | .integer => integerBody
  | .decimal => all [.rule .integer,one '.',plus digit]
  | .number => first [.rule .decimal,.rule .integer]
  | .trueLiteral => string ['t','r','u','e']
  | .falseLiteral => string ['f','a','l','s','e']
  | .boolean => first [.rule .trueLiteral,.rule .falseLiteral]
  | .propertyValue => propertyValueBody
  | .propertyAccess => propertyAccessBody
  | .eqOp => string ['=']
  | .neOp => string ['<','>']
  | .ltOp => string ['<']
  | .leOp => string ['<','=']
  | .gtOp => string ['>']
  | .geOp => string ['>','=']
  | .comparisonOp =>
    first [.rule .leOp,.rule .geOp,.rule .neOp,.rule .eqOp,.rule .ltOp,.rule .gtOp]
  | .andOp => keyword ['A','N','D']
  | .orOp => keyword ['O','R']
  | .notOp => keyword ['N','O','T']
  | .literalExpression => propertyValueBody
  | .identifierExpression => identifierBody
  | .propertyAccessExpression => propertyAccessBody
  | .primaryExpression => first [.rule .parenthesizedExpression,.rule .literalExpression,
      .rule .propertyAccessExpression,.rule .identifierExpression]
  | .comparisonExpression => operation .comparisonOp
  | .notExpression => all [.rule .notOp,.rule .ws,.rule .primaryExpression]
  | .andExpression => operation .andOp
  | .orExpression => operation .orOp
  | .logicalExpression => first [.rule .orExpression,.rule .andExpression,.rule .notExpression]
  | .expression =>
    first [.rule .logicalExpression,.rule .comparisonExpression,.rule .primaryExpression]
  | .parenthesizedExpression =>
    all [one '(',.rule .optWs,.rule .expression,.rule .optWs,one ')']
  | .propertyPair =>
    all [.rule .propertyKey,.rule .optWs,one ':',.rule .optWs,.rule .propertyValue]
  | .propertyList => list (.rule .propertyPair) comma
  | .propertyMap =>
    all [one '{',.rule .optWs,optional (.rule .propertyList),.rule .optWs,one '}']
  | .nodeLabels => .star (.rule .label)
  | .nodePattern => all [one '(',.rule .optWs,.rule .optIdentifier,.rule .optWs,
      optional (.rule .nodeLabels),.rule .optWs,optional (.rule .propertyMap),.rule .optWs,one ')']
  | .edgeType => all [one ':',.rule .identifier]
  | .edgeTypes => .star (.rule .edgeType)
  | .minHops => integerBody
  | .maxHops => integerBody
  | .rangeSpec => first [group [.rule .minHops,string ['.','.'],.rule .maxHops],
      group [.rule .minHops,string ['.','.']],group [string ['.','.'],.rule .maxHops],.rule .minHops]
  | .variableLengthRange => all [one '*',optional (.rule .rangeSpec)]
  | .directedEdge => bracketedEdge (string ['-','>'])
  | .undirectedEdge => bracketedEdge (one '-')
  | .simpleUndirectedEdge => all [one '-',one '-']
  | .edgePattern =>
    first [.rule .directedEdge,.rule .undirectedEdge,.rule .simpleUndirectedEdge]
  | .pattern => pathPattern
  | .patternList => list (.rule .pattern) comma
  | .matchKeyword => keyword ['M','A','T','C','H']
  | .whereKeyword => keyword ['W','H','E','R','E']
  | .returnKeyword => keyword ['R','E','T','U','R','N']
  | .createKeyword => keyword ['C','R','E','A','T','E']
  | .setKeyword => keyword ['S','E','T']
  | .deleteKeyword => keyword ['D','E','L','E','T','E']
  | .detachKeyword => keyword ['D','E','T','A','C','H']
  | .limitKeyword => keyword ['L','I','M','I','T']
  | .orderKeyword => keyword ['O','R','D','E','R']
  | .byKeyword => keyword ['B','Y']
  | .ascKeyword => keyword ['A','S','C']
  | .descKeyword => keyword ['D','E','S','C']
  | .distinctKeyword => keyword ['D','I','S','T','I','N','C','T']
  | .asKeyword => keyword ['A','S']
  | .matchClause => all [.rule .matchKeyword,.rule .ws,.rule .patternList]
  | .whereClause => all [.rule .whereKeyword,.rule .ws,.rule .expression]
  | .returnItem => all [.rule .expression,
      optional (group [.rule .ws,.rule .asKeyword,.rule .ws,.rule .identifier])]
  | .returnList => list (.rule .returnItem) comma
  | .returnClause => all [.rule .returnKeyword,
      optional (group [.rule .ws,.rule .distinctKeyword]),.rule .ws,.rule .returnList]
  | .createClause => all [.rule .createKeyword,.rule .ws,.rule .patternList]
  | .setAssignment =>
    all [.rule .propertyAccess,.rule .optWs,one '=',.rule .optWs,.rule .expression]
  | .setClause => all [.rule .setKeyword,.rule .ws,.rule .setAssignment]
  | .deleteList => list (.rule .identifier) comma
  | .deleteClause => all [optional (group [.rule .detachKeyword,.rule .ws]),.rule .deleteKeyword,
      .rule .ws,.rule .deleteList]
  | .limitClause => all [.rule .limitKeyword,.rule .ws,.rule .integer]
  | .orderDirection => first [.rule .ascKeyword,.rule .descKeyword]
  | .orderItem => all [.rule .expression,optional (group [.rule .ws,.rule .orderDirection])]
  | .orderList => list (.rule .orderItem) comma
  | .orderByClause =>
    all [.rule .orderKeyword,.rule .ws,.rule .byKeyword,.rule .ws,.rule .orderList]
  | .query => all [.rule .optWs,
      choice [group matchQuery,group (writeQuery .createClause),group (writeQuery .setClause),
        group (writeQuery .deleteClause)],
      .rule .optWs,.eof]
  | .optIdentifier => opt (.rule .identifier)
  | .unnamed => .empty

/-! The grammar ends on every text. -/

def consuming : Rule → Bool
  | .optWs | .nodeLabels | .edgeTypes | .optIdentifier | .unnamed => false
  | _ => true

def rank : Rule → ℕ
  | .stringValue | .decimal | .boolean | .comparisonOp | .nodeLabels | .edgeTypes | .propertyAccess
  | .propertyAccessExpression | .notExpression | .propertyPair | .edgePattern | .rangeSpec | .pattern
  | .optIdentifier | .matchClause | .whereClause | .returnClause | .createClause | .setClause
  | .deleteList | .deleteClause | .limitClause | .orderDirection | .orderByClause => 1
  | .number | .propertyList | .patternList | .setAssignment | .query => 2
  | .propertyValue | .literalExpression => 3
  | .primaryExpression => 4
  | .comparisonExpression | .andExpression | .orExpression => 5
  | .logicalExpression => 6
  | .expression => 7
  | .returnItem | .orderItem => 8
  | .returnList | .orderList => 9
  | _ => 0

def ranking : Ranking body where
  consuming := consuming
  rank := rank
  limit := 10
  consumed name := by cases name <;> decide
  below name := by cases name <;> decide
  guarded name := by cases name <;> decide

end Grammar

end LoreDB.Query.Cypher
