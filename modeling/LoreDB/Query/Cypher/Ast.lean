import LoreDB.Storage.Record
import Mathlib.Data.List.AList

/-! The syntax trees of Cypher queries. A text is the sequence of its bytes. A map of properties
lists its entries in the order in which the library iterates them. -/
namespace LoreDB.Query.Cypher
open LoreDB.Storage

inductive PropertyValue where
  | string (text : Bytes)
  | integer (value : Int64)
  | float (bits : UInt64)
  | boolean (value : Bool)
  deriving DecidableEq, Repr

abbrev PropertyMap := AList fun _ : Bytes => PropertyValue

inductive ComparisonOperator where
  | equal | notEqual | lessThan | lessEqual | greaterThan | greaterEqual
  deriving DecidableEq, Repr

inductive Expression where
  | literal (value : PropertyValue)
  | propertyAccess (entity property : Bytes)
  | identifier (name : Bytes)
  | comparison (left : Expression) (op : ComparisonOperator) (right : Expression)
  | logicalAnd (left right : Expression)
  | logicalOr (left right : Expression)
  | logicalNot (operand : Expression)
  deriving DecidableEq, Repr

structure Node where
  variableName : Option Bytes := none
  labels : List Bytes := []
  properties : PropertyMap := ∅
  deriving DecidableEq

structure Edge where
  variableName : Option Bytes := none
  types : List Bytes := []
  properties : PropertyMap := ∅
  directed : Bool := true
  minHops : Int32 := 1
  maxHops : Int32 := 1
  deriving DecidableEq

/-- An edge stands between two nodes; a pattern without nodes is never looked at. -/
structure Pattern where
  nodes : List Node := []
  edges : List Edge := []
  shape : nodes.isEmpty = true ∨ edges.length < nodes.length := by decide
  deriving DecidableEq

structure MatchClause where
  patterns : List Pattern := []
  deriving DecidableEq

structure WhereClause where
  condition : Expression
  deriving DecidableEq, Repr

structure ReturnItem where
  expression : Expression
  aliasName : Option Bytes := none
  deriving DecidableEq, Repr

structure ReturnClause where
  items : List ReturnItem := []
  distinct : Bool := false
  deriving DecidableEq, Repr

structure CreateClause where
  patterns : List Pattern := []
  deriving DecidableEq

structure SetClause where
  variableName : Bytes
  property : Bytes
  value : Expression
  deriving DecidableEq, Repr

structure DeleteClause where
  variableNames : List Bytes := []
  detach : Bool := false
  deriving DecidableEq, Repr

structure LimitClause where
  count : Int64
  deriving DecidableEq, Repr

inductive OrderDirection where
  | asc | desc
  deriving DecidableEq, Repr

structure OrderByItem where
  expression : Expression
  direction : OrderDirection := .asc
  deriving DecidableEq, Repr

structure OrderByClause where
  items : List OrderByItem := []
  deriving DecidableEq, Repr

set_option linter.dupNamespace false in
structure Query where
  matchClause : Option MatchClause := none
  whereClause : Option WhereClause := none
  returnClause : Option ReturnClause := none
  createClause : Option CreateClause := none
  setClause : Option SetClause := none
  deleteClause : Option DeleteClause := none
  limitClause : Option LimitClause := none
  orderBy : Option OrderByClause := none
  deriving DecidableEq

set_option linter.dupNamespace false in
def Query.isReadQuery (query : Query) : Bool :=
  query.matchClause.isSome && query.returnClause.isSome && !query.createClause.isSome &&
    !query.setClause.isSome && !query.deleteClause.isSome

end LoreDB.Query.Cypher
