import LoreDB.Query.Cypher.PatternMatching
import LoreDB.Storage.RecordPages

/-! The clauses of a query. Reading clauses are functions of what the query sees; writing ones take
the store from row to row and stop at the first row that fails, with the earlier rows written. -/
namespace LoreDB.Query.Cypher
open LoreDB.Storage LoreDB.Transaction

/-- What the clauses use of the C++ library: `std::sort`, and the text of `std::length_error`. -/
structure StandardLibrary where
  sort : (List Bytes → List Bytes → Bool) → List (List Bytes) → List (List Bytes)
  lengthError : String

def applyWhere (clause : WhereClause) (view : View) : ResultSet → Except Error ResultSet
  | [] => .ok []
  | row::rows =>
    match evaluateBooleanExpression row.bindings view clause.condition with
    | .error e => .error e
    | .ok holds => (applyWhere clause view rows).map fun kept => if holds then row::kept else kept

def accessName (entity property : Bytes) : Bytes := entity ++ ascii "." ++ property

def columnName (index : Nat) (item : ReturnItem) : Bytes :=
  match item.aliasName with
  | some name => name
  | none =>
    match item.expression with
    | .propertyAccess entity property => accessName entity property
    | .identifier name => name
    | _ => ascii "column_" ++ toText index

def executeReturn (clause : ReturnClause) (rows : ResultSet) (view : View) : Except Error QueryResult :=
  (rows.mapM fun row => clause.items.mapM fun item =>
    (evaluateExpression row.bindings view item.expression).map propertyValueToString).map fun rows =>
      {columns := clause.items.mapIdx columnName, rows := rows}

def orderColumn : Expression → Bytes
  | .propertyAccess entity property => accessName entity property
  | .identifier name => name
  | _ => []

/-- The comparison that the rows are sorted by. Items without a column of that name are skipped. -/
def precedes (columns : List Bytes) : List OrderByItem → List Bytes → List Bytes → Bool
  | [], _, _ => false
  | item::items, first, second =>
    match columns.idxOf? (orderColumn item.expression) with
    | none => precedes columns items first second
    | some index =>
      match first[index]?, second[index]? with
      | some left, some right =>
        if left = right then precedes columns items first second
        else match item.direction with
          | .asc => left < right
          | .desc => right < left
      | _, _ => precedes columns items first second

def applyOrderBy (library : StandardLibrary) (result : QueryResult) (clause : OrderByClause) :
    QueryResult :=
  if clause.items.isEmpty then result
  else {result with rows := library.sort (precedes result.columns clause.items) result.rows}

/-- A negative count asks for more rows than a vector can have. -/
def applyLimit (library : StandardLibrary) (result : QueryResult) (clause : LimitClause) :
    Outcome QueryResult :=
  if clause.count.toInt < result.rows.length then
    if clause.count.toInt < 0 then .thrown library.lengthError
    else .value {result with rows := result.rows.take clause.count.toInt.toNat}
  else .value result

/-- The result of a writing clause is one row of numbers. -/
def counted (columns : List String) (counts : List Nat) : QueryResult where
  columns := columns.map ascii
  rows := [counts.map toText]

abbrev Graph := GraphStore FilePageStore

/-- The loop of a writing clause, with its counters. It is left with the first item that fails. -/
def forEach {α β : Type} (step : α → β → Graph → Outcome β × Graph) :
    List α → β → Graph → Outcome β × Graph
  | [], total, store => (.value total,store)
  | item::rest, total, store =>
    match step item total store with
    | (.value total,store) => forEach step rest total store
    | (.error e,store) => (.error e,store)
    | (.thrown what,store) => (.thrown what,store)
    | (.endless,store) => (.endless,store)

/-- How a call on the store continues the loop: with `done` if it succeeds. -/
def continued {α β : Type} (done : β) (returned : Option (Except Error α) × Graph) :
    Outcome β × Graph :=
  match returned with
  | (none,store) => (.endless,store)
  | (some (.error e),store) => (.error e,store)
  | (some (.ok _),store) => (.value done,store)

def createNodeFromPattern (node : Node) (txId : Nat) (store : Graph) :
    Option (Except Error NodeId) × Graph :=
  ExecutionContext.createNode txId
    (node.properties.entries.map fun entry => ⟨entry.1,toStorage entry.2⟩) store

def createNodes (txId : Nat) : List Node → Nat → Graph → Outcome Nat × Graph :=
  forEach fun node created store => continued (created + 1) (createNodeFromPattern node txId store)

/-- Edges of the pattern are counted, but not created. -/
def executeCreate (clause : CreateClause) (txId : Nat) (store : Graph) : Outcome QueryResult × Graph :=
  let edges := clause.patterns.flatMap Pattern.edges
  let (outcome,store) := createNodes txId (clause.patterns.flatMap Pattern.nodes) 0 store
  (outcome.map fun created => counted ["created_nodes","created_edges"] [created,edges.length],store)

/-- Replaces the first value under the key, or appends one. -/
def setProperty (key : Bytes) (value : PropertyValue) : List Property → List Property
  | [] => [⟨key,toStorage value⟩]
  | prop::rest =>
    if prop.key = key then ⟨key,toStorage value⟩::rest else prop::setProperty key value rest

def setRow (clause : SetClause) (txId : Nat) (row : ResultRow) (updated : Nat) (store : Graph) :
    Outcome Nat × Graph :=
  match row.bindings clause.variableName with
  | some (.node nodeId) =>
    match evaluateExpression row.bindings (ExecutionContext.view txId store) clause.value with
    | .error e => (.error e,store)
    | .ok value =>
      match (ExecutionContext.view txId store).node nodeId with
      | none => (.value updated,store)
      | some (_,properties) =>
        continued (updated + 1) (ExecutionContext.updateNode txId nodeId
          (setProperty clause.property value properties) store)
  | _ => (.value updated,store)

def executeSet (clause : SetClause) (rows : ResultSet) (txId : Nat) (store : Graph) :
    Outcome QueryResult × Graph :=
  let (outcome,store) := forEach (setRow clause txId) rows 0 store
  (outcome.map fun updated => counted ["updated_nodes"] [updated],store)

/-- A call that fails is not counted, and that is all. -/
def counts {α β : Type} (failed done : β) (returned : Option (Except Error α) × Graph) :
    Outcome β × Graph :=
  match returned with
  | (none,store) => (.endless,store)
  | (some (.error _),store) => (.value failed,store)
  | (some (.ok _),store) => (.value done,store)

def deleteBound (txId : Nat) (bound : VariableBinding) (deleted : Nat × Nat) (store : Graph) :
    Outcome (Nat × Nat) × Graph :=
  match bound with
  | .node nodeId =>
    counts deleted (deleted.1 + 1,deleted.2) (ExecutionContext.deleteNode txId nodeId store)
  | .edge edgeId =>
    counts deleted (deleted.1,deleted.2 + 1) (ExecutionContext.deleteEdge txId edgeId store)
  | .literal _ => (.value deleted,store)

def executeDelete (clause : DeleteClause) (rows : ResultSet) (txId : Nat) (store : Graph) :
    Outcome QueryResult × Graph :=
  let bound := rows.flatMap fun row => clause.variableNames.filterMap row.bindings
  let (outcome,store) := forEach (deleteBound txId) bound (0,0) store
  (outcome.map fun deleted => counted ["deleted_nodes","deleted_edges"] [deleted.1,deleted.2],store)

end LoreDB.Query.Cypher
