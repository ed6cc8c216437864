import LoreDB.Query.Cypher.Ast
import LoreDB.Storage.FilePageStore
import LoreDB.Storage.GraphStore

/-! Query results, variable bindings, and what a query sees of the graph. Reading changes nothing in
a graph store over a file page store, so the reads of a query are functions of the store's state. -/
namespace LoreDB.Query
open LoreDB.Storage Cypher

structure QueryResult where
  columns : List Bytes := []
  rows : List (List Bytes) := []
  deriving DecidableEq, Repr

inductive VariableBinding where
  | node (id : NodeId)
  | edge (id : EdgeId)
  | literal (value : Cypher.PropertyValue)
  deriving DecidableEq, Repr

abbrev VariableMap := Bytes → Option VariableBinding

structure ResultRow where
  bindings : VariableMap := fun _ => none

namespace ResultRow

def bind (name : Bytes) (binding : VariableBinding) (row : ResultRow) : ResultRow where
  bindings := Function.update row.bindings name (some binding)

/-- Patterns need not name their nodes and edges. -/
def bindNamed (name : Option Bytes) (binding : VariableBinding) (row : ResultRow) : ResultRow :=
  match name with
  | some name => row.bind name binding
  | none => row

end ResultRow

abbrev ResultSet := List ResultRow

/-- The ways in which a clause ends. A call that waits for another transaction's lock, or a scan
whose counter never passes its bound, does not come back. -/
inductive Outcome (α : Type) where
  | value (result : α)
  | error (e : Error)
  | thrown (what : String)
  | endless
  deriving DecidableEq, Repr

namespace Outcome

variable {α β : Type}

def bind (outcome : Outcome α) (next : α → Outcome β) : Outcome β :=
  match outcome with
  | .value result => next result
  | .error e => .error e
  | .thrown what => .thrown what
  | .endless => .endless

def map (f : α → β) (outcome : Outcome α) : Outcome β := outcome.bind fun result => .value (f result)

def ofExcept : Except Error α → Outcome α
  | .ok result => .value result
  | .error e => .error e

end Outcome

/-- Of a record that cannot be read a query learns only that. -/
structure View where
  node : NodeId → Option (NodeRecord × List Property)
  edge : EdgeId → Option (EdgeRecord × List Property)
  outgoingEdges : NodeId → List EdgeId
  incomingEdges : NodeId → List EdgeId
  nodeCount : UInt64

namespace ExecutionContext
open GraphStore

variable {α : Type}

def hasMvcc (store : GraphStore FilePageStore) : Bool := store.mvccManager.isSome

def getNode (txId : Nat) (nodeId : NodeId) (store : GraphStore FilePageStore) :
    Except Error (NodeRecord × List Property) :=
  (if hasMvcc store then getNodeTx txId nodeId store else GraphStore.getNode nodeId store).1

def getEdge (txId : Nat) (edgeId : EdgeId) (store : GraphStore FilePageStore) :
    Except Error (EdgeRecord × List Property) :=
  (if hasMvcc store then getEdgeTx txId edgeId store else GraphStore.getEdge edgeId store).1

def view (txId : Nat) (store : GraphStore FilePageStore) : View where
  node nodeId := (getNode txId nodeId store).toOption
  edge edgeId := (getEdge txId edgeId store).toOption
  outgoingEdges nodeId := store.getOutgoingEdges nodeId
  incomingEdges nodeId := store.getIncomingEdges nodeId
  nodeCount := store.nodeCount

/-- The calls that write take the transaction where the store keeps versions. -/
def choose (transactional : Option (Except Error α) × GraphStore FilePageStore)
    (plain : Except Error α × GraphStore FilePageStore) (store : GraphStore FilePageStore) :
    Option (Except Error α) × GraphStore FilePageStore :=
  if hasMvcc store then transactional else (some plain.1,plain.2)

def createNode (txId : Nat) (properties : List Property) (store : GraphStore FilePageStore) :
    Option (Except Error NodeId) × GraphStore FilePageStore :=
  choose (createNodeTx txId properties store) (GraphStore.createNode properties store) store

def updateNode (txId : Nat) (nodeId : NodeId) (properties : List Property)
    (store : GraphStore FilePageStore) : Option (Except Error Unit) × GraphStore FilePageStore :=
  choose (updateNodeTx txId nodeId properties store) (GraphStore.updateNode nodeId properties store) store

def deleteNode (txId : Nat) (nodeId : NodeId) (store : GraphStore FilePageStore) :
    Option (Except Error Unit) × GraphStore FilePageStore :=
  choose (deleteNodeTx txId nodeId store) (GraphStore.deleteNode nodeId store) store

def deleteEdge (txId : Nat) (edgeId : EdgeId) (store : GraphStore FilePageStore) :
    Option (Except Error Unit) × GraphStore FilePageStore :=
  choose (deleteEdgeTx txId edgeId store) (GraphStore.deleteEdge edgeId store) store

end ExecutionContext

end LoreDB.Query
