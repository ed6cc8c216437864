import LoreDB.Storage.GraphStore
import LoreDB.Transaction.MvccHistory

/-! Histories of calls on a graph store that keeps versions. As in the version store, a
call is one step. Node and edge operations go through one description of what they do:
they touch the pages and lists of one record and then write one version under its id. -/
namespace LoreDB.Storage.GraphHistory
open LoreDB.Transaction LoreDB.Library LoreDB.Library.History GraphStore

inductive Kind where
  | node | edge
  deriving DecidableEq, Repr

namespace Kind

def other : Kind → Kind
  | .node => .edge
  | .edge => .node

def Record : Kind → Type
  | .node => NodeRecord
  | .edge => EdgeRecord

instance : (kind : Kind) → DecidableEq kind.Record
  | .node => inferInstanceAs (DecidableEq NodeRecord)
  | .edge => inferInstanceAs (DecidableEq EdgeRecord)

def pick : (kind : Kind) → VersionData → Option kind.Record
  | .node => asNode
  | .edge => asEdge

def missing : Kind → String
  | .node => "Node not visible"
  | .edge => "Edge not visible"

end Kind

inductive Operation where
  | createNode (properties : List Property)
  | updateNode (nodeId : NodeId) (properties : List Property)
  | deleteNode (nodeId : NodeId)
  | createEdge (clock : UInt64) (fromNode toNode : NodeId) (label : Bytes)
      (properties : List Property)
  | updateEdge (edgeId : EdgeId) (properties : List Property)
  | deleteEdge (edgeId : EdgeId)
  deriving DecidableEq, Repr

def Operation.kind : Operation → Kind
  | .createNode _ | .updateNode _ _ | .deleteNode _ => .node
  | .createEdge _ _ _ _ _ | .updateEdge _ _ | .deleteEdge _ => .edge

inductive Call where
  | begin
  | commit (txId : Nat)
  | abort (txId : Nat)
  | collect (minActiveTxId : Nat)
  | perform (txId : Nat) (operation : Operation)
  | plain (operation : Operation)
  | get (kind : Kind) (id : UInt64)
  | getTx (kind : Kind) (txId : Nat) (id : UInt64)
  deriving DecidableEq, Repr

section Model

variable {σ : Type}

/-- The version store of a graph store that keeps one. -/
def mvcc (store : GraphStore σ) : MVCCManager := store.mvccManager.getD {}

/-- The id an operation is about; a creation takes the next one. -/
def Operation.key (store : GraphStore σ) : Operation → UInt64
  | .createNode _ => store.nextNodeId
  | .createEdge _ _ _ _ _ => store.nextEdgeId
  | .updateNode id _ | .deleteNode id | .updateEdge id _ | .deleteEdge id => id

/-- The version that a transactional operation writes under its id. -/
def Operation.version (hash : Bytes → UInt64) (txId : Nat) (store : GraphStore σ) :
    Operation → Version
  | .createNode properties => {
      createdTxId := txId
      data := .node {id := store.nextNodeId, propertyCount := UInt32.ofNat properties.length}
      properties := properties}
  | .updateNode id properties => {
      createdTxId := txId
      data := .node {id := id, propertyCount := UInt32.ofNat properties.length}
      properties := properties}
  | .deleteNode id => {createdTxId := txId, deletedTxId := txId, data := .node {id := id}}
  | .createEdge _ fromNode toNode label properties => {
      createdTxId := txId
      data := .edge {
        id := store.nextEdgeId
        fromNode := fromNode
        toNode := toNode
        labelId := (hash label).toUInt32
        propertyCount := UInt32.ofNat properties.length}
      properties := properties}
  | .updateEdge id properties => {
      createdTxId := txId
      data := .edge {id := id, propertyCount := UInt32.ofNat properties.length}
      properties := properties}
  | .deleteEdge id => {createdTxId := txId, deletedTxId := txId, data := .edge {id := id}}

def pageIndex (store : GraphStore σ) : Kind → UInt64 → Option PageId
  | .node => store.nodePageIndex
  | .edge => store.edgePageIndex

variable [PageStore σ]

def get : (kind : Kind) → UInt64 → GraphStore σ →
    Except Error (kind.Record × List Property) × GraphStore σ
  | .node => getNode
  | .edge => getEdge

def getTx : (kind : Kind) → Nat → UInt64 → GraphStore σ →
    Except Error (kind.Record × List Property) × GraphStore σ
  | .node => getNodeTx
  | .edge => getEdgeTx

/-- The operations with a transaction id. The id that a creation returns is its key. -/
def perform (hash : Bytes → UInt64) (txId : Nat) (store : GraphStore σ) :
    Operation → Option (Except Error UInt64) × GraphStore σ
  | .createNode properties => createNodeTx txId properties store
  | .updateNode id properties => keyed id (updateNodeTx txId id properties store)
  | .deleteNode id => keyed id (deleteNodeTx txId id store)
  | .createEdge clock fromNode toNode label properties =>
    createEdgeTx hash clock txId fromNode toNode label properties store
  | .updateEdge id properties => keyed id (updateEdgeTx txId id properties store)
  | .deleteEdge id => keyed id (deleteEdgeTx txId id store)
where
  keyed (id : UInt64) (returned : Option (Except Error Unit) × GraphStore σ) :
      Option (Except Error UInt64) × GraphStore σ :=
    (returned.1.map (Except.map fun _ => id),returned.2)

/-- The state after an operation without a transaction id. -/
def plain (hash : Bytes → UInt64) (store : GraphStore σ) : Operation → GraphStore σ
  | .createNode properties => (createNode properties store).2
  | .updateNode id properties => (updateNode id properties store).2
  | .deleteNode id => (deleteNode id store).2
  | .createEdge clock fromNode toNode label properties =>
    (createEdge hash clock fromNode toNode label properties store).2
  | .updateEdge id properties => (updateEdge id properties store).2
  | .deleteEdge id => (deleteEdge id store).2

/-- A call on the version store alone. -/
def manage (call : MvccHistory.Call) (store : GraphStore σ) : GraphStore σ :=
  {store with mvccManager := store.mvccManager.map fun mvcc => MvccHistory.step mvcc call}

def step (hash : Bytes → UInt64) (store : GraphStore σ) : Call → GraphStore σ
  | .begin => manage .begin store
  | .commit txId => manage (.commit txId) store
  | .abort txId => manage (.abort txId) store
  | .collect minActiveTxId => manage (.collect minActiveTxId) store
  | .perform txId operation => (perform hash txId store operation).2
  | .plain operation => plain hash store operation
  | .get kind id => (get kind id store).2
  | .getTx kind txId id => (getTx kind txId id store).2

/-- Calls name issued transactions. -/
def Legal (store : GraphStore σ) : Call → Prop
  | .commit txId | .abort txId | .perform txId _ => (mvcc store).txnManager.Issued txId
  | _ => True

instance (store : GraphStore σ) : (call : Call) → Decidable (Legal store call)
  | .begin | .collect _ | .plain _ | .get _ _ | .getTx _ _ _ => .isTrue trivial
  | .commit _ | .abort _ | .perform _ _ => inferInstanceAs (Decidable (TransactionManager.Issued _ _))

/-- A new graph store over some pages, with versions and perhaps a log. -/
def opened (pages : σ) (wal : Option WALManager) : GraphStore σ :=
  {pageStore := pages, mvccManager := some {}, walManager := wal}

def after (hash : Bytes → UInt64) (start : GraphStore σ) (calls : List Call) : GraphStore σ :=
  run (step hash) start calls

def History (hash : Bytes → UInt64) (start : GraphStore σ) (calls : List Call) : Prop :=
  Guarded (step hash) Legal start calls

theorem after_append (hash : Bytes → UInt64) (start : GraphStore σ) (first second : List Call) :
    after hash start (first ++ second) = after hash (after hash start first) second :=
  run_append ..

theorem after_perform (hash : Bytes → UInt64) (start : GraphStore σ) (calls : List Call) (txId : Nat)
    (operation : Operation) : after hash start (calls ++ [.perform txId operation]) =
      (perform hash txId (after hash start calls) operation).2 := by
  simp [after,step]

instance (hash : Bytes → UInt64) (start : GraphStore σ) (calls : List Call) :
    Decidable (History hash start calls) :=
  decidableGuarded _ _ _ _

end Model

end LoreDB.Storage.GraphHistory
