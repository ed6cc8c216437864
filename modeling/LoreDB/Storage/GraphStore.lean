import LoreDB.Storage.WalManager
import LoreDB.Transaction.MvccManager

/-! The graph store over a page store, with an optional version store and log. Operations
with a transaction id run the plain ones on the pages first and then write a version. -/
namespace LoreDB.Storage
open LoreDB.Transaction

/-- A node without an entry in an adjacency map has no edges there. -/
structure GraphStore (σ : Type) where
  pageStore : σ
  nextNodeId : NodeId := 1
  nextEdgeId : EdgeId := 1
  nodePageIndex : NodeId → Option PageId := fun _ => none
  edgePageIndex : EdgeId → Option PageId := fun _ => none
  outgoingEdges : NodeId → List EdgeId := fun _ => []
  incomingEdges : NodeId → List EdgeId := fun _ => []
  nodeCount : UInt64 := 0
  edgeCount : UInt64 := 0
  mvccManager : Option MVCCManager := none
  walManager : Option WALManager := none

namespace GraphStore

variable {σ : Type} [PageStore σ]

/-- The page of one record. What does not fit would be copied beyond the page buffer and
is not part of the page. -/
def pageImage (page : PageId) (type : PageType) (serialized : Bytes) : Bytes :=
  let header : PageHeader := {
    pageId := UInt64.ofNat page
    pageType := UInt32.ofNat type.code
    recordCount := 1
    nextFreeOffset := UInt32.ofNat (48 + serialized.length)}
  (header.bytes ++ serialized ++ List.replicate pageSize 0).take pageSize

/-- Writes a record to a page of its own. -/
def storeRecord (type : PageType) (serialized : Bytes) (store : GraphStore σ) :
    Except Error PageId × GraphStore σ :=
  match PageStore.allocatePage store.pageStore with
  | (.error e,pages) => (.error e,{store with pageStore := pages})
  | (.ok page,pages) =>
    match PageStore.writePage page (pageImage page type serialized) pages with
    | (.error e,pages) => (.error e,{store with pageStore := pages})
    | (.ok (),pages) => (.ok page,{store with pageStore := pages})

def storeNodeRecord (nodeId : NodeId) (node : NodeRecord) (properties : List Property)
    (store : GraphStore σ) : Except Error Unit × GraphStore σ :=
  match storeRecord .node (RecordSerializer.serializeNode node properties) store with
  | (.error e,store) => (.error e,store)
  | (.ok page,store) =>
    (.ok (),{store with nodePageIndex := Function.update store.nodePageIndex nodeId (some page)})

def storeEdgeRecord (edgeId : EdgeId) (edge : EdgeRecord) (properties : List Property)
    (store : GraphStore σ) : Except Error Unit × GraphStore σ :=
  match storeRecord .edge (RecordSerializer.serializeEdge edge properties) store with
  | (.error e,store) => (.error e,store)
  | (.ok page,store) =>
    (.ok (),{store with edgePageIndex := Function.update store.edgePageIndex edgeId (some page)})

/-- Reads the record on the page that the index names. -/
def getRecord {ρ : Type} (entry : Option PageId) (type : PageType) (missing wrongType : String)
    (deserialize : Bytes → Except Error ρ) (store : GraphStore σ) : Except Error ρ × GraphStore σ :=
  match entry with
  | none => (.error ⟨.notFound,missing⟩,store)
  | some page =>
    match PageStore.readPage page store.pageStore with
    | (.error e,pages) => (.error e,{store with pageStore := pages})
    | (.ok data,pages) =>
      (if RecordSerializer.field data 8 4 ≠ type.code then .error ⟨.corruption,wrongType⟩
        else deserialize (data.drop 48),{store with pageStore := pages})

def getNode (nodeId : NodeId) (store : GraphStore σ) :
    Except Error (NodeRecord × List Property) × GraphStore σ :=
  getRecord (store.nodePageIndex nodeId) .node "Node not found" "Invalid page type for node"
    RecordSerializer.deserializeNode store

def getEdge (edgeId : EdgeId) (store : GraphStore σ) :
    Except Error (EdgeRecord × List Property) × GraphStore σ :=
  getRecord (store.edgePageIndex edgeId) .edge "Edge not found" "Invalid page type for edge"
    RecordSerializer.deserializeEdge store

def getOutgoingEdges (nodeId : NodeId) (store : GraphStore σ) : List EdgeId :=
  store.outgoingEdges nodeId

def getIncomingEdges (nodeId : NodeId) (store : GraphStore σ) : List EdgeId :=
  store.incomingEdges nodeId

def updateAdjacencyLists (fromNode toNode : NodeId) (edgeId : EdgeId) (add : Bool)
    (store : GraphStore σ) : GraphStore σ :=
  let edit (edges : List EdgeId) : List EdgeId :=
    if add then edges ++ [edgeId] else edges.filter fun other => other != edgeId
  {store with
    outgoingEdges :=
      Function.update store.outgoingEdges fromNode (edit (store.outgoingEdges fromNode))
    incomingEdges :=
      Function.update store.incomingEdges toNode (edit (store.incomingEdges toNode))}

def createNode (properties : List Property) (store : GraphStore σ) :
    Except Error NodeId × GraphStore σ :=
  let nodeId := store.nextNodeId
  let node : NodeRecord := {id := nodeId, propertyCount := UInt32.ofNat properties.length}
  match storeNodeRecord nodeId node properties {store with nextNodeId := nodeId + 1} with
  | (.error e,store) => (.error e,store)
  | (.ok (),store) => (.ok nodeId,{store with nodeCount := store.nodeCount + 1})

def updateNode (nodeId : NodeId) (properties : List Property) (store : GraphStore σ) :
    Except Error Unit × GraphStore σ :=
  match getNode nodeId store with
  | (.error e,store) => (.error e,store)
  | (.ok (node,_),store) =>
    storeNodeRecord nodeId {node with propertyCount := UInt32.ofNat properties.length} properties store

def deleteNode (nodeId : NodeId) (store : GraphStore σ) : Except Error Unit × GraphStore σ :=
  if store.getOutgoingEdges nodeId ≠ [] then
    (.error ⟨.invalidArgument,"Cannot delete node with outgoing edges"⟩,store)
  else if store.getIncomingEdges nodeId ≠ [] then
    (.error ⟨.invalidArgument,"Cannot delete node with incoming edges"⟩,store)
  else
    (.ok (),{store with
      nodePageIndex := Function.update store.nodePageIndex nodeId none
      outgoingEdges := Function.update store.outgoingEdges nodeId []
      incomingEdges := Function.update store.incomingEdges nodeId []
      nodeCount := store.nodeCount - 1})

/-- `hash` is the standard library's string hash and `clock` the time of the call. -/
def createEdge (hash : Bytes → UInt64) (clock : UInt64) (fromNode toNode : NodeId) (label : Bytes)
    (properties : List Property) (store : GraphStore σ) : Except Error EdgeId × GraphStore σ :=
  let edgeId := store.nextEdgeId
  let edge : EdgeRecord := {
    id := edgeId
    fromNode := fromNode
    toNode := toNode
    labelId := (hash label).toUInt32
    propertyCount := UInt32.ofNat properties.length
    timestamp := clock}
  match storeEdgeRecord edgeId edge properties {store with nextEdgeId := edgeId + 1} with
  | (.error e,store) => (.error e,store)
  | (.ok (),store) =>
    let store := updateAdjacencyLists fromNode toNode edgeId true store
    (.ok edgeId,{store with edgeCount := store.edgeCount + 1})

def updateEdge (edgeId : EdgeId) (properties : List Property) (store : GraphStore σ) :
    Except Error Unit × GraphStore σ :=
  match getEdge edgeId store with
  | (.error e,store) => (.error e,store)
  | (.ok (edge,_),store) =>
    storeEdgeRecord edgeId {edge with propertyCount := UInt32.ofNat properties.length} properties store

def deleteEdge (edgeId : EdgeId) (store : GraphStore σ) : Except Error Unit × GraphStore σ :=
  match getEdge edgeId store with
  | (.error e,store) => (.error e,store)
  | (.ok (edge,_),store) =>
    let store := updateAdjacencyLists edge.fromNode edge.toNode edgeId false store
    (.ok (),{store with
      edgePageIndex := Function.update store.edgePageIndex edgeId none
      edgeCount := store.edgeCount - 1})

/-- Reads the newest visible version under the id; a version of the other kind sends the
reader to the pages. -/
def getVersioned {ρ : Type} (pick : VersionData → Option ρ) (missing : String)
    (plain : GraphStore σ → Except Error (ρ × List Property) × GraphStore σ)
    (txId : Nat) (id : UInt64) (store : GraphStore σ) :
    Except Error (ρ × List Property) × GraphStore σ :=
  match store.mvccManager with
  | none => plain store
  | some mvcc =>
    match mvcc.readVersion id txId with
    | .ok ver =>
      match pick ver.data with
      | some record => (.ok (record,ver.properties),store)
      | none => plain store
    | .error e =>
      if e.code = .notFound then (.error ⟨.notFound,missing⟩,store) else plain store

def asNode : VersionData → Option NodeRecord
  | .node record => some record
  | .edge _ => none

def asEdge : VersionData → Option EdgeRecord
  | .edge record => some record
  | .node _ => none

def getNodeTx (txId : Nat) (nodeId : NodeId) (store : GraphStore σ) :
    Except Error (NodeRecord × List Property) × GraphStore σ :=
  getVersioned asNode "Node not visible" (getNode nodeId) txId nodeId store

def getEdgeTx (txId : Nat) (edgeId : EdgeId) (store : GraphStore σ) :
    Except Error (EdgeRecord × List Property) × GraphStore σ :=
  getVersioned asEdge "Edge not visible" (getEdge edgeId) txId edgeId store

/-- The text line of an operation in the log. -/
def operationText (op : String) (id : UInt64) : Bytes :=
  ("\x7b\"op\":\"" ++ op ++ "\",\"id\":" ++ toString id.toNat ++ "\x7d").toUTF8.data.toList

def logOperation (op : String) (id : UInt64) (store : GraphStore σ) : GraphStore σ :=
  {store with walManager := store.walManager.map fun wal => (wal.logOperation (operationText op id)).2}

/-- Writes a version where versions are kept. `none` while the call waits for the lock. -/
def writeVersion (key : UInt64) (version : Version) (store : GraphStore σ) :
    Option (Except MVCCError Unit) × GraphStore σ :=
  match store.mvccManager with
  | none => (some (.ok ()),store)
  | some mvcc =>
    match mvcc.writeVersion key version with
    | none => (none,store)
    | some (result,mvcc) => (some result,{store with mvccManager := some mvcc})

/-- The node operations report a refused version, the edge operations do not. -/
def versioned {α : Type} (result : α) (refused : Option String) (op : String) (key : UInt64)
    (version : Version) (store : GraphStore σ) : Option (Except Error α) × GraphStore σ :=
  match store.writeVersion key version with
  | (none,store) => (none,store)
  | (some (.error _),store) =>
    match refused with
    | some message => (some (.error ⟨.corruption,message⟩),store)
    | none => (some (.ok result),store.logOperation op key)
  | (some (.ok ()),store) => (some (.ok result),store.logOperation op key)

def createNodeTx (txId : Nat) (properties : List Property) (store : GraphStore σ) :
    Option (Except Error NodeId) × GraphStore σ :=
  match createNode properties store with
  | (.error e,store) => (some (.error e),store)
  | (.ok nodeId,store) =>
    -- without versions this operation is not logged either
    if store.mvccManager.isNone then (some (.ok nodeId),store)
    else
      versioned nodeId (some "MVCC write failed") "create_node" nodeId {
        createdTxId := txId
        data := .node {id := nodeId, propertyCount := UInt32.ofNat properties.length}
        properties := properties} store

def updateNodeTx (txId : Nat) (nodeId : NodeId) (properties : List Property) (store : GraphStore σ) :
    Option (Except Error Unit) × GraphStore σ :=
  match updateNode nodeId properties store with
  | (.error e,store) => (some (.error e),store)
  | (.ok (),store) =>
    versioned () (some "MVCC write failed") "update_node" nodeId {
      createdTxId := txId
      data := .node {id := nodeId, propertyCount := UInt32.ofNat properties.length}
      properties := properties} store

/-- With versions a deletion is a tombstone only; the node stays on its page. -/
def deleteNodeTx (txId : Nat) (nodeId : NodeId) (store : GraphStore σ) :
    Option (Except Error Unit) × GraphStore σ :=
  match getNode nodeId store with
  | (.error e,store) => (some (.error e),store)
  | (.ok _,store) =>
    if store.mvccManager.isSome then
      versioned () (some "Failed to write tombstone version") "delete_node" nodeId {
        createdTxId := txId
        deletedTxId := txId
        data := .node {id := nodeId}} store
    else
      match deleteNode nodeId store with
      | (.error e,store) => (some (.error e),store)
      | (.ok (),store) => (some (.ok ()),store.logOperation "delete_node" nodeId)

def createEdgeTx (hash : Bytes → UInt64) (clock : UInt64) (txId : Nat) (fromNode toNode : NodeId)
    (label : Bytes) (properties : List Property) (store : GraphStore σ) :
    Option (Except Error EdgeId) × GraphStore σ :=
  match createEdge hash clock fromNode toNode label properties store with
  | (.error e,store) => (some (.error e),store)
  | (.ok edgeId,store) =>
    versioned edgeId none "create_edge" edgeId {
      createdTxId := txId
      data := .edge {
        id := edgeId
        fromNode := fromNode
        toNode := toNode
        labelId := (hash label).toUInt32
        propertyCount := UInt32.ofNat properties.length}
      properties := properties} store

def updateEdgeTx (txId : Nat) (edgeId : EdgeId) (properties : List Property) (store : GraphStore σ) :
    Option (Except Error Unit) × GraphStore σ :=
  match updateEdge edgeId properties store with
  | (.error e,store) => (some (.error e),store)
  | (.ok (),store) =>
    versioned () none "update_edge" edgeId {
      createdTxId := txId
      data := .edge {id := edgeId, propertyCount := UInt32.ofNat properties.length}
      properties := properties} store

def deleteEdgeTx (txId : Nat) (edgeId : EdgeId) (store : GraphStore σ) :
    Option (Except Error Unit) × GraphStore σ :=
  match deleteEdge edgeId store with
  | (.error e,store) => (some (.error e),store)
  | (.ok (),store) =>
    versioned () none "delete_edge" edgeId {
      createdTxId := txId
      deletedTxId := txId
      data := .edge {id := edgeId}} store

end GraphStore

end LoreDB.Storage
