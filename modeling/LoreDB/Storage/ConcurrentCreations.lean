import LoreDB.Library.Linearization
import LoreDB.Storage.GraphRefinement
import Mathlib.Algebra.BigOperators.Group.Finset.Basic
import Mathlib.Data.Fintype.Basic

/-! Clients that create nodes and edges at the same time. A call takes its id, its page and the places of its record
in the index and in the lists one after the other, each under a mutex of its own, and other clients go on in between. -/
namespace LoreDB.Storage.ConcurrentCreations
open LoreDB.Library LoreDB.Library.History LoreDB.Library.Linearization GraphStore GraphHistory GraphRefinement
  RecordSerializer FilePageStore

inductive Call where
  | createNode (properties : List Property)
  | createEdge (clock : UInt64) (fromNode toNode : NodeId) (label : Bytes) (properties : List Property)
  deriving DecidableEq, Repr

namespace Call

def operation : Call → Operation
  | .createNode properties => .createNode properties
  | .createEdge clock fromNode toNode label properties => .createEdge clock fromNode toNode label properties

def kind : Call → Kind
  | .createNode _ => .node
  | .createEdge _ _ _ _ _ => .edge

def type : Call → PageType
  | .createNode _ => .node
  | .createEdge _ _ _ _ _ => .edge

/-- The record that a call makes under its id. -/
def record (hash : Bytes → UInt64) (id : UInt64) : (call : Call) → call.kind.Record × List Property
  | .createNode properties => (nodeRecord id properties,properties)
  | .createEdge clock fromNode toNode label properties => (({
      id := id
      fromNode := fromNode
      toNode := toNode
      labelId := (hash label).toUInt32
      propertyCount := UInt32.ofNat properties.length
      timestamp := clock} : EdgeRecord),properties)

def serialized (hash : Bytes → UInt64) (id : UInt64) : Call → Bytes
  | .createNode properties => serializeNode (record hash id (.createNode properties)).1 properties
  | .createEdge clock fromNode toNode label properties =>
    serializeEdge (record hash id (.createEdge clock fromNode toNode label properties)).1 properties

end Call

/-- Where a client's call stands. A node has no lists to be put into. -/
inductive Phase where
  | idle
  | starting (call : Call)
  | numbered (call : Call) (id : UInt64)
  | allocated (call : Call) (id : UInt64) (page : PageId)
  | written (call : Call) (id : UInt64) (page : PageId)
  | indexed (call : Call) (id : UInt64)
  | linked (call : Call) (id : UInt64)
  deriving DecidableEq, Repr

/-- `returned` lists the calls of each client with their results. -/
structure Shared (Client : Type) where
  store : GraphStore FilePageStore
  phase : Client → Phase := fun _ => .idle
  returned : Client → List (Call × Except Error UInt64) := fun _ => []

def nextId (store : GraphStore FilePageStore) : Kind → UInt64
  | .node => store.nextNodeId
  | .edge => store.nextEdgeId

def takeId (store : GraphStore FilePageStore) : Kind → GraphStore FilePageStore
  | .node => {store with nextNodeId := store.nextNodeId + 1}
  | .edge => {store with nextEdgeId := store.nextEdgeId + 1}

def enter (id : UInt64) (page : PageId) (store : GraphStore FilePageStore) : Kind → GraphStore FilePageStore
  | .node => {store with nodePageIndex := Function.update store.nodePageIndex id (some page)}
  | .edge => {store with edgePageIndex := Function.update store.edgePageIndex id (some page)}

def Phase.entered (id : UInt64) : Call → Phase
  | .createNode properties => .linked (.createNode properties) id
  | .createEdge clock fromNode toNode label properties =>
    .indexed (.createEdge clock fromNode toNode label properties) id

def link (id : UInt64) (store : GraphStore FilePageStore) : Call → GraphStore FilePageStore
  | .createNode _ => store
  | .createEdge _ fromNode toNode _ _ => updateAdjacencyLists fromNode toNode id true store

def count (store : GraphStore FilePageStore) : Kind → GraphStore FilePageStore
  | .node => {store with nodeCount := store.nodeCount + 1}
  | .edge => {store with edgeCount := store.edgeCount + 1}

inductive Event (Client : Type) where
  | call (client : Client) (call : Call)
  | advance (client : Client)
  deriving DecidableEq, Repr

section Steps

variable {Client : Type} [DecidableEq Client]

def move (client : Client) (phase : Phase) (store : GraphStore FilePageStore) (shared : Shared Client) :
    Shared Client := {shared with store := store, phase := Function.update shared.phase client phase}

def finish (client : Client) (call : Call) (result : Except Error UInt64) (store : GraphStore FilePageStore)
    (shared : Shared Client) : Shared Client where
  store := store
  phase := Function.update shared.phase client .idle
  returned := Function.update shared.returned client (shared.returned client ++ [(call,result)])

/-- The next step of a call, up to the end of the mutex that it takes. -/
def advance (hash : Bytes → UInt64) (client : Client) (shared : Shared Client) : Shared Client :=
  let store := shared.store
  match shared.phase client with
  | .idle => shared
  | .starting call => move client (.numbered call (nextId store call.kind)) (takeId store call.kind) shared
  | .numbered call id =>
    match allocatePage store.pageStore with
    | (.error e,pages) => finish client call (.error e) {store with pageStore := pages} shared
    | (.ok page,pages) => move client (.allocated call id page) {store with pageStore := pages} shared
  | .allocated call id page =>
    match writePage page (pageImage page call.type (call.serialized hash id)) store.pageStore with
    | (.error e,pages) => finish client call (.error e) {store with pageStore := pages} shared
    | (.ok (),pages) => move client (.written call id page) {store with pageStore := pages} shared
  | .written call id page => move client (.entered id call) (enter id page store call.kind) shared
  | .indexed call id => move client (.linked call id) (link id store call) shared
  | .linked call id => finish client call (.ok id) (count store call.kind) shared

def step (hash : Bytes → UInt64) (shared : Shared Client) : Event Client → Shared Client
  | .call client call =>
    match shared.phase client with
    | .idle => move client (.starting call) shared.store shared
    | _ => shared
  | .advance client => advance hash client shared

omit [DecidableEq Client] in
@[simp] theorem takeId_pages (store : GraphStore FilePageStore) (kind : Kind) :
    (takeId store kind).pageStore = store.pageStore := by
  cases kind <;> rfl

section Moves

variable (client : Client) (phase next : Phase) (store later : GraphStore FilePageStore) (shared : Shared Client)

@[simp] theorem move_phase : (move client phase store shared).phase client = phase := Function.update_self ..

@[simp] theorem move_store : (move client phase store shared).store = store := rfl

@[simp] theorem move_move : move client next later (move client phase store shared) = move client next later shared := by
  simp [move]

@[simp] theorem finish_move (call : Call) (result : Except Error UInt64) :
    finish client call result later (move client phase store shared) = finish client call result later shared := by
  simp [finish,move]

variable (hash : Bytes → UInt64) (call : Call) (id : UInt64) (page : PageId)

@[simp] theorem advance_starting : advance hash client (move client (.starting call) store shared) =
    move client (.numbered call (nextId store call.kind)) (takeId store call.kind) shared := by
  simp [advance]

@[simp] theorem advance_numbered : advance hash client (move client (.numbered call id) store shared) =
    match allocatePage store.pageStore with
    | (.error e,pages) => finish client call (.error e) {store with pageStore := pages} shared
    | (.ok page,pages) => move client (.allocated call id page) {store with pageStore := pages} shared := by
  simp [advance]

@[simp] theorem advance_allocated : advance hash client (move client (.allocated call id page) store shared) =
    match writePage page (pageImage page call.type (call.serialized hash id)) store.pageStore with
    | (.error e,pages) => finish client call (.error e) {store with pageStore := pages} shared
    | (.ok (),pages) => move client (.written call id page) {store with pageStore := pages} shared := by
  simp [advance]

@[simp] theorem advance_written : advance hash client (move client (.written call id page) store shared) =
    move client (.entered id call) (enter id page store call.kind) shared := by
  simp [advance]

@[simp] theorem advance_indexed : advance hash client (move client (.indexed call id) store shared) =
    move client (.linked call id) (link id store call) shared := by
  simp [advance]

@[simp] theorem advance_linked : advance hash client (move client (.linked call id) store shared) =
    finish client call (.ok id) (count store call.kind) shared := by
  simp [advance]

@[simp] theorem advance_finished (result : Except Error UInt64) :
    advance hash client (finish client call result store shared) = finish client call result store shared := by
  simp [advance,finish]

end Moves

omit [DecidableEq Client] in
/-- What a creation does to a store that only one client uses. -/
theorem creates (hash : Bytes → UInt64) (store : GraphStore FilePageStore) (call : Call) :
    let id := nextId store call.kind
    let taken := takeId store call.kind
    let did := (answer hash store call.operation,plain hash store call.operation)
    match allocatePage store.pageStore with
    | (.error e,pages) => did = (.error e,{taken with pageStore := pages})
    | (.ok page,pages) =>
      match writePage page (pageImage page call.type (call.serialized hash id)) pages with
      | (.error e,pages) => did = (.error e,{taken with pageStore := pages})
      | (.ok (),pages) => did = (.ok id,
          count (link id (enter id page {taken with pageStore := pages} call.kind) call) call.kind) := by
  intro id taken did
  cases allocated : allocatePage store.pageStore with
  | mk result pages =>
    have allocates : PageStore.allocatePage store.pageStore = (result,pages) := allocated
    cases result with
    | error e =>
      cases call <;>
        simp only [did,Call.operation,answer,plain,createNode,createEdge,storeNodeRecord,storeEdgeRecord,
          storeRecord,allocates] <;> rfl
    | ok page =>
      cases wrote : writePage page (pageImage page call.type (call.serialized hash id)) pages with
      | mk result later =>
        have writes : PageStore.writePage page (pageImage page call.type (call.serialized hash id)) pages =
          (result,later) := wrote
        cases call with
        | createNode properties =>
          simp only [Call.type,Call.serialized,Call.record,id,nextId,Call.kind,nodeRecord] at writes
          simp only [wrote,did,Call.operation,answer,plain,createNode,storeNodeRecord,storeRecord,allocates]
          rw [writes]
          cases result <;> rfl
        | createEdge clock fromNode toNode label properties =>
          simp only [Call.type,Call.serialized,Call.record,id,nextId,Call.kind] at writes
          simp only [wrote,did,Call.operation,answer,plain,createEdge,storeEdgeRecord,storeRecord,allocates]
          rw [writes]
          cases result <;> rfl

/-- A call that nobody interrupts is the operation of a store with one client. -/
theorem uninterrupted (hash : Bytes → UInt64) (shared : Shared Client) (client : Client) (call : Call)
    (idle : shared.phase client = .idle) :
    run (step hash) shared (.call client call::List.replicate 6 (.advance client)) =
      finish client call (answer hash shared.store call.operation) (plain hash shared.store call.operation)
        shared := by
  have first : step hash shared (.call client call) = move client (.starting call) shared.store shared := by
    simp only [step,idle]
  have did := creates hash shared.store call
  simp only [List.replicate,run_cons,run_nil,first]
  simp only [step]
  generalize answer hash shared.store call.operation = result at did ⊢
  generalize plain hash shared.store call.operation = later at did ⊢
  cases allocated : allocatePage shared.store.pageStore with
  | mk taken pages =>
    cases taken with
    | error e =>
      simp only [allocated,Prod.mk.injEq] at did
      simp [allocated,did]
    | ok page =>
      cases wrote : writePage page (pageImage page call.type (call.serialized hash (nextId shared.store call.kind)))
          pages with
      | mk taken last =>
        cases taken with
        | error e =>
          simp only [allocated,wrote,Prod.mk.injEq] at did
          simp [allocated,wrote,did]
        | ok _ =>
          simp only [allocated,wrote,Prod.mk.injEq] at did
          cases call <;> simp [allocated,wrote,did,Phase.entered,link]

end Steps

end LoreDB.Storage.ConcurrentCreations
