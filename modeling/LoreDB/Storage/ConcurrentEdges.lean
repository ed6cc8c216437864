import LoreDB.Storage.GraphRefinement

/-! Many clients on one graph store. The calls that edit edges go from one mutex to the
next, and between two of their steps other clients may take theirs. -/
namespace LoreDB.Storage.ConcurrentEdges
open LoreDB.Library LoreDB.Library.History LoreDB.Library.ByteStream GraphStore GraphHistory
  GraphRefinement RecordSerializer FilePageStore

inductive Call where
  | createEdge (clock : UInt64) (fromNode toNode : NodeId) (label : Bytes)
      (properties : List Property)
  | deleteEdge (edgeId : EdgeId)
  | deleteNode (nodeId : NodeId)
  deriving DecidableEq, Repr

/-- Where a client's call stands, with the values of its local variables. -/
inductive Phase where
  | idle (returned : Option (Except Error UInt64))
  | creating (clock : UInt64) (fromNode toNode : NodeId) (label : Bytes) (properties : List Property)
  | numbered (edge : EdgeRecord) (properties : List Property)
  | allocated (edge : EdgeRecord) (properties : List Property) (page : PageId)
  | written (edge : EdgeRecord) (page : PageId)
  | indexed (edge : EdgeRecord)
  | linked (edgeId : EdgeId)
  | deletingEdge (edgeId : EdgeId)
  | located (edgeId : EdgeId) (page : PageId)
  | loaded (edgeId : EdgeId)
  | unlinked (edgeId : EdgeId)
  | unindexed (edgeId : EdgeId)
  | deletingNode (nodeId : NodeId)
  | seenOutgoing (nodeId : NodeId) (outgoing : List EdgeId)
  | seenIncoming (nodeId : NodeId) (outgoing incoming : List EdgeId)
  | unindexedNode (nodeId : NodeId)
  | unlinkedNode (nodeId : NodeId)

def Call.start : Call → Phase
  | .createEdge clock fromNode toNode label properties =>
    .creating clock fromNode toNode label properties
  | .deleteEdge edgeId => .deletingEdge edgeId
  | .deleteNode nodeId => .deletingNode nodeId

def Call.operation : Call → Operation
  | .createEdge clock fromNode toNode label properties =>
    .createEdge clock fromNode toNode label properties
  | .deleteEdge edgeId => .deleteEdge edgeId
  | .deleteNode nodeId => .deleteNode nodeId

/-- `pageBuffer` is the page store's one buffer for reads. A read returns a view of it, which
its caller looks at after the mutex is free again. -/
structure Shared (Client : Type) where
  store : GraphStore FilePageStore
  pageBuffer : Bytes
  phase : Client → Phase

/-- No call is under way yet. -/
def opened {Client : Type} (store : GraphStore FilePageStore) (pageBuffer : Bytes) : Shared Client :=
  {store := store, pageBuffer := pageBuffer, phase := fun _ => .idle none}

def parseEdge (data : Bytes) : Except Error (EdgeRecord × List Property) :=
  if field data 8 4 ≠ PageType.edge.code then .error ⟨.corruption,"Invalid page type for edge"⟩
  else deserializeEdge (data.drop 48)

/-- The next step of a call, up to the end of the mutex that it takes. -/
def Phase.advance (hash : Bytes → UInt64) (store : GraphStore FilePageStore) (pageBuffer : Bytes) :
    Phase → Phase × GraphStore FilePageStore × Bytes
  | .idle returned => (.idle returned,store,pageBuffer)
  | .creating clock fromNode toNode label properties =>
    let edge : EdgeRecord := {
      id := store.nextEdgeId
      fromNode := fromNode
      toNode := toNode
      labelId := (hash label).toUInt32
      propertyCount := UInt32.ofNat properties.length
      timestamp := clock}
    (.numbered edge properties,{store with nextEdgeId := store.nextEdgeId + 1},pageBuffer)
  | .numbered edge properties =>
    match allocatePage store.pageStore with
    | (.error e,pages) => (.idle (some (.error e)),{store with pageStore := pages},pageBuffer)
    | (.ok page,pages) => (.allocated edge properties page,{store with pageStore := pages},pageBuffer)
  | .allocated edge properties page =>
    match writePage page (pageImage page .edge (serializeEdge edge properties)) store.pageStore with
    | (.error e,pages) => (.idle (some (.error e)),{store with pageStore := pages},pageBuffer)
    | (.ok (),pages) => (.written edge page,{store with pageStore := pages},pageBuffer)
  | .written edge page =>
    (.indexed edge,
      {store with edgePageIndex := Function.update store.edgePageIndex edge.id (some page)},pageBuffer)
  | .indexed edge =>
    (.linked edge.id,updateAdjacencyLists edge.fromNode edge.toNode edge.id true store,pageBuffer)
  | .linked edgeId =>
    (.idle (some (.ok edgeId)),{store with edgeCount := store.edgeCount + 1},pageBuffer)
  | .deletingEdge edgeId =>
    match store.edgePageIndex edgeId with
    | none => (.idle (some (.error ⟨.notFound,"Edge not found"⟩)),store,pageBuffer)
    | some page => (.located edgeId page,store,pageBuffer)
  | .located edgeId page =>
    match readPage page store.pageStore with
    | (.error e,pages) => (.idle (some (.error e)),{store with pageStore := pages},pageBuffer)
    | (.ok data,pages) => (.loaded edgeId,{store with pageStore := pages},data)
  | .loaded edgeId =>
    match parseEdge pageBuffer with
    | .error e => (.idle (some (.error e)),store,pageBuffer)
    | .ok (edge,_) =>
      (.unlinked edgeId,updateAdjacencyLists edge.fromNode edge.toNode edgeId false store,pageBuffer)
  | .unlinked edgeId =>
    (.unindexed edgeId,
      {store with edgePageIndex := Function.update store.edgePageIndex edgeId none},pageBuffer)
  | .unindexed edgeId =>
    (.idle (some (.ok edgeId)),{store with edgeCount := store.edgeCount - 1},pageBuffer)
  | .deletingNode nodeId => (.seenOutgoing nodeId (getOutgoingEdges nodeId store),store,pageBuffer)
  | .seenOutgoing nodeId outgoing =>
    (.seenIncoming nodeId outgoing (getIncomingEdges nodeId store),store,pageBuffer)
  | .seenIncoming nodeId outgoing incoming =>
    if outgoing ≠ [] then
      (.idle (some (.error ⟨.invalidArgument,"Cannot delete node with outgoing edges"⟩)),store,pageBuffer)
    else if incoming ≠ [] then
      (.idle (some (.error ⟨.invalidArgument,"Cannot delete node with incoming edges"⟩)),store,pageBuffer)
    else
      (.unindexedNode nodeId,
        {store with nodePageIndex := Function.update store.nodePageIndex nodeId none},pageBuffer)
  | .unindexedNode nodeId =>
    (.unlinkedNode nodeId,{store with
      outgoingEdges := Function.update store.outgoingEdges nodeId []
      incomingEdges := Function.update store.incomingEdges nodeId []},pageBuffer)
  | .unlinkedNode nodeId =>
    (.idle (some (.ok nodeId)),{store with nodeCount := store.nodeCount - 1},pageBuffer)

inductive Event (Client : Type) where
  | call (client : Client) (call : Call)
  | advance (client : Client)
  deriving DecidableEq, Repr

section Steps

variable {Client : Type} [DecidableEq Client]

def step (hash : Bytes → UInt64) (shared : Shared Client) : Event Client → Shared Client
  | .call client call =>
    match shared.phase client with
    | .idle _ => {shared with phase := Function.update shared.phase client call.start}
    | _ => shared
  | .advance client =>
    let (phase,store,pageBuffer) := (shared.phase client).advance hash shared.store shared.pageBuffer
    {store := store, pageBuffer := pageBuffer, phase := Function.update shared.phase client phase}

end Steps

/-- Steps of a client that nobody interrupts. -/
def alone (hash : Bytes → UInt64) : Nat → Phase × GraphStore FilePageStore × Bytes →
    Phase × GraphStore FilePageStore × Bytes
  | 0, state => state
  | count + 1, (phase,store,pageBuffer) => alone hash count (phase.advance hash store pageBuffer)

theorem alone_idle (hash : Bytes → UInt64) (count : Nat) (returned : Option (Except Error UInt64))
    (store : GraphStore FilePageStore) (pageBuffer : Bytes) :
    alone hash count (.idle returned,store,pageBuffer) = (.idle returned,store,pageBuffer) := by
  induction count with
  | zero => rfl
  | succ count ih => exact ih

theorem createEdge_alone (hash : Bytes → UInt64) (clock : UInt64) (fromNode toNode : NodeId)
    (label : Bytes) (properties : List Property) (store : GraphStore FilePageStore) (pageBuffer : Bytes) :
    alone hash 6 (.creating clock fromNode toNode label properties,store,pageBuffer) =
      (.idle (some (createEdge hash clock fromNode toNode label properties store).1),
        (createEdge hash clock fromNode toNode label properties store).2,pageBuffer) := by
  unfold createEdge
  change alone hash 5 (.numbered {
      id := store.nextEdgeId
      fromNode := fromNode
      toNode := toNode
      labelId := (hash label).toUInt32
      propertyCount := UInt32.ofNat properties.length
      timestamp := clock} properties,{store with nextEdgeId := store.nextEdgeId + 1},pageBuffer) = _
  dsimp only
  obtain ⟨edge,same,identified,begins,ends⟩ : ∃ edge : EdgeRecord, ({
        id := store.nextEdgeId
        fromNode := fromNode
        toNode := toNode
        labelId := (hash label).toUInt32
        propertyCount := UInt32.ofNat properties.length
        timestamp := clock} : EdgeRecord) = edge ∧
      edge.id = store.nextEdgeId ∧ edge.fromNode = fromNode ∧ edge.toNode = toNode :=
    ⟨_,rfl,rfl,rfl,rfl⟩
  rw [same]
  unfold storeEdgeRecord storeRecord
  dsimp only
  cases allocated : allocatePage store.pageStore with
  | mk result pages =>
    rw [show PageStore.allocatePage store.pageStore = (result,pages) from allocated,alone]
    unfold Phase.advance
    simp only [allocated]
    cases result with
    | error e => exact alone_idle ..
    | ok page =>
      dsimp only
      cases wrote : writePage page (pageImage page .edge (serializeEdge edge properties)) pages with
      | mk result later =>
        rw [show PageStore.writePage page (pageImage page .edge (serializeEdge edge properties)) pages =
          (result,later) from wrote,alone]
        unfold Phase.advance
        simp only [wrote]
        cases result with
        | error e => exact alone_idle ..
        | ok _ =>
          dsimp only
          rw [← identified,← begins,← ends]
          rfl

theorem deleteEdge_alone (hash : Bytes → UInt64) (edgeId : EdgeId) (store : GraphStore FilePageStore)
    (pageBuffer : Bytes) :
    ∃ buffer, alone hash 6 (.deletingEdge edgeId,store,pageBuffer) =
      (.idle (some ((deleteEdge edgeId store).1.map fun _ => edgeId)),(deleteEdge edgeId store).2,
        buffer) := by
  unfold deleteEdge getEdge getRecord
  rw [alone]
  cases found : store.edgePageIndex edgeId with
  | none =>
    unfold Phase.advance
    simp only [found]
    exact ⟨pageBuffer,alone_idle ..⟩
  | some page =>
    unfold Phase.advance
    simp only [found]
    rw [alone]
    cases read : readPage page store.pageStore with
    | mk result pages =>
      rw [show PageStore.readPage page store.pageStore = (result,pages) from read]
      unfold Phase.advance
      simp only [read]
      cases result with
      | error e => exact ⟨pageBuffer,alone_idle ..⟩
      | ok data =>
        dsimp only
        rw [alone]
        unfold Phase.advance parseEdge
        dsimp only
        generalize (if field data 8 4 ≠ PageType.edge.code then
          (.error ⟨.corruption,"Invalid page type for edge"⟩ : Except Error (EdgeRecord × List Property))
          else deserializeEdge (data.drop 48)) = parsed
        cases parsed with
        | error e => exact ⟨data,alone_idle ..⟩
        | ok found => exact ⟨data,rfl⟩

theorem deleteNode_alone (hash : Bytes → UInt64) (nodeId : NodeId) (store : GraphStore FilePageStore)
    (pageBuffer : Bytes) :
    alone hash 6 (.deletingNode nodeId,store,pageBuffer) =
      (.idle (some ((deleteNode nodeId store).1.map fun _ => nodeId)),(deleteNode nodeId store).2,
        pageBuffer) := by
  unfold deleteNode
  change alone hash 4 (.seenIncoming nodeId (getOutgoingEdges nodeId store)
    (getIncomingEdges nodeId store),store,pageBuffer) = _
  rw [alone]
  unfold Phase.advance
  dsimp only
  split
  · exact alone_idle ..
  · split
    · exact alone_idle ..
    · rfl

section Alone

variable {Client : Type} [DecidableEq Client]

theorem run_alone (hash : Bytes → UInt64) (count : Nat)
    (shared : Shared Client) (client : Client) :
    let reached := alone hash count (shared.phase client,shared.store,shared.pageBuffer)
    run (step hash) shared (List.replicate count (.advance client)) = {
      store := reached.2.1
      pageBuffer := reached.2.2
      phase := Function.update shared.phase client reached.1} := by
  induction count generalizing shared with
  | zero => simp [alone]
  | succ count ih =>
    have later := ih (step hash shared (.advance client))
    simp only [step,Function.update_self,Function.update_idem] at later
    exact later

/-- A call that nobody interrupts is the operation of a store with one client. -/
theorem uninterrupted (hash : Bytes → UInt64) (shared : Shared Client) (client : Client) (call : Call)
    (returned : Option (Except Error UInt64)) (idle : shared.phase client = .idle returned) :
    ∃ pageBuffer, run (step hash) shared (.call client call::List.replicate 6 (.advance client)) = {
      store := plain hash shared.store call.operation
      pageBuffer := pageBuffer
      phase := Function.update shared.phase client
        (.idle (some (answer hash shared.store call.operation)))} := by
  have ran := run_alone hash 6
    {shared with phase := Function.update shared.phase client call.start} client
  rw [run_cons,step]
  simp only [idle]
  simp only [Function.update_self,Function.update_idem] at ran
  cases call with
  | createEdge clock fromNode toNode label properties =>
    rw [Call.start,createEdge_alone] at ran
    exact ⟨_,ran⟩
  | deleteEdge edgeId =>
    obtain ⟨buffer,did⟩ := deleteEdge_alone hash edgeId shared.store shared.pageBuffer
    rw [Call.start,did] at ran
    exact ⟨_,ran⟩
  | deleteNode nodeId =>
    rw [Call.start,deleteNode_alone] at ran
    exact ⟨_,ran⟩

end Alone

end LoreDB.Storage.ConcurrentEdges
