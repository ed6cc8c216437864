import LoreDB.Storage.GraphFrame
import LoreDB.Storage.GraphRefinement

/-! What the calls do to a graph store apart from its pages, its versions and its log: to the indices,
the adjacency lists and the counters. A call does what its operation does without a transaction, or
nothing. -/
namespace LoreDB.Storage.Outlines
open LoreDB.Transaction LoreDB.Library.History GraphStore GraphHistory

@[ext] structure Outline where
  nextNodeId : NodeId
  nextEdgeId : EdgeId
  nodePageIndex : NodeId → Option PageId
  edgePageIndex : EdgeId → Option PageId
  outgoingEdges : NodeId → List EdgeId
  incomingEdges : NodeId → List EdgeId
  nodeCount : UInt64
  edgeCount : UInt64

variable {σ : Type}

def outline (store : GraphStore σ) : Outline where
  nextNodeId := store.nextNodeId
  nextEdgeId := store.nextEdgeId
  nodePageIndex := store.nodePageIndex
  edgePageIndex := store.edgePageIndex
  outgoingEdges := store.outgoingEdges
  incomingEdges := store.incomingEdges
  nodeCount := store.nodeCount
  edgeCount := store.edgeCount

namespace Outline

def placeNode (nodeId : NodeId) (page : PageId) (o : Outline) : Outline :=
  {o with nodePageIndex := Function.update o.nodePageIndex nodeId (some page)}

def placeEdge (edgeId : EdgeId) (page : PageId) (o : Outline) : Outline :=
  {o with edgePageIndex := Function.update o.edgePageIndex edgeId (some page)}

/-- The next id is used up, whether its record is stored or not. -/
def issueNode (o : Outline) : Outline := {o with nextNodeId := o.nextNodeId + 1}

def issueEdge (o : Outline) : Outline := {o with nextEdgeId := o.nextEdgeId + 1}

def countNode (o : Outline) : Outline := {o with nodeCount := o.nodeCount + 1}

def dropNode (nodeId : NodeId) (o : Outline) : Outline :=
  {o with
    nodePageIndex := Function.update o.nodePageIndex nodeId none
    outgoingEdges := Function.update o.outgoingEdges nodeId []
    incomingEdges := Function.update o.incomingEdges nodeId []
    nodeCount := o.nodeCount - 1}

def listEdge (fromNode toNode : NodeId) (edgeId : EdgeId) (o : Outline) : Outline :=
  {o with
    outgoingEdges := Function.update o.outgoingEdges fromNode (o.outgoingEdges fromNode ++ [edgeId])
    incomingEdges := Function.update o.incomingEdges toNode (o.incomingEdges toNode ++ [edgeId])
    edgeCount := o.edgeCount + 1}

def dropEdge (fromNode toNode : NodeId) (edgeId : EdgeId) (o : Outline) : Outline :=
  {o with
    edgePageIndex := Function.update o.edgePageIndex edgeId none
    outgoingEdges := Function.update o.outgoingEdges fromNode
      ((o.outgoingEdges fromNode).filter fun other => other != edgeId)
    incomingEdges := Function.update o.incomingEdges toNode
      ((o.incomingEdges toNode).filter fun other => other != edgeId)
    edgeCount := o.edgeCount - 1}

end Outline

section Records

variable [PageStore σ]

theorem storeRecord_outline (type : PageType) (serialized : Bytes) (store : GraphStore σ) :
    outline (storeRecord type serialized store).2 = outline store := by
  unfold storeRecord
  split
  · rfl
  · split <;> rfl

theorem storeNodeRecord_outline (nodeId : NodeId) (node : NodeRecord) (properties : List Property)
    (store : GraphStore σ) :
    (∃ e next, storeNodeRecord nodeId node properties store = (.error e,next) ∧
        outline next = outline store) ∨
      ∃ page next, storeNodeRecord nodeId node properties store = (.ok (),next) ∧
        outline next = (outline store).placeNode nodeId page := by
  have kept := storeRecord_outline .node (RecordSerializer.serializeNode node properties) store
  unfold storeNodeRecord
  cases stored : storeRecord .node (RecordSerializer.serializeNode node properties) store with
  | mk result next =>
    rw [stored] at kept
    cases result with
    | error e => exact .inl ⟨e,next,rfl,kept⟩
    | ok page => exact .inr ⟨page,_,rfl,by rw [← kept]; rfl⟩

theorem storeEdgeRecord_outline (edgeId : EdgeId) (edge : EdgeRecord) (properties : List Property)
    (store : GraphStore σ) :
    (∃ e next, storeEdgeRecord edgeId edge properties store = (.error e,next) ∧
        outline next = outline store) ∨
      ∃ page next, storeEdgeRecord edgeId edge properties store = (.ok (),next) ∧
        outline next = (outline store).placeEdge edgeId page := by
  have kept := storeRecord_outline .edge (RecordSerializer.serializeEdge edge properties) store
  unfold storeEdgeRecord
  cases stored : storeRecord .edge (RecordSerializer.serializeEdge edge properties) store with
  | mk result next =>
    rw [stored] at kept
    cases result with
    | error e => exact .inl ⟨e,next,rfl,kept⟩
    | ok page => exact .inr ⟨page,_,rfl,by rw [← kept]; rfl⟩

theorem getRecord_outline {ρ : Type} (entry : Option PageId) (type : PageType)
    (missing wrongType : String) (deserialize : Bytes → Except Error ρ) (store : GraphStore σ) :
    outline (getRecord entry type missing wrongType deserialize store).2 = outline store := by
  unfold getRecord
  split
  · rfl
  · split <;> rfl

theorem get_outline (kind : Kind) (id : UInt64) (store : GraphStore σ) :
    outline (get kind id store).2 = outline store := by
  cases kind <;> exact getRecord_outline ..

/-- A record that is read is named by the index. -/
theorem get_placed (kind : Kind) (id : UInt64) (store : GraphStore σ)
    (found : kind.Record × List Property) (read : (get kind id store).1 = .ok found) :
    pageIndex store kind id ≠ none := by
  intro absent
  cases kind with
  | node =>
    rw [GraphHistory.get,getNode,show store.nodePageIndex id = none from absent] at read
    cases read
  | edge =>
    rw [GraphHistory.get,getEdge,show store.edgePageIndex id = none from absent] at read
    cases read

end Records

section Operations

variable [PageStore σ]

theorem createNode_outline (properties : List Property) (store : GraphStore σ) :
    outline (createNode properties store).2 = (outline store).issueNode ∨
      ((createNode properties store).1 = .ok store.nextNodeId ∧ ∃ page,
        outline (createNode properties store).2 =
          ((outline store).issueNode.placeNode store.nextNodeId page).countNode) := by
  unfold createNode
  dsimp only
  obtain ⟨e,next,stored,kept⟩ | ⟨page,next,stored,kept⟩ := storeNodeRecord_outline store.nextNodeId
    {id := store.nextNodeId, propertyCount := UInt32.ofNat properties.length} properties
    {store with nextNodeId := store.nextNodeId + 1}
  · rw [stored]
    exact .inl kept
  · rw [stored]
    exact .inr ⟨rfl,page,congrArg Outline.countNode kept⟩

theorem updateNode_outline (nodeId : NodeId) (properties : List Property) (store : GraphStore σ) :
    outline (updateNode nodeId properties store).2 = outline store ∨
      (store.nodePageIndex nodeId ≠ none ∧ ∃ page,
        outline (updateNode nodeId properties store).2 = (outline store).placeNode nodeId page) := by
  have reads := get_outline .node nodeId store
  have placed := get_placed .node nodeId store
  unfold updateNode
  cases found : getNode nodeId store with
  | mk result next =>
    simp only [GraphHistory.get,found] at reads placed
    cases result with
    | error e => exact .inl reads
    | ok record =>
      dsimp only
      obtain ⟨e,later,stored,kept⟩ | ⟨page,later,stored,kept⟩ := storeNodeRecord_outline nodeId
        {record.1 with propertyCount := UInt32.ofNat properties.length} properties next
      · rw [stored]
        exact .inl (kept.trans reads)
      · rw [stored]
        exact .inr ⟨placed record rfl,page,by rw [kept,reads]⟩

omit [PageStore σ] in
theorem deleteNode_outline (nodeId : NodeId) (store : GraphStore σ) :
    outline (deleteNode nodeId store).2 = outline store ∨
      (store.outgoingEdges nodeId = [] ∧ store.incomingEdges nodeId = [] ∧
        (deleteNode nodeId store).1 = .ok () ∧
        outline (deleteNode nodeId store).2 = (outline store).dropNode nodeId) := by
  unfold deleteNode
  split
  · exact .inl rfl
  · rename_i begins
    split
    · exact .inl rfl
    · rename_i ends
      exact .inr ⟨not_not.mp begins,not_not.mp ends,rfl,rfl⟩

theorem createEdge_outline (hash : Bytes → UInt64) (clock : UInt64) (fromNode toNode : NodeId)
    (label : Bytes) (properties : List Property) (store : GraphStore σ) :
    outline (createEdge hash clock fromNode toNode label properties store).2 = (outline store).issueEdge ∨
      ∃ page, outline (createEdge hash clock fromNode toNode label properties store).2 =
        ((outline store).issueEdge.placeEdge store.nextEdgeId page).listEdge fromNode toNode
          store.nextEdgeId := by
  unfold createEdge
  dsimp only
  generalize ({
    id := store.nextEdgeId
    fromNode := fromNode
    toNode := toNode
    labelId := (hash label).toUInt32
    propertyCount := UInt32.ofNat properties.length
    timestamp := clock} : EdgeRecord) = edge
  obtain ⟨e,next,stored,kept⟩ | ⟨page,next,stored,kept⟩ := storeEdgeRecord_outline store.nextEdgeId edge
    properties {store with nextEdgeId := store.nextEdgeId + 1}
  · rw [stored]
    exact .inl kept
  · rw [stored]
    exact .inr ⟨page,congrArg (fun o => Outline.listEdge fromNode toNode store.nextEdgeId o) kept⟩

theorem updateEdge_outline (edgeId : EdgeId) (properties : List Property) (store : GraphStore σ) :
    outline (updateEdge edgeId properties store).2 = outline store ∨
      (store.edgePageIndex edgeId ≠ none ∧ ∃ page,
        outline (updateEdge edgeId properties store).2 = (outline store).placeEdge edgeId page) := by
  have reads := get_outline .edge edgeId store
  have placed := get_placed .edge edgeId store
  unfold updateEdge
  cases found : getEdge edgeId store with
  | mk result next =>
    simp only [GraphHistory.get,found] at reads placed
    cases result with
    | error e => exact .inl reads
    | ok record =>
      dsimp only
      obtain ⟨e,later,stored,kept⟩ | ⟨page,later,stored,kept⟩ := storeEdgeRecord_outline edgeId
        {record.1 with propertyCount := UInt32.ofNat properties.length} properties next
      · rw [stored]
        exact .inl (kept.trans reads)
      · rw [stored]
        exact .inr ⟨placed record rfl,page,by rw [kept,reads]⟩

theorem deleteEdge_outline (edgeId : EdgeId) (store : GraphStore σ) :
    outline (deleteEdge edgeId store).2 = outline store ∨
      (store.edgePageIndex edgeId ≠ none ∧ ∃ fromNode toNode,
        outline (deleteEdge edgeId store).2 = (outline store).dropEdge fromNode toNode edgeId) := by
  have reads := get_outline .edge edgeId store
  have placed := get_placed .edge edgeId store
  unfold deleteEdge
  cases found : getEdge edgeId store with
  | mk result next =>
    simp only [GraphHistory.get,found] at reads placed
    cases result with
    | error e => exact .inl reads
    | ok record =>
      refine .inr ⟨placed record rfl,record.1.fromNode,record.1.toNode,?_⟩
      exact congrArg (Outline.dropEdge record.1.fromNode record.1.toNode edgeId) reads

end Operations

/-! Calls. -/

section Calls

variable [PageStore σ] (hash : Bytes → UInt64)

omit [PageStore σ] in
theorem versioned_outline {α : Type} (result : α) (refused : Option String) (op : String) (key : UInt64)
    (version : Version) (store : GraphStore σ) :
    outline (versioned result refused op key version store).2 = outline store := by
  obtain ⟨mvcc,wal,same⟩ := versioned_keeps result refused op key version store
  rw [same]
  rfl

/-- A transaction's deletion of a node leaves everything as it is where versions are kept. -/
def Erases (store : GraphStore σ) : Operation → Prop
  | .deleteNode _ => store.mvccManager = none
  | _ => True

omit [PageStore σ] in
theorem deleteNode_pages (nodeId : NodeId) (store next : GraphStore σ) (same : outline next = outline store) :
    outline (deleteNode nodeId next).2 = outline (deleteNode nodeId store).2 := by
  have outgoing : next.outgoingEdges nodeId = store.outgoingEdges nodeId :=
    congrFun (congrArg Outline.outgoingEdges same) nodeId
  have incoming : next.incomingEdges nodeId = store.incomingEdges nodeId :=
    congrFun (congrArg Outline.incomingEdges same) nodeId
  unfold deleteNode getOutgoingEdges getIncomingEdges
  rw [outgoing,incoming]
  split
  · exact same
  · split
    · exact same
    · exact congrArg (Outline.dropNode nodeId) same

theorem perform_outline (txId : Nat) (store : GraphStore σ) (operation : Operation) :
    outline (perform hash txId store operation).2 = outline store ∨
      (Erases store operation ∧
        outline (perform hash txId store operation).2 = outline (plain hash store operation)) := by
  cases operation with
  | createNode properties =>
    refine .inr ⟨trivial,?_⟩
    simp only [perform,createNodeTx,plain]
    cases createNode properties store with
    | mk result next =>
      cases result with
      | error e => rfl
      | ok nodeId =>
        dsimp only
        split
        · rfl
        · exact versioned_outline ..
  | updateNode id properties =>
    refine .inr ⟨trivial,?_⟩
    simp only [perform,perform.keyed,updateNodeTx,plain]
    cases updateNode id properties store with
    | mk result next =>
      cases result with
      | error e => rfl
      | ok _ => exact versioned_outline ..
  | deleteNode id =>
    have reads := get_outline .node id store
    have kept : (getNode id store).2.mvccManager = store.mvccManager := by
      unfold getNode getRecord
      split
      · rfl
      · split <;> rfl
    simp only [perform,perform.keyed,deleteNodeTx,plain]
    cases found : getNode id store with
    | mk result next =>
      simp only [GraphHistory.get,found] at reads kept
      cases result with
      | error e => exact .inl reads
      | ok record =>
        dsimp only
        split
        · exact .inl ((versioned_outline ..).trans reads)
        · rename_i disabled
          refine .inr ⟨?_,?_⟩
          · rw [Erases,← kept]
            simpa using disabled
          · have deletes := deleteNode_pages id store next reads
            cases deleted : deleteNode id next with
            | mk result later =>
              rw [deleted] at deletes
              cases result <;> exact deletes
  | createEdge clock fromNode toNode label properties =>
    refine .inr ⟨trivial,?_⟩
    simp only [perform,createEdgeTx,plain]
    cases createEdge hash clock fromNode toNode label properties store with
    | mk result next =>
      cases result with
      | error e => rfl
      | ok edgeId => exact versioned_outline ..
  | updateEdge id properties =>
    refine .inr ⟨trivial,?_⟩
    simp only [perform,perform.keyed,updateEdgeTx,plain]
    cases updateEdge id properties store with
    | mk result next =>
      cases result with
      | error e => rfl
      | ok _ => exact versioned_outline ..
  | deleteEdge id =>
    refine .inr ⟨trivial,?_⟩
    simp only [perform,perform.keyed,deleteEdgeTx,plain]
    cases deleteEdge id store with
    | mk result next =>
      cases result with
      | error e => rfl
      | ok _ => exact versioned_outline ..

/-- The operation whose work a call does. -/
def Performs (store : GraphStore σ) : Call → Operation → Prop
  | .plain operation, other => operation = other
  | .perform _ operation, other => operation = other ∧ Erases store operation
  | _, _ => False

theorem step_outline (store : GraphStore σ) (call : Call) :
    outline (GraphHistory.step hash store call) = outline store ∨ ∃ operation, Performs store call operation ∧
      outline (GraphHistory.step hash store call) = outline (plain hash store operation) := by
  cases call with
  | begin | commit _ | abort _ | collect _ => exact .inl rfl
  | plain operation => exact .inr ⟨operation,rfl,rfl⟩
  | perform txId operation =>
    exact (perform_outline hash txId store operation).imp_right fun ⟨erases,same⟩ =>
      ⟨operation,⟨rfl,erases⟩,same⟩
  | get kind id => exact .inl (get_outline kind id store)
  | getTx kind txId id =>
    refine .inl ?_
    have unified : getTx kind txId id store =
        getVersioned kind.pick kind.missing (GraphHistory.get kind id) txId id store := by
      cases kind <;> rfl
    rw [GraphHistory.step,unified]
    unfold getVersioned
    have reads := get_outline kind id store
    split
    · exact reads
    · split
      · split
        · rfl
        · exact reads
      · split
        · rfl
        · exact reads

end Calls

/-! The adjacency lists name each edge once, as long as ids are not issued again. -/

structure Outline.Listed (o : Outline) : Prop where
  outgoing : ∀ node, (o.outgoingEdges node).Nodup
  incoming : ∀ node, (o.incomingEdges node).Nodup
  leaving : ∀ node, ∀ edge ∈ o.outgoingEdges node, edge < o.nextEdgeId
  arriving : ∀ node, ∀ edge ∈ o.incomingEdges node, edge < o.nextEdgeId

/-- No creation wraps its counter. -/
def CountersLast (store : GraphStore σ) (call : Call) : Prop :=
  ∀ operation, Performs store call operation →
    GraphRefinement.Counts store.nextNodeId store.nextEdgeId operation

/-- A new store over some pages, with or without versions. -/
def started (pages : σ) (mvcc : Option MVCCManager) (wal : Option WALManager) : GraphStore σ :=
  {pageStore := pages, mvccManager := mvcc, walManager := wal}

theorem started_listed (pages : σ) (mvcc : Option MVCCManager) (wal : Option WALManager) :
    (outline (started pages mvcc wal)).Listed :=
  ⟨fun _ => List.nodup_nil,fun _ => List.nodup_nil,fun _ _ absent => absurd absent List.not_mem_nil,
    fun _ _ absent => absurd absent List.not_mem_nil⟩

section Lists

theorem update_each (property : List EdgeId → Prop) (lists : NodeId → List EdgeId) (target : NodeId)
    (edges : List EdgeId) (here : property edges) (others : ∀ node, property (lists node)) (node : NodeId) :
    property (Function.update lists target edges node) := by
  by_cases same : node = target
  · subst same
    rwa [Function.update_self]
  · rw [Function.update_of_ne same]
    exact others node

theorem next_above {next edge : EdgeId} (last : next + 1 ≠ 0) (below : edge < next ∨ edge = next) :
    edge < next + 1 := by
  have after := GraphRefinement.next_toNat next last
  rw [UInt64.lt_iff_toNat_lt,after]
  rcases below with below | rfl
  · exact Nat.lt_succ_of_lt (UInt64.lt_iff_toNat_lt.mp below)
  · exact Nat.lt_succ_self _

theorem issued_listed (o : Outline) (listed : o.Listed) (last : o.nextEdgeId + 1 ≠ 0) :
    o.issueEdge.Listed where
  outgoing := listed.outgoing
  incoming := listed.incoming
  leaving node edge member := next_above last (.inl (listed.leaving node edge member))
  arriving node edge member := next_above last (.inl (listed.arriving node edge member))

theorem added_listed (lists : NodeId → List EdgeId) (target : NodeId) (next : EdgeId)
    (nodup : ∀ node, (lists node).Nodup) (below : ∀ node, ∀ edge ∈ lists node, edge < next)
    (last : next + 1 ≠ 0) (node : NodeId) :
    (Function.update lists target (lists target ++ [next]) node).Nodup ∧
      ∀ edge ∈ Function.update lists target (lists target ++ [next]) node, edge < next + 1 := by
  refine update_each (fun edges => edges.Nodup ∧ ∀ edge ∈ edges, edge < next + 1) lists target _
    ⟨?_,fun edge member => ?_⟩ (fun node => ⟨nodup node,fun edge member =>
      next_above last (.inl (below node edge member))⟩) node
  · rw [← List.concat_eq_append]
    exact (nodup target).concat fun member => UInt64.lt_irrefl _ (below target next member)
  · rcases List.mem_append.mp member with old | new
    · exact next_above last (.inl (below target edge old))
    · exact next_above last (.inr (List.mem_singleton.mp new))

theorem kept_listed (lists : NodeId → List EdgeId) (target : NodeId) (edges : List EdgeId) (next : EdgeId)
    (sublist : edges.Sublist (lists target)) (nodup : ∀ node, (lists node).Nodup)
    (below : ∀ node, ∀ edge ∈ lists node, edge < next) (node : NodeId) :
    (Function.update lists target edges node).Nodup ∧
      ∀ edge ∈ Function.update lists target edges node, edge < next :=
  update_each (fun edges => edges.Nodup ∧ ∀ edge ∈ edges, edge < next) lists target edges
    ⟨(nodup target).sublist sublist,fun edge member => below target edge (sublist.subset member)⟩
    (fun node => ⟨nodup node,below node⟩) node

end Lists

section Steps

variable [PageStore σ] (hash : Bytes → UInt64)

theorem plain_listed (store : GraphStore σ) (operation : Operation) (listed : (outline store).Listed)
    (last : GraphRefinement.Counts store.nextNodeId store.nextEdgeId operation) :
    (outline (plain hash store operation)).Listed := by
  cases operation with
  | createNode properties =>
    obtain same | ⟨-,page,same⟩ := createNode_outline properties store
    · exact same ▸ ⟨listed.outgoing,listed.incoming,listed.leaving,listed.arriving⟩
    · exact same ▸ ⟨listed.outgoing,listed.incoming,listed.leaving,listed.arriving⟩
  | updateNode id properties =>
    obtain same | ⟨-,page,same⟩ := updateNode_outline id properties store
    · exact same ▸ listed
    · exact same ▸ ⟨listed.outgoing,listed.incoming,listed.leaving,listed.arriving⟩
  | deleteNode id =>
    obtain same | ⟨-,-,-,same⟩ := deleteNode_outline id store
    · exact same ▸ listed
    · have out := kept_listed store.outgoingEdges id [] store.nextEdgeId (List.nil_sublist _)
        listed.outgoing listed.leaving
      have into := kept_listed store.incomingEdges id [] store.nextEdgeId (List.nil_sublist _)
        listed.incoming listed.arriving
      exact same ▸ ⟨fun node => (out node).1,fun node => (into node).1,fun node => (out node).2,
        fun node => (into node).2⟩
  | createEdge clock fromNode toNode label properties =>
    obtain same | ⟨page,same⟩ := createEdge_outline hash clock fromNode toNode label properties store
    · exact same ▸ issued_listed (outline store) listed last
    · have out := added_listed store.outgoingEdges fromNode store.nextEdgeId listed.outgoing
        listed.leaving last
      have into := added_listed store.incomingEdges toNode store.nextEdgeId listed.incoming
        listed.arriving last
      exact same ▸ ⟨fun node => (out node).1,fun node => (into node).1,fun node => (out node).2,
        fun node => (into node).2⟩
  | updateEdge id properties =>
    obtain same | ⟨-,page,same⟩ := updateEdge_outline id properties store
    · exact same ▸ listed
    · exact same ▸ ⟨listed.outgoing,listed.incoming,listed.leaving,listed.arriving⟩
  | deleteEdge id =>
    obtain same | ⟨-,fromNode,toNode,same⟩ := deleteEdge_outline id store
    · exact same ▸ listed
    · have out := kept_listed store.outgoingEdges fromNode _ store.nextEdgeId
        (List.filter_sublist (p := fun other => other != id)) listed.outgoing listed.leaving
      have into := kept_listed store.incomingEdges toNode _ store.nextEdgeId
        (List.filter_sublist (p := fun other => other != id)) listed.incoming listed.arriving
      exact same ▸ ⟨fun node => (out node).1,fun node => (into node).1,fun node => (out node).2,
        fun node => (into node).2⟩

theorem step_listed (store : GraphStore σ) (call : Call) (listed : (outline store).Listed)
    (last : CountersLast store call) : (outline (GraphHistory.step hash store call)).Listed := by
  obtain same | ⟨operation,performs,same⟩ := step_outline hash store call
  · exact same ▸ listed
  · exact same ▸ plain_listed hash store operation listed (last operation performs)

theorem after_listed (start : GraphStore σ) (calls : List Call) (listed : (outline start).Listed)
    (last : Guarded (GraphHistory.step hash) CountersLast start calls) :
    (outline (after hash start calls)).Listed := by
  induction calls generalizing start with
  | nil => exact listed
  | cons call rest ih => exact ih _ (step_listed hash start call listed last.1) last.2

end Steps

end LoreDB.Storage.Outlines
