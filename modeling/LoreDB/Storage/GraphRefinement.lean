import LoreDB.Library.PropertyGraph
import LoreDB.Storage.RecordPages

/-! What the operations without a transaction are for: a property graph that counts its
ids. A graph store over a file gives the answers of that graph, to every operation and
every read, as long as records fit their pages and the counters do not wrap. -/
namespace LoreDB.Storage.GraphRefinement
open LoreDB.Library LoreDB.Library.History GraphStore GraphHistory RecordSerializer

structure EdgeData where
  labelId : UInt32
  timestamp : UInt64
  properties : List Property

abbrev Graph := PropertyGraph NodeId EdgeId (List Property) EdgeData

structure CountedGraph where
  graph : Graph := {}
  nextNodeId : NodeId := 1
  nextEdgeId : EdgeId := 1

def nodeRecord (id : NodeId) (properties : List Property) : NodeRecord :=
  {id := id, propertyCount := UInt32.ofNat properties.length}

def edgeRecord (edge : PropertyGraph.Edge NodeId EdgeId EdgeData) : EdgeRecord where
  id := edge.id
  fromNode := edge.source
  toNode := edge.target
  labelId := edge.data.labelId
  propertyCount := UInt32.ofNat edge.data.properties.length
  timestamp := edge.data.timestamp

/-- What the graph has to say about an id. -/
def readNode (graph : Graph) (id : NodeId) : Except Error (NodeRecord × List Property) :=
  (graph.nodes id).elim nodeNotFound fun properties => .ok (nodeRecord id properties,properties)

def readEdge (graph : Graph) (id : EdgeId) : Except Error (EdgeRecord × List Property) :=
  (graph.edge? id).elim edgeNotFound fun edge => .ok (edgeRecord edge,edge.data.properties)

/-- What a call returns; an operation on an id returns that id. -/
def answer {σ : Type} [PageStore σ] (hash : Bytes → UInt64) (store : GraphStore σ) :
    Operation → Except Error UInt64
  | .createNode properties => (createNode properties store).1
  | .updateNode id properties => (updateNode id properties store).1.map fun _ => id
  | .deleteNode id => (deleteNode id store).1.map fun _ => id
  | .createEdge clock fromNode toNode label properties =>
    (createEdge hash clock fromNode toNode label properties store).1
  | .updateEdge id properties => (updateEdge id properties store).1.map fun _ => id
  | .deleteEdge id => (deleteEdge id store).1.map fun _ => id

namespace CountedGraph

def answer (model : CountedGraph) : Operation → Except Error UInt64
  | .createNode _ => .ok model.nextNodeId
  | .updateNode id _ => (readNode model.graph id).map fun _ => id
  | .deleteNode id =>
    if model.graph.attached .source id ≠ [] then
      .error ⟨.invalidArgument,"Cannot delete node with outgoing edges"⟩
    else if model.graph.attached .target id ≠ [] then
      .error ⟨.invalidArgument,"Cannot delete node with incoming edges"⟩
    else .ok id
  | .createEdge _ _ _ _ _ => .ok model.nextEdgeId
  | .updateEdge id _ => (readEdge model.graph id).map fun _ => id
  | .deleteEdge id => (readEdge model.graph id).map fun _ => id

def step (hash : Bytes → UInt64) (model : CountedGraph) : Operation → CountedGraph
  | .createNode properties => {model with
      graph := model.graph.setNode model.nextNodeId properties
      nextNodeId := model.nextNodeId + 1}
  | .updateNode id properties =>
    if model.graph.nodes id = none then model
    else {model with graph := model.graph.setNode id properties}
  | .deleteNode id =>
    if model.graph.attached .source id ≠ [] ∨ model.graph.attached .target id ≠ [] then model
    else {model with graph := model.graph.eraseNode id}
  | .createEdge clock fromNode toNode label properties => {model with
      graph := model.graph.addEdge {
        id := model.nextEdgeId
        source := fromNode
        target := toNode
        data := {labelId := (hash label).toUInt32, timestamp := clock, properties := properties}}
      nextEdgeId := model.nextEdgeId + 1}
  | .updateEdge id properties =>
    {model with graph := model.graph.changeEdge id fun data => {data with properties := properties}}
  | .deleteEdge id => {model with graph := model.graph.eraseEdge id}

end CountedGraph

/-- The bytes of the record that a call stores, if it stores one. -/
def serialized (hash : Bytes → UInt64) (store : GraphStore FilePageStore) : Operation → Option Bytes
  | .createNode properties => some (serializeNode (nodeRecord store.nextNodeId properties) properties)
  | .updateNode id properties => (getNode id store).1.toOption.map fun (node,_) =>
    serializeNode {node with propertyCount := UInt32.ofNat properties.length} properties
  | .createEdge clock fromNode toNode label properties => some (serializeEdge {
      id := store.nextEdgeId
      fromNode := fromNode
      toNode := toNode
      labelId := (hash label).toUInt32
      propertyCount := UInt32.ofNat properties.length
      timestamp := clock} properties)
  | .updateEdge id properties => (getEdge id store).1.toOption.map fun (edge,_) =>
    serializeEdge {edge with propertyCount := UInt32.ofNat properties.length} properties
  | .deleteNode _ | .deleteEdge _ => none

/-- A creation does not wrap its counter. -/
def Counts (nextNodeId : NodeId) (nextEdgeId : EdgeId) : Operation → Prop
  | .createNode _ => nextNodeId + 1 ≠ 0
  | .createEdge _ _ _ _ _ => nextEdgeId + 1 ≠ 0
  | _ => True

instance (nextNodeId : NodeId) (nextEdgeId : EdgeId) : (operation : Operation) →
    Decidable (Counts nextNodeId nextEdgeId operation)
  | .createNode _ | .createEdge _ _ _ _ _ => inferInstanceAs (Decidable (_ ≠ _))
  | .updateNode _ _ | .deleteNode _ | .updateEdge _ _ | .deleteEdge _ => .isTrue trivial

def Lasts (store : GraphStore FilePageStore) (operation : Operation) : Prop :=
  Counts store.nextNodeId store.nextEdgeId operation

instance (store : GraphStore FilePageStore) (operation : Operation) : Decidable (Lasts store operation) :=
  inferInstanceAs (Decidable (Counts _ _ _))

def Fits (hash : Bytes → UInt64) (store : GraphStore FilePageStore) (operation : Operation) : Prop :=
  Counts store.nextNodeId store.nextEdgeId operation ∧
    ∀ bytes ∈ serialized hash store operation, FitsPage bytes

instance (hash : Bytes → UInt64) (store : GraphStore FilePageStore) (operation : Operation) :
    Decidable (Fits hash store operation) := inferInstanceAs (Decidable (_ ∧ _))

/-- The properties that a call hands over. -/
def properties : Operation → List Property
  | .createNode properties | .updateNode _ properties | .createEdge _ _ _ _ properties
  | .updateEdge _ properties => properties
  | .deleteNode _ | .deleteEdge _ => []

/-- A store on a new file. What else it may keep plays no part in the plain operations. -/
def fresh (mvcc : Option Transaction.MVCCManager) (wal : Option WALManager) :
    GraphStore FilePageStore :=
  {pageStore := .openFile [], mvccManager := mvcc, walManager := wal}

section Readings

variable (graph : Graph)

theorem readNode_set (id : NodeId) (properties : List Property) :
    readNode (graph.setNode id properties) =
      Function.update (readNode graph) id (.ok (nodeRecord id properties,properties)) := by
  ext1 other
  by_cases here : other = id
  · subst here
    simp [readNode,PropertyGraph.setNode]
  · simp [readNode,PropertyGraph.setNode,here]

theorem readNode_erase (id : NodeId) :
    readNode (graph.eraseNode id) = Function.update (readNode graph) id nodeNotFound := by
  ext1 other
  by_cases here : other = id
  · subst here
    simp [readNode,PropertyGraph.eraseNode]
  · simp [readNode,PropertyGraph.eraseNode,here]

theorem readEdge_add (edge : PropertyGraph.Edge NodeId EdgeId EdgeData) (unused : edge.id ∉ graph.ids) :
    readEdge (graph.addEdge edge) =
      Function.update (readEdge graph) edge.id (.ok (edgeRecord edge,edge.data.properties)) := by
  ext1 other
  rw [readEdge,graph.addEdge_finds edge unused]
  by_cases here : other = edge.id
  · subst here
    simp
  · simp [readEdge,here]

theorem readEdge_change (id : EdgeId) (properties : List Property)
    (edge : PropertyGraph.Edge NodeId EdgeId EdgeData) (found : graph.edge? id = some edge) :
    readEdge (graph.changeEdge id fun data => {data with properties := properties}) =
      Function.update (readEdge graph) id (.ok
        ({edgeRecord edge with propertyCount := UInt32.ofNat properties.length},properties)) := by
  ext1 other
  rw [readEdge]
  by_cases here : other = id
  · subst here
    obtain ⟨_,named⟩ := (graph.edge?_some other edge).mp found
    simp [graph.changeEdge_finds,found,PropertyGraph.changed,named,edgeRecord]
  · rw [graph.changeEdge_other id _ other here,Function.update_of_ne here,readEdge]

theorem readEdge_erase (id : EdgeId) :
    readEdge (graph.eraseEdge id) = Function.update (readEdge graph) id edgeNotFound := by
  ext1 other
  rw [readEdge,graph.eraseEdge_finds]
  by_cases here : other = id
  · subst here
    simp
  · simp [readEdge,here]

end Readings

structure Represents (store : GraphStore FilePageStore) (model : CountedGraph) : Prop where
  tells : Tells store (readNode model.graph) (readEdge model.graph)
  nodeIds : store.nextNodeId = model.nextNodeId
  edgeIds : store.nextEdgeId = model.nextEdgeId
  outgoing : ∀ node, store.outgoingEdges node = model.graph.attached .source node
  incoming : ∀ node, store.incomingEdges node = model.graph.attached .target node
  issued : ∀ id ∈ model.graph.ids, id < model.nextEdgeId
  few : model.graph.edges.length < model.nextEdgeId.toNat
  count : store.edgeCount.toNat = model.graph.edges.length

variable {store : GraphStore FilePageStore} {model : CountedGraph}

/-- The store answers as the graph does and goes on representing it. -/
def Simulates (hash : Bytes → UInt64) (store : GraphStore FilePageStore) (model : CountedGraph)
    (operation : Operation) : Prop :=
  answer hash store operation = model.answer operation ∧
    Represents (plain hash store operation) (model.step hash operation)

theorem createNode_simulates (hash : Bytes → UInt64) (properties : List Property)
    (represents : Represents store model) (fits : Fits hash store (.createNode properties)) :
    Simulates hash store model (.createNode properties) := by
  obtain ⟨tells,nodeIds,edgeIds,outgoing,incoming,issued,few,count⟩ := represents
  obtain ⟨pages,index,stored,later⟩ := storeNodeRecord_tells store.nextNodeId
    (nodeRecord store.nextNodeId properties) properties
    (tells.congr {store with nextNodeId := store.nextNodeId + 1} rfl rfl rfl)
    (fits.2 _ rfl)
  have created : createNode properties store = (.ok store.nextNodeId,{store with
      nextNodeId := store.nextNodeId + 1
      pageStore := pages
      nodePageIndex := index
      nodeCount := store.nodeCount + 1}) := by
    unfold createNode
    dsimp only
    rw [show ({id := store.nextNodeId, propertyCount := UInt32.ofNat properties.length} : NodeRecord) =
      nodeRecord store.nextNodeId properties from rfl,stored]
  unfold Simulates answer plain
  dsimp only
  rw [created]
  refine ⟨congrArg _ nodeIds,?_,?_,edgeIds,outgoing,incoming,issued,few,count⟩
  · simp only [CountedGraph.step,readNode_set,← nodeIds]
    exact later.congr _ rfl rfl rfl
  · simp only [CountedGraph.step,nodeIds]

theorem updateNode_simulates (hash : Bytes → UInt64) (id : NodeId) (properties : List Property)
    (represents : Represents store model) (fits : Fits hash store (.updateNode id properties)) :
    Simulates hash store model (.updateNode id properties) := by
  have read := getNode_tells represents.tells id
  unfold Simulates answer plain CountedGraph.answer CountedGraph.step updateNode
  dsimp only
  cases held : model.graph.nodes id with
  | none =>
    have missing : readNode model.graph id = nodeNotFound := by rw [readNode,held]; rfl
    rw [missing] at read
    rw [read,missing,if_pos rfl]
    exact ⟨rfl,represents⟩
  | some old =>
    have present : readNode model.graph id = .ok (nodeRecord id old,old) := by rw [readNode,held]; rfl
    rw [present] at read
    have room := fits.2
    simp only [serialized,read] at room
    obtain ⟨pages,index,stored,later⟩ := storeNodeRecord_tells id
      {nodeRecord id old with propertyCount := UInt32.ofNat properties.length} properties
      represents.tells (room _ rfl)
    obtain ⟨tells,nodeIds,edgeIds,outgoing,incoming,issued,few,count⟩ := represents
    rw [read,present,if_neg (Option.some_ne_none old)]
    dsimp only
    rw [stored]
    refine ⟨rfl,?_,nodeIds,edgeIds,outgoing,incoming,issued,few,count⟩
    rw [readNode_set]
    exact later

theorem deleteNode_simulates (hash : Bytes → UInt64) (id : NodeId)
    (represents : Represents store model) : Simulates hash store model (.deleteNode id) := by
  have outgoing := represents.outgoing id
  have incoming := represents.incoming id
  unfold Simulates answer plain CountedGraph.answer CountedGraph.step deleteNode getOutgoingEdges
    getIncomingEdges
  dsimp only
  rw [outgoing,incoming]
  by_cases begins : model.graph.attached .source id = []
  · by_cases ends : model.graph.attached .target id = []
    · obtain ⟨tells,nodeIds,edgeIds,outgoing,incoming,issued,few,count⟩ := represents
      simp only [begins,ends,ne_eq,not_true_eq_false,or_self,reduceIte]
      refine ⟨rfl,?_,nodeIds,edgeIds,fun node => ?_,fun node => ?_,issued,few,count⟩
      · rw [readNode_erase]
        exact (dropNode_tells id tells).congr _ rfl rfl rfl
      · by_cases here : node = id
        · subst here
          exact (Function.update_self ..).trans begins.symm
        · exact (Function.update_of_ne here _ _).trans (outgoing node)
      · by_cases here : node = id
        · subst here
          exact (Function.update_self ..).trans ends.symm
        · exact (Function.update_of_ne here _ _).trans (incoming node)
    · simp only [begins,ends,ne_eq,not_true_eq_false,not_false_eq_true,or_true,reduceIte]
      exact ⟨rfl,represents⟩
  · simp only [begins,ne_eq,not_false_eq_true,true_or,reduceIte]
    exact ⟨rfl,represents⟩

theorem next_toNat (id : UInt64) (counts : id + 1 ≠ 0) : (id + 1).toNat = id.toNat + 1 := by
  have bound := id.toNat_lt
  have nonzero : (id + 1).toNat ≠ 0 := fun same => counts (UInt64.toNat_inj.mp same)
  rw [UInt64.toNat_add] at nonzero ⊢
  simp only [UInt64.reduceToNat] at nonzero ⊢
  omega

theorem unissued (represents : Represents store model) : model.nextEdgeId ∉ model.graph.ids :=
  fun member => UInt64.lt_irrefl _ (represents.issued _ member)

theorem linked_lists (graph : Graph) (tip : PropertyGraph.End) (lists : NodeId → List EdgeId)
    (same : ∀ node, lists node = graph.attached tip node)
    (edge : PropertyGraph.Edge NodeId EdgeId EdgeData) (unused : edge.id ∉ graph.ids) (node : NodeId) :
    Function.update lists (edge.at tip) (lists (edge.at tip) ++ [edge.id]) node =
      (graph.addEdge edge).attached tip node := by
  rw [graph.addEdge_attached tip node edge unused]
  by_cases here : node = edge.at tip
  · subst here
    rw [Function.update_self,same,if_pos rfl]
  · rw [Function.update_of_ne here,same,if_neg (Ne.symm here),List.append_nil]

theorem unlinked_lists (graph : Graph) (tip : PropertyGraph.End) (lists : NodeId → List EdgeId)
    (same : ∀ node, lists node = graph.attached tip node) (id : EdgeId)
    (edge : PropertyGraph.Edge NodeId EdgeId EdgeData) (found : graph.edge? id = some edge)
    (node : NodeId) :
    Function.update lists (edge.at tip) ((lists (edge.at tip)).filter fun other => other != id) node =
      (graph.eraseEdge id).attached tip node := by
  by_cases here : node = edge.at tip
  · subst here
    rw [Function.update_self,same,graph.eraseEdge_attached]
  · rw [Function.update_of_ne here,same,
      graph.eraseEdge_apart tip node id edge found (Ne.symm here)]

theorem createEdge_simulates (hash : Bytes → UInt64) (clock : UInt64) (fromNode toNode : NodeId)
    (label : Bytes) (properties : List Property) (represents : Represents store model)
    (fits : Fits hash store (.createEdge clock fromNode toNode label properties)) :
    Simulates hash store model (.createEdge clock fromNode toNode label properties) := by
  have unused := unissued represents
  obtain ⟨tells,nodeIds,edgeIds,outgoing,incoming,issued,few,count⟩ := represents
  obtain ⟨counts,room⟩ := fits
  change store.nextEdgeId + 1 ≠ 0 at counts
  let edge : PropertyGraph.Edge NodeId EdgeId EdgeData := {
    id := model.nextEdgeId
    source := fromNode
    target := toNode
    data := {labelId := (hash label).toUInt32, timestamp := clock, properties := properties}}
  obtain ⟨pages,index,stored,later⟩ := storeEdgeRecord_tells model.nextEdgeId (edgeRecord edge)
    properties (tells.congr {store with nextEdgeId := model.nextEdgeId + 1} rfl rfl rfl)
    (room _ (by rw [serialized,edgeIds]; rfl))
  have created : createEdge hash clock fromNode toNode label properties store =
      (.ok model.nextEdgeId,{store with
        nextEdgeId := model.nextEdgeId + 1
        pageStore := pages
        edgePageIndex := index
        outgoingEdges := Function.update store.outgoingEdges fromNode
          (store.outgoingEdges fromNode ++ [model.nextEdgeId])
        incomingEdges := Function.update store.incomingEdges toNode
          (store.incomingEdges toNode ++ [model.nextEdgeId])
        edgeCount := store.edgeCount + 1}) := by
    unfold edgeRecord at stored
    unfold createEdge
    dsimp only
    rw [edgeIds,stored]
    rfl
  have next := next_toNat model.nextEdgeId (edgeIds ▸ counts)
  have bound := (model.nextEdgeId).toNat_lt
  have ids : (model.graph.addEdge edge).ids = model.graph.ids ++ [model.nextEdgeId] := by
    rw [PropertyGraph.ids,model.graph.addEdge_edges edge unused,List.map_append]
    rfl
  have length : (model.graph.addEdge edge).edges.length = model.graph.edges.length + 1 := by
    rw [model.graph.addEdge_edges edge unused,List.length_append,List.length_singleton]
  unfold Simulates answer plain
  dsimp only
  rw [created]
  refine ⟨rfl,?_,nodeIds,rfl,fun node => ?_,fun node => ?_,fun id member => ?_,?_,?_⟩
  · simp only [CountedGraph.step]
    rw [show readNode (model.graph.addEdge edge) = readNode model.graph from
      funext fun id => by rw [readNode,PropertyGraph.addEdge_nodes,readNode],
      readEdge_add model.graph edge unused]
    exact later.congr _ rfl rfl rfl
  · exact linked_lists model.graph .source store.outgoingEdges outgoing edge unused node
  · exact linked_lists model.graph .target store.incomingEdges incoming edge unused node
  · change id ∈ (model.graph.addEdge edge).ids at member
    change id < model.nextEdgeId + 1
    rw [ids] at member
    rw [UInt64.lt_iff_toNat_lt,next]
    rcases List.mem_append.mp member with old | new
    · have below := UInt64.lt_iff_toNat_lt.mp (issued id old)
      omega
    · rw [List.mem_singleton.mp new]
      omega
  · change (model.graph.addEdge edge).edges.length < (model.nextEdgeId + 1).toNat
    omega
  · change (store.edgeCount + 1).toNat = (model.graph.addEdge edge).edges.length
    rw [UInt64.toNat_add,count,length]
    simp only [UInt64.reduceToNat]
    omega

theorem updateEdge_simulates (hash : Bytes → UInt64) (id : EdgeId) (properties : List Property)
    (represents : Represents store model) (fits : Fits hash store (.updateEdge id properties)) :
    Simulates hash store model (.updateEdge id properties) := by
  have read := getEdge_tells represents.tells id
  unfold Simulates answer plain CountedGraph.answer CountedGraph.step updateEdge
  dsimp only
  cases held : model.graph.edge? id with
  | none =>
    have missing : readEdge model.graph id = edgeNotFound := by rw [readEdge,held]; rfl
    rw [missing] at read
    rw [read,missing,model.graph.changeEdge_absent id _ held]
    exact ⟨rfl,represents⟩
  | some edge =>
    have present : readEdge model.graph id = .ok (edgeRecord edge,edge.data.properties) := by
      rw [readEdge,held]
      rfl
    rw [present] at read
    have room := fits.2
    simp only [serialized,read] at room
    obtain ⟨pages,index,stored,later⟩ := storeEdgeRecord_tells id
      {edgeRecord edge with propertyCount := UInt32.ofNat properties.length} properties
      represents.tells (room _ rfl)
    obtain ⟨tells,nodeIds,edgeIds,outgoing,incoming,issued,few,count⟩ := represents
    rw [read,present]
    dsimp only
    rw [stored]
    have same (tip : PropertyGraph.End) (node : NodeId) := model.graph.changeEdge_attached tip node id
      fun data => {data with properties := properties}
    refine ⟨rfl,?_,nodeIds,edgeIds,fun node => (outgoing node).trans (same .source node).symm,
      fun node => (incoming node).trans (same .target node).symm,?_,?_,?_⟩
    · rw [readEdge_change model.graph id properties edge held]
      exact later
    · rw [model.graph.changeEdge_ids]
      exact issued
    · rw [model.graph.changeEdge_length]
      exact few
    · rw [model.graph.changeEdge_length]
      exact count

theorem deleteEdge_simulates (hash : Bytes → UInt64) (id : EdgeId)
    (represents : Represents store model) : Simulates hash store model (.deleteEdge id) := by
  have read := getEdge_tells represents.tells id
  unfold Simulates answer plain CountedGraph.answer CountedGraph.step deleteEdge
  dsimp only
  cases held : model.graph.edge? id with
  | none =>
    have missing : readEdge model.graph id = edgeNotFound := by rw [readEdge,held]; rfl
    rw [missing] at read
    rw [read,missing,model.graph.eraseEdge_absent id held]
    exact ⟨rfl,represents⟩
  | some edge =>
    have present : readEdge model.graph id = .ok (edgeRecord edge,edge.data.properties) := by
      rw [readEdge,held]
      rfl
    have member : id ∈ model.graph.ids := by
      obtain ⟨inside,named⟩ := (model.graph.edge?_some id edge).mp held
      exact named ▸ List.mem_map_of_mem inside
    have fewer := model.graph.eraseEdge_length id member
    rw [present] at read
    obtain ⟨tells,nodeIds,edgeIds,outgoing,incoming,issued,few,count⟩ := represents
    rw [read,present]
    refine ⟨rfl,?_,nodeIds,edgeIds,fun node => ?_,fun node => ?_,fun other listed => ?_,?_,?_⟩
    · rw [readEdge_erase]
      exact (dropEdge_tells id tells).congr _ rfl rfl rfl
    · exact unlinked_lists model.graph .source store.outgoingEdges outgoing id edge held node
    · exact unlinked_lists model.graph .target store.incomingEdges incoming id edge held node
    · rw [model.graph.eraseEdge_ids] at listed
      exact issued other (List.mem_filter.mp listed).1
    · change (model.graph.eraseEdge id).edges.length < model.nextEdgeId.toNat
      omega
    · change (store.edgeCount - 1).toNat = (model.graph.eraseEdge id).edges.length
      have held : 1 ≤ store.edgeCount := by
        rw [UInt64.le_iff_toNat_le]
        change 1 ≤ store.edgeCount.toNat
        omega
      rw [UInt64.toNat_sub_of_le _ _ held]
      change store.edgeCount.toNat - 1 = _
      omega

theorem step_simulates (hash : Bytes → UInt64) (operation : Operation)
    (represents : Represents store model) (fits : Fits hash store operation) :
    Simulates hash store model operation := by
  cases operation with
  | createNode properties => exact createNode_simulates hash properties represents fits
  | updateNode id properties => exact updateNode_simulates hash id properties represents fits
  | deleteNode id => exact deleteNode_simulates hash id represents
  | createEdge clock fromNode toNode label properties =>
    exact createEdge_simulates hash clock fromNode toNode label properties represents fits
  | updateEdge id properties => exact updateEdge_simulates hash id properties represents fits
  | deleteEdge id => exact deleteEdge_simulates hash id represents

theorem fresh_represents (mvcc : Option Transaction.MVCCManager) (wal : Option WALManager) :
    Represents (fresh mvcc wal) {} where
  tells := {
    isOpen := rfl
    placed := fun kind _ _ found => by cases kind <;> cases found
    nodes := fun _ => rfl
    edges := fun _ => rfl
    indexed := fun _ _ => rfl}
  nodeIds := rfl
  edgeIds := rfl
  outgoing _ := rfl
  incoming _ := rfl
  issued _ member := nomatch member
  few := by decide
  count := rfl

theorem run_represents (hash : Bytes → UInt64) (calls : List Operation)
    (represents : Represents store model) (fits : Guarded (plain hash) (Fits hash) store calls) :
    Represents (run (plain hash) store calls) (run (CountedGraph.step hash) model calls) := by
  induction calls generalizing store model with
  | nil => exact represents
  | cons operation rest ih =>
    exact ih (step_simulates hash operation represents fits.1).2 fits.2

/-- Whatever calls were made, the reads and the answers are those of the property graph. -/
theorem graph_refined (hash : Bytes → UInt64) (mvcc : Option Transaction.MVCCManager)
    (wal : Option WALManager) (calls : List Operation)
    (fits : Guarded (plain hash) (Fits hash) (fresh mvcc wal) calls) :
    let reached := run (plain hash) (fresh mvcc wal)
    let model := run (CountedGraph.step hash) {}
    (∀ id, (getNode id (reached calls)).1 = readNode (model calls).graph id) ∧
      (∀ id, (getEdge id (reached calls)).1 = readEdge (model calls).graph id) ∧
      ∀ front operation rest, calls = front ++ operation::rest →
        answer hash (reached front) operation = (model front).answer operation := by
  intro reached model
  have final := run_represents hash calls (fresh_represents mvcc wal) fits
  refine ⟨final.tells.nodes,final.tells.edges,fun front operation rest split => ?_⟩
  rw [split,guarded_append] at fits
  have before := run_represents hash front (fresh_represents mvcc wal) fits.1
  exact (step_simulates hash operation before fits.2.1).1

/-- Whether a call fits can be told from the graph alone: the fixed part of a record has 48
bytes, as the header of its page. -/
def Short (model : CountedGraph) (operation : Operation) : Prop :=
  Counts model.nextNodeId model.nextEdgeId operation ∧
    (serializeProperties (properties operation)).length ≤ pageSize - 96

instance (model : CountedGraph) (operation : Operation) : Decidable (Short model operation) :=
  inferInstanceAs (Decidable (_ ∧ _))

theorem short_fits (hash : Bytes → UInt64) (operation : Operation)
    (represents : Represents store model) (short : Short model operation) :
    Fits hash store operation := by
  obtain ⟨counts,size⟩ := short
  unfold pageSize at size
  have node (record : NodeRecord) (properties : List Property)
      (small : (serializeProperties properties).length ≤ 4096 - 96) :
      FitsPage (serializeNode record properties) := by
    rw [FitsPage,serializeNode,List.length_append,nodeBytes_length,pageSize]
    omega
  have edge (record : EdgeRecord) (properties : List Property)
      (small : (serializeProperties properties).length ≤ 4096 - 96) :
      FitsPage (serializeEdge record properties) := by
    rw [FitsPage,serializeEdge,List.length_append,edgeBytes_length,pageSize]
    omega
  refine ⟨by rwa [represents.nodeIds,represents.edgeIds],fun bytes stored => ?_⟩
  cases operation with
  | createNode properties =>
    cases stored
    exact node _ properties size
  | updateNode id properties =>
    obtain ⟨record,_,rfl⟩ := Option.map_eq_some_iff.mp stored
    exact node _ properties size
  | deleteNode id => cases stored
  | createEdge clock fromNode toNode label properties =>
    cases stored
    exact edge _ properties size
  | updateEdge id properties =>
    obtain ⟨record,_,rfl⟩ := Option.map_eq_some_iff.mp stored
    exact edge _ properties size
  | deleteEdge id => cases stored

theorem short_guarded (hash : Bytes → UInt64) (calls : List Operation)
    (represents : Represents store model) (short : Guarded (CountedGraph.step hash) Short model calls) :
    Guarded (plain hash) (Fits hash) store calls := by
  induction calls generalizing store model with
  | nil => trivial
  | cons operation rest ih =>
    have fits := short_fits hash operation represents short.1
    exact ⟨fits,ih (step_simulates hash operation represents fits).2 short.2⟩

/-- An edge that is updated twice, and one that is deleted. -/
def edited : List Operation := [
  .createNode [],
  .createEdge 5 1 1 [108] [⟨[107],.boolean true⟩],
  .updateEdge 1 [⟨[107],.integer (-7)⟩],
  .updateEdge 1 [⟨[107],.string [97]⟩,⟨[107],.bytes []⟩],
  .createEdge 6 1 2 [] [],
  .deleteEdge 2]

theorem graph_refined_edited :
    let reached := run (plain fun text => UInt64.ofNat text.length) (fresh none none) edited
    (getEdge 1 reached).1 = .ok ({
      id := 1
      fromNode := 1
      toNode := 1
      labelId := 1
      propertyCount := 2
      timestamp := 5},[⟨[107],.string [97]⟩,⟨[107],.bytes []⟩]) ∧
    (getEdge 2 reached).1 = .error ⟨.notFound,"Edge not found"⟩ := by
  have fits := short_guarded (fun text => UInt64.ofNat text.length) edited
    (fresh_represents none none) (by decide +kernel)
  obtain ⟨_,edges,_⟩ := graph_refined _ none none edited fits
  exact ⟨(edges 1).trans (by decide +kernel),(edges 2).trans (by decide +kernel)⟩

end LoreDB.Storage.GraphRefinement
