import LoreDB.Query.AdjacentNodes

/-! The adjacency lists of the index manager, which keeps the ends of the edges beside them. Where the creations
and deletions of edges in a graph store are repeated on them, both find the same edges and the same adjacent
nodes. -/
namespace LoreDB.Query.MirroredAdjacency
open LoreDB.Storage LoreDB.Library LoreDB.Library.History GraphStore GraphHistory GraphRefinement

/-! The maps of the index manager under its adjacency lock. -/

structure AdjacencyIndex where
  outgoingAdjacency : NodeId → List EdgeId := fun _ => []
  incomingAdjacency : NodeId → List EdgeId := fun _ => []
  edgeEndpoints : EdgeId → Option (NodeId × NodeId) := fun _ => none

namespace AdjacencyIndex

def addEdgeToAdjacency (fromNode toNode : NodeId) (edgeId : EdgeId) (index : AdjacencyIndex) : AdjacencyIndex where
  outgoingAdjacency :=
    Function.update index.outgoingAdjacency fromNode (index.outgoingAdjacency fromNode ++ [edgeId])
  incomingAdjacency :=
    Function.update index.incomingAdjacency toNode (index.incomingAdjacency toNode ++ [edgeId])
  edgeEndpoints := Function.update index.edgeEndpoints edgeId (some (fromNode,toNode))

def removeEdgeFromAdjacency (fromNode toNode : NodeId) (edgeId : EdgeId) (index : AdjacencyIndex) :
    AdjacencyIndex where
  outgoingAdjacency := Function.update index.outgoingAdjacency fromNode
    ((index.outgoingAdjacency fromNode).filter fun other => other != edgeId)
  incomingAdjacency := Function.update index.incomingAdjacency toNode
    ((index.incomingAdjacency toNode).filter fun other => other != edgeId)
  edgeEndpoints := Function.update index.edgeEndpoints edgeId none

def getOutgoingEdges (nodeId : NodeId) (index : AdjacencyIndex) : List EdgeId := index.outgoingAdjacency nodeId

def getIncomingEdges (nodeId : NodeId) (index : AdjacencyIndex) : List EdgeId := index.incomingAdjacency nodeId

/-- The other ends of edges, as far as their ends are known. -/
def collect (nodeId : NodeId) (edges : List EdgeId) (index : AdjacencyIndex) : List NodeId :=
  edges.filterMap fun edgeId => (index.edgeEndpoints edgeId).map fun (fromNode,toNode) =>
    if fromNode = nodeId then toNode else fromNode

def getAdjacentNodes (nodeId : NodeId) (index : AdjacencyIndex) : List NodeId :=
  let adjacent := index.collect nodeId (index.outgoingAdjacency nodeId) ++
    index.collect nodeId (index.incomingAdjacency nodeId)
  (adjacent.insertionSort (· ≤ ·)).destutter (· ≠ ·)

end AdjacencyIndex

/-! The index goes along with a store. -/

/-- A created edge is added under its ends, and a deleted one removed under those that it had. -/
def mirror (hash : Bytes → UInt64) (store : GraphStore FilePageStore) (index : AdjacencyIndex) :
    Operation → AdjacencyIndex
  | .createEdge clock fromNode toNode label properties =>
    match answer hash store (.createEdge clock fromNode toNode label properties) with
    | .ok edgeId => index.addEdgeToAdjacency fromNode toNode edgeId
    | .error _ => index
  | .deleteEdge edgeId =>
    match (getEdge edgeId store).1,answer hash store (.deleteEdge edgeId) with
    | .ok (edge,_),.ok _ => index.removeEdgeFromAdjacency edge.fromNode edge.toNode edgeId
    | _,_ => index
  | .createNode _ | .updateNode _ _ | .deleteNode _ | .updateEdge _ _ => index

structure Mirrored where
  store : GraphStore FilePageStore
  index : AdjacencyIndex := {}

def step (hash : Bytes → UInt64) (mirrored : Mirrored) (operation : Operation) : Mirrored where
  store := plain hash mirrored.store operation
  index := mirror hash mirrored.store mirrored.index operation

/-- The index tells the edges of a graph. -/
structure Indexes (index : AdjacencyIndex) (graph : Graph) : Prop where
  outgoing : ∀ node, index.outgoingAdjacency node = graph.attached .source node
  incoming : ∀ node, index.incomingAdjacency node = graph.attached .target node
  endpoints : ∀ id, index.edgeEndpoints id = (graph.edge? id).map fun edge => (edge.source,edge.target)

variable {store : GraphStore FilePageStore} {model : CountedGraph} {index : AdjacencyIndex}

theorem createEdge_mirrored (hash : Bytes → UInt64) (clock : UInt64) (fromNode toNode : NodeId) (label : Bytes)
    (properties : List Property) (represents : Represents store model)
    (fits : Fits hash store (.createEdge clock fromNode toNode label properties))
    (indexes : Indexes index model.graph) :
    Indexes (mirror hash store index (.createEdge clock fromNode toNode label properties))
      (model.step hash (.createEdge clock fromNode toNode label properties)).graph := by
  have unused := unissued represents
  have answered := (createEdge_simulates hash clock fromNode toNode label properties represents fits).1
  unfold mirror
  dsimp only
  rw [answered]
  unfold CountedGraph.answer CountedGraph.step
  dsimp only
  generalize made : ({
    id := model.nextEdgeId
    source := fromNode
    target := toNode
    data := {labelId := (hash label).toUInt32, timestamp := clock, properties := properties}} :
      PropertyGraph.Edge NodeId EdgeId EdgeData) = edge
  have named : edge.id = model.nextEdgeId := by rw [← made]
  refine ⟨fun node => ?_,fun node => ?_,fun id => ?_⟩
  · rw [← linked_lists model.graph .source index.outgoingAdjacency indexes.outgoing edge (named ▸ unused) node,
      ← made]
    rfl
  · rw [← linked_lists model.graph .target index.incomingAdjacency indexes.incoming edge (named ▸ unused) node,
      ← made]
    rfl
  · rw [model.graph.addEdge_finds edge (named ▸ unused)]
    change Function.update index.edgeEndpoints model.nextEdgeId (some (fromNode,toNode)) id = _
    by_cases here : id = model.nextEdgeId
    · subst here
      rw [Function.update_self,← made]
      simp
    · rw [Function.update_of_ne here,indexes.endpoints,if_neg (named ▸ here)]

theorem deleteEdge_mirrored (hash : Bytes → UInt64) (id : EdgeId) (represents : Represents store model)
    (indexes : Indexes index model.graph) :
    Indexes (mirror hash store index (.deleteEdge id)) (model.step hash (.deleteEdge id)).graph := by
  have answered := (deleteEdge_simulates hash id represents).1
  have read := represents.tells.edges id
  unfold mirror CountedGraph.step
  dsimp only
  rw [answered,read]
  unfold CountedGraph.answer readEdge
  dsimp only
  cases held : model.graph.edge? id with
  | none =>
    rw [model.graph.eraseEdge_absent id held]
    exact indexes
  | some edge =>
    refine ⟨?_,?_,fun other => ?_⟩
    · exact unlinked_lists model.graph .source index.outgoingAdjacency indexes.outgoing id edge held
    · exact unlinked_lists model.graph .target index.incomingAdjacency indexes.incoming id edge held
    · rw [model.graph.eraseEdge_finds]
      change Function.update index.edgeEndpoints id none other = _
      by_cases here : other = id
      · subst here
        rw [Function.update_self,if_pos rfl]
        rfl
      · rw [Function.update_of_ne here,if_neg here,indexes.endpoints]

theorem updateEdge_mirrored (id : EdgeId) (change : EdgeData → EdgeData) (graph : Graph)
    (indexes : Indexes index graph) : Indexes index (graph.changeEdge id change) where
  outgoing node := (indexes.outgoing node).trans (graph.changeEdge_attached .source node id change).symm
  incoming node := (indexes.incoming node).trans (graph.changeEdge_attached .target node id change).symm
  endpoints other := by
    rw [indexes.endpoints,graph.changeEdge_finds]
    cases graph.edge? other with
    | none => rfl
    | some edge =>
      have source := PropertyGraph.changed_at id change edge .source
      have target := PropertyGraph.changed_at id change edge .target
      exact congrArg some (Prod.ext source.symm target.symm)

theorem step_mirrored (hash : Bytes → UInt64) (operation : Operation) (represents : Represents store model)
    (fits : Fits hash store operation) (indexes : Indexes index model.graph) :
    Indexes (mirror hash store index operation) (model.step hash operation).graph := by
  cases operation with
  | createNode properties => exact ⟨indexes.outgoing,indexes.incoming,indexes.endpoints⟩
  | updateNode id properties =>
    unfold CountedGraph.step
    dsimp only
    split
    · exact indexes
    · exact ⟨indexes.outgoing,indexes.incoming,indexes.endpoints⟩
  | deleteNode id =>
    unfold CountedGraph.step
    dsimp only
    split
    · exact indexes
    · exact ⟨indexes.outgoing,indexes.incoming,indexes.endpoints⟩
  | createEdge clock fromNode toNode label properties =>
    exact createEdge_mirrored hash clock fromNode toNode label properties represents fits indexes
  | updateEdge id properties => exact updateEdge_mirrored id _ model.graph indexes
  | deleteEdge id => exact deleteEdge_mirrored hash id represents indexes

theorem run_mirrored (hash : Bytes → UInt64) (calls : List Operation) (represents : Represents store model)
    (fits : Guarded (plain hash) (Fits hash) store calls) (indexes : Indexes index model.graph) :
    (run (step hash) ⟨store,index⟩ calls).store = run (plain hash) store calls ∧
      Indexes (run (step hash) ⟨store,index⟩ calls).index (run (CountedGraph.step hash) model calls).graph := by
  induction calls generalizing store model index with
  | nil => exact ⟨rfl,indexes⟩
  | cons operation rest ih =>
    exact ih (step_simulates hash operation represents fits.1).2 fits.2
      (step_mirrored hash operation represents fits.1 indexes)

/-! Both sides tell the other ends of the same edges. -/

theorem collect_tips (represents : Represents store model) (indexes : Indexes index model.graph) (node : NodeId)
    (tip : PropertyGraph.End) (other : EdgeRecord → NodeId)
    (across : ∀ edge : PropertyGraph.Edge NodeId EdgeId EdgeData, edge.at tip = node →
      other (edgeRecord edge) = if edge.source = node then edge.target else edge.source) :
    QueryExecutor.tips other (model.graph.attached tip node) store =
      index.collect node (model.graph.attached tip node) := by
  refine List.filterMap_congr fun id listed => ?_
  obtain ⟨edge,found,ends⟩ := (PropertyGraph.attached_mem tip node model.graph id).mp listed
  rw [represents.tells.edges,readEdge,indexes.endpoints,found]
  exact congrArg some (across edge ends)

theorem adjacent_same (represents : Represents store model) (indexes : Indexes index model.graph) (node : NodeId) :
    QueryExecutor.getAdjacentNodes node store = index.getAdjacentNodes node := by
  have outgoing := collect_tips represents indexes node .source EdgeRecord.toNode fun edge ends =>
    (if_pos ends).symm
  have incoming := collect_tips represents indexes node .target EdgeRecord.fromNode fun edge ends => by
    by_cases loop : edge.source = node
    · rw [if_pos loop]
      exact loop.trans ends.symm
    · rw [if_neg loop]
      rfl
  unfold QueryExecutor.getAdjacentNodes AdjacencyIndex.getAdjacentNodes getOutgoingEdges getIncomingEdges
  rw [represents.outgoing,represents.incoming,indexes.outgoing,indexes.incoming,outgoing,incoming]

theorem tips_mem (represents : Represents store model) (tip : PropertyGraph.End) (other : EdgeRecord → NodeId)
    (node next : NodeId) :
    next ∈ QueryExecutor.tips other (model.graph.attached tip node) store ↔
      ∃ id edge, model.graph.edge? id = some edge ∧ edge.at tip = node ∧ other (edgeRecord edge) = next := by
  rw [QueryExecutor.mem_tips]
  constructor
  · rintro ⟨id,listed,found,read,rfl⟩
    obtain ⟨edge,held,ends⟩ := (PropertyGraph.attached_mem tip node model.graph id).mp listed
    rw [represents.tells.edges,readEdge,held] at read
    cases read
    exact ⟨id,edge,held,ends,rfl⟩
  · rintro ⟨id,edge,held,ends,rfl⟩
    refine ⟨id,(PropertyGraph.attached_mem tip node model.graph id).mpr ⟨edge,held,ends⟩,
      (edgeRecord edge,edge.data.properties),?_,rfl⟩
    rw [represents.tells.edges,readEdge,held]
    rfl

/-- Adjacent nodes are the two ends of an edge. -/
theorem adjacent_mem (represents : Represents store model) (node next : NodeId) :
    next ∈ QueryExecutor.getAdjacentNodes node store ↔ ∃ id edge, model.graph.edge? id = some edge ∧
      (edge.source = node ∧ edge.target = next ∨ edge.source = next ∧ edge.target = node) := by
  unfold QueryExecutor.getAdjacentNodes getOutgoingEdges getIncomingEdges
  rw [QueryExecutor.sorted_nodes,List.mem_dedup,List.mem_insertionSort,List.mem_append,represents.outgoing,
    represents.incoming,tips_mem represents,tips_mem represents]
  constructor
  · rintro (⟨id,edge,held,leaves,ends⟩ | ⟨id,edge,held,arrives,begins⟩)
    · exact ⟨id,edge,held,.inl ⟨leaves,ends⟩⟩
    · exact ⟨id,edge,held,.inr ⟨begins,arrives⟩⟩
  · rintro ⟨id,edge,held,⟨leaves,ends⟩ | ⟨begins,arrives⟩⟩
    · exact .inl ⟨id,edge,held,leaves,ends⟩
    · exact .inr ⟨id,edge,held,arrives,begins⟩

/-- Whatever operations are mirrored, the index and the store list the same edges and the same adjacent nodes,
and adjacency goes both ways. -/
theorem adjacency_mirrored (hash : Bytes → UInt64) (mvcc : Option Transaction.MVCCManager)
    (wal : Option WALManager) (calls : List Operation)
    (fits : Guarded (plain hash) (Fits hash) (fresh mvcc wal) calls) :
    let reached := run (step hash) {store := fresh mvcc wal} calls
    (∀ node, reached.index.getOutgoingEdges node = reached.store.getOutgoingEdges node ∧
      reached.index.getIncomingEdges node = reached.store.getIncomingEdges node ∧
      reached.index.getAdjacentNodes node = QueryExecutor.getAdjacentNodes node reached.store) ∧
    ∀ u v, v ∈ QueryExecutor.getAdjacentNodes u reached.store ↔
      u ∈ QueryExecutor.getAdjacentNodes v reached.store := by
  intro reached
  have start : Indexes {} ({} : CountedGraph).graph := ⟨fun _ => rfl,fun _ => rfl,fun _ => rfl⟩
  have final := run_represents hash calls (fresh_represents mvcc wal) fits
  obtain ⟨same,indexes⟩ := run_mirrored hash calls (fresh_represents mvcc wal) fits start
  rw [← same] at final
  refine ⟨fun node => ⟨?_,?_,(adjacent_same final indexes node).symm⟩,fun u v => ?_⟩
  · exact (indexes.outgoing node).trans (final.outgoing node).symm
  · exact (indexes.incoming node).trans (final.incoming node).symm
  · rw [adjacent_mem final,adjacent_mem final]
    exact exists_congr fun id => exists_congr fun edge => and_congr_right fun _ => or_comm

/-- A loop, two parallel edges of which one goes again, and an update. -/
def looped : List Operation := [
  .createNode [],
  .createNode [],
  .createEdge 1 1 1 [] [],
  .createEdge 2 1 2 [] [],
  .createEdge 3 1 2 [] [],
  .updateEdge 3 [⟨[107],.boolean true⟩],
  .deleteEdge 2]

theorem adjacency_mirrored_looped :
    let hash : Bytes → UInt64 := fun text => UInt64.ofNat text.length
    let reached := run (step hash) {store := fresh none none} looped
    (∀ node, reached.index.getOutgoingEdges node = reached.store.getOutgoingEdges node ∧
      reached.index.getIncomingEdges node = reached.store.getIncomingEdges node ∧
      reached.index.getAdjacentNodes node = QueryExecutor.getAdjacentNodes node reached.store) ∧
    ∀ u v, v ∈ QueryExecutor.getAdjacentNodes u reached.store ↔
      u ∈ QueryExecutor.getAdjacentNodes v reached.store :=
  adjacency_mirrored (fun text => UInt64.ofNat text.length) none none looped
    (short_guarded _ looped (fresh_represents none none) (by decide +kernel))

end LoreDB.Query.MirroredAdjacency
