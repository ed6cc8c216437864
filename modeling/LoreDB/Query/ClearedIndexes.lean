import LoreDB.Library.ListTable
import LoreDB.Query.MirroredAdjacency
import LoreDB.Storage.SimpleIndexManager

/-! All tables of the index manager, with their entries. A call that clears them leaves the ends of the edges
where they are. Nobody finds these, since an edge is listed again only by a call that also gives it new ends. -/
namespace LoreDB.Query.ClearedIndexes
open LoreDB.Storage LoreDB.Library LoreDB.Library.History LoreDB.Query.MirroredAdjacency

structure IndexTables where
  nodePropertyIndex : ListTable (Bytes × Bytes) NodeId := ∅
  edgePropertyIndex : ListTable (Bytes × Bytes) EdgeId := ∅
  outgoingAdjacency : ListTable NodeId EdgeId := ∅
  incomingAdjacency : ListTable NodeId EdgeId := ∅
  edgeEndpoints : EdgeId → Option (NodeId × NodeId) := fun _ => none

namespace IndexTables
open ListTable

def indexNodeProperty (nodeId : NodeId) (key value : Bytes) (index : IndexTables) : IndexTables :=
  {index with nodePropertyIndex := push (key,value) nodeId index.nodePropertyIndex}

def removeNodePropertyIndex (nodeId : NodeId) (key value : Bytes) (index : IndexTables) : IndexTables :=
  {index with nodePropertyIndex := siftEntry (fun id => id != nodeId) (key,value) index.nodePropertyIndex}

def findNodesByProperty (key value : Bytes) (index : IndexTables) : List NodeId :=
  listed (key,value) index.nodePropertyIndex

def indexEdgeProperty (edgeId : EdgeId) (key value : Bytes) (index : IndexTables) : IndexTables :=
  {index with edgePropertyIndex := push (key,value) edgeId index.edgePropertyIndex}

def removeEdgePropertyIndex (edgeId : EdgeId) (key value : Bytes) (index : IndexTables) : IndexTables :=
  {index with edgePropertyIndex := siftEntry (fun id => id != edgeId) (key,value) index.edgePropertyIndex}

def findEdgesByProperty (key value : Bytes) (index : IndexTables) : List EdgeId :=
  listed (key,value) index.edgePropertyIndex

def addEdgeToAdjacency (fromNode toNode : NodeId) (edgeId : EdgeId) (index : IndexTables) : IndexTables :=
  {index with
    outgoingAdjacency := push fromNode edgeId index.outgoingAdjacency
    incomingAdjacency := push toNode edgeId index.incomingAdjacency
    edgeEndpoints := Function.update index.edgeEndpoints edgeId (some (fromNode,toNode))}

def removeEdgeFromAdjacency (fromNode toNode : NodeId) (edgeId : EdgeId) (index : IndexTables) : IndexTables :=
  {index with
    outgoingAdjacency := sift (fun id => id != edgeId) fromNode index.outgoingAdjacency
    incomingAdjacency := sift (fun id => id != edgeId) toNode index.incomingAdjacency
    edgeEndpoints := Function.update index.edgeEndpoints edgeId none}

def getOutgoingEdges (nodeId : NodeId) (index : IndexTables) : List EdgeId := listed nodeId index.outgoingAdjacency

def getIncomingEdges (nodeId : NodeId) (index : IndexTables) : List EdgeId := listed nodeId index.incomingAdjacency

def collect (nodeId : NodeId) (edges : List EdgeId) (index : IndexTables) : List NodeId :=
  edges.filterMap fun edgeId => (index.edgeEndpoints edgeId).map fun (fromNode,toNode) =>
    if fromNode = nodeId then toNode else fromNode

def getAdjacentNodes (nodeId : NodeId) (index : IndexTables) : List NodeId :=
  let adjacent := index.collect nodeId (listed nodeId index.outgoingAdjacency) ++
    index.collect nodeId (listed nodeId index.incomingAdjacency)
  (adjacent.insertionSort (· ≤ ·)).destutter (· ≠ ·)

def getNodePropertyIndexSize (index : IndexTables) : ℕ := size index.nodePropertyIndex

def getEdgePropertyIndexSize (index : IndexTables) : ℕ := size index.edgePropertyIndex

def getAdjacencyListCount (index : IndexTables) : ℕ := size index.outgoingAdjacency + size index.incomingAdjacency

def clearAllIndexes (index : IndexTables) : IndexTables :=
  {index with
    nodePropertyIndex := ∅
    edgePropertyIndex := ∅
    outgoingAdjacency := ∅
    incomingAdjacency := ∅}

/-! The entries aside, these are the index of nodes by property and the adjacency lists. -/

def properties (index : IndexTables) : SimpleIndexManager where
  nodePropertyIndex key := listed key index.nodePropertyIndex

def adjacency (index : IndexTables) : AdjacencyIndex where
  outgoingAdjacency nodeId := listed nodeId index.outgoingAdjacency
  incomingAdjacency nodeId := listed nodeId index.incomingAdjacency
  edgeEndpoints := index.edgeEndpoints

theorem indexNodeProperty_properties (nodeId : NodeId) (key value : Bytes) (index : IndexTables) :
    (index.indexNodeProperty nodeId key value).properties =
      index.properties.indexNodeProperty nodeId key value := by
  simp only [properties,indexNodeProperty,SimpleIndexManager.indexNodeProperty,listed_push]

theorem findNodesByProperty_properties (key value : Bytes) (index : IndexTables) :
    index.findNodesByProperty key value = index.properties.findNodesByProperty key value := rfl

theorem addEdgeToAdjacency_adjacency (fromNode toNode : NodeId) (edgeId : EdgeId) (index : IndexTables) :
    (index.addEdgeToAdjacency fromNode toNode edgeId).adjacency =
      index.adjacency.addEdgeToAdjacency fromNode toNode edgeId := by
  simp only [adjacency,addEdgeToAdjacency,AdjacencyIndex.addEdgeToAdjacency,listed_push]

theorem removeEdgeFromAdjacency_adjacency (fromNode toNode : NodeId) (edgeId : EdgeId) (index : IndexTables) :
    (index.removeEdgeFromAdjacency fromNode toNode edgeId).adjacency =
      index.adjacency.removeEdgeFromAdjacency fromNode toNode edgeId := by
  simp only [adjacency,removeEdgeFromAdjacency,AdjacencyIndex.removeEdgeFromAdjacency,listed_sift]

theorem getAdjacentNodes_adjacency (nodeId : NodeId) (index : IndexTables) :
    index.getAdjacentNodes nodeId = index.adjacency.getAdjacentNodes nodeId := rfl

end IndexTables

inductive Call where
  | indexNodeProperty (nodeId : NodeId) (key value : Bytes)
  | removeNodePropertyIndex (nodeId : NodeId) (key value : Bytes)
  | indexEdgeProperty (edgeId : EdgeId) (key value : Bytes)
  | removeEdgePropertyIndex (edgeId : EdgeId) (key value : Bytes)
  | addEdgeToAdjacency (fromNode toNode : NodeId) (edgeId : EdgeId)
  | removeEdgeFromAdjacency (fromNode toNode : NodeId) (edgeId : EdgeId)
  | clearAllIndexes

def step (index : IndexTables) : Call → IndexTables
  | .indexNodeProperty nodeId key value => index.indexNodeProperty nodeId key value
  | .removeNodePropertyIndex nodeId key value => index.removeNodePropertyIndex nodeId key value
  | .indexEdgeProperty edgeId key value => index.indexEdgeProperty edgeId key value
  | .removeEdgePropertyIndex edgeId key value => index.removeEdgePropertyIndex edgeId key value
  | .addEdgeToAdjacency fromNode toNode edgeId => index.addEdgeToAdjacency fromNode toNode edgeId
  | .removeEdgeFromAdjacency fromNode toNode edgeId => index.removeEdgeFromAdjacency fromNode toNode edgeId
  | .clearAllIndexes => index.clearAllIndexes

/-- Nobody who asks can tell the two apart. -/
structure SameAnswers (first second : IndexTables) : Prop where
  nodes : ∀ key value, first.findNodesByProperty key value = second.findNodesByProperty key value
  edges : ∀ key value, first.findEdgesByProperty key value = second.findEdgesByProperty key value
  outgoing : ∀ nodeId, first.getOutgoingEdges nodeId = second.getOutgoingEdges nodeId
  incoming : ∀ nodeId, first.getIncomingEdges nodeId = second.getIncomingEdges nodeId
  adjacent : ∀ nodeId, first.getAdjacentNodes nodeId = second.getAdjacentNodes nodeId
  nodeEntries : first.getNodePropertyIndexSize = second.getNodePropertyIndexSize
  edgeEntries : first.getEdgePropertyIndexSize = second.getEdgePropertyIndexSize
  lists : first.getAdjacencyListCount = second.getAdjacencyListCount

/-- The two differ at most in the ends of edges that are in no list. -/
structure Alike (stale fresh : IndexTables) : Prop where
  nodes : stale.nodePropertyIndex = fresh.nodePropertyIndex
  edges : stale.edgePropertyIndex = fresh.edgePropertyIndex
  outgoing : stale.outgoingAdjacency = fresh.outgoingAdjacency
  incoming : stale.incomingAdjacency = fresh.incomingAdjacency
  ends : ∀ nodeId, ∀ edgeId, edgeId ∈ stale.getOutgoingEdges nodeId ∨ edgeId ∈ stale.getIncomingEdges nodeId →
    stale.edgeEndpoints edgeId = fresh.edgeEndpoints edgeId

theorem cleared_alike (first second : IndexTables) : Alike first.clearAllIndexes second.clearAllIndexes where
  nodes := rfl
  edges := rfl
  outgoing := rfl
  incoming := rfl
  ends nodeId edgeId among := by
    have none : edgeId ∉ ListTable.listed nodeId (∅ : ListTable NodeId EdgeId) := by
      rw [ListTable.listed_empty]
      exact List.not_mem_nil
    exact absurd among (not_or.mpr ⟨none,none⟩)

theorem step_alike (stale fresh : IndexTables) (call : Call) (alike : Alike stale fresh) :
    Alike (step stale call) (step fresh call) := by
  obtain ⟨nodes,edges,outgoing,incoming,ends⟩ := alike
  cases call with
  | indexNodeProperty nodeId key value =>
    exact ⟨congrArg (ListTable.push (key,value) nodeId) nodes,edges,outgoing,incoming,ends⟩
  | removeNodePropertyIndex nodeId key value =>
    exact ⟨congrArg (ListTable.siftEntry (fun id => id != nodeId) (key,value)) nodes,edges,outgoing,incoming,ends⟩
  | indexEdgeProperty edgeId key value =>
    exact ⟨nodes,congrArg (ListTable.push (key,value) edgeId) edges,outgoing,incoming,ends⟩
  | removeEdgePropertyIndex edgeId key value =>
    exact ⟨nodes,congrArg (ListTable.siftEntry (fun id => id != edgeId) (key,value)) edges,outgoing,incoming,ends⟩
  | addEdgeToAdjacency fromNode toNode edgeId =>
    refine ⟨nodes,edges,congrArg (ListTable.push fromNode edgeId) outgoing,
      congrArg (ListTable.push toNode edgeId) incoming,fun nodeId other among => ?_⟩
    change Function.update stale.edgeEndpoints edgeId _ other = Function.update fresh.edgeEndpoints edgeId _ other
    by_cases same : other = edgeId
    · rw [same,Function.update_self,Function.update_self]
    · rw [Function.update_of_ne same,Function.update_of_ne same]
      refine ends nodeId other (among.imp (fun member => ?_) fun member => ?_)
      · exact (ListTable.mem_push _ _ _ _ _ member).resolve_left same
      · exact (ListTable.mem_push _ _ _ _ _ member).resolve_left same
  | removeEdgeFromAdjacency fromNode toNode edgeId =>
    refine ⟨nodes,edges,congrArg (ListTable.sift (fun id => id != edgeId) fromNode) outgoing,
      congrArg (ListTable.sift (fun id => id != edgeId) toNode) incoming,fun nodeId other among => ?_⟩
    change Function.update stale.edgeEndpoints edgeId _ other = Function.update fresh.edgeEndpoints edgeId _ other
    by_cases same : other = edgeId
    · rw [same,Function.update_self,Function.update_self]
    · rw [Function.update_of_ne same,Function.update_of_ne same]
      refine ends nodeId other (among.imp (fun member => ?_) fun member => ?_)
      · exact ListTable.mem_sift _ _ _ _ _ member
      · exact ListTable.mem_sift _ _ _ _ _ member
  | clearAllIndexes => exact cleared_alike stale fresh

theorem run_alike (stale fresh : IndexTables) (calls : List Call) (alike : Alike stale fresh) :
    Alike (run step stale calls) (run step fresh calls) := by
  induction calls generalizing stale fresh with
  | nil => exact alike
  | cons call rest ih => exact ih _ _ (step_alike stale fresh call alike)

theorem collect_alike (stale fresh : IndexTables) (nodeId : NodeId) (edgeIds : List EdgeId)
    (ends : ∀ edgeId ∈ edgeIds, stale.edgeEndpoints edgeId = fresh.edgeEndpoints edgeId) :
    stale.collect nodeId edgeIds = fresh.collect nodeId edgeIds := by
  refine List.filterMap_congr fun edgeId member => ?_
  rw [ends edgeId member]

theorem alike_answers (stale fresh : IndexTables) (alike : Alike stale fresh) : SameAnswers stale fresh := by
  obtain ⟨nodes,edges,outgoing,incoming,ends⟩ := alike
  refine ⟨fun key value => congrArg (ListTable.listed (key,value)) nodes,
    fun key value => congrArg (ListTable.listed (key,value)) edges,
    fun nodeId => congrArg (ListTable.listed nodeId) outgoing,
    fun nodeId => congrArg (ListTable.listed nodeId) incoming,fun nodeId => ?_,
    congrArg ListTable.size nodes,congrArg ListTable.size edges,?_⟩
  · have leaving := collect_alike stale fresh nodeId _ fun edgeId member => ends nodeId edgeId (.inl member)
    have entering := collect_alike stale fresh nodeId _ fun edgeId member => ends nodeId edgeId (.inr member)
    rw [IndexTables.getOutgoingEdges] at leaving
    rw [IndexTables.getIncomingEdges] at entering
    unfold IndexTables.getAdjacentNodes
    rw [leaving,entering,outgoing,incoming]
  · rw [IndexTables.getAdjacencyListCount,IndexTables.getAdjacencyListCount,outgoing,incoming]

/-- Whatever was called before the indexes are cleared, they answer as new ones would after the same later
calls. -/
theorem cleared_afresh (earlier later : List Call) :
    SameAnswers (run step {} (earlier ++ .clearAllIndexes::later)) (run step {} later) := by
  rw [run_append,run_cons]
  exact alike_answers _ _ (run_alike _ {} later (cleared_alike _ {}))

end LoreDB.Query.ClearedIndexes
