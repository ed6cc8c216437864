import LoreDB.Query.ClearedIndexes
import LoreDB.Query.LimitedListings

/-! What the query executor puts into its results. It only reads, and where it has no transaction it reads the
property graph. -/
namespace LoreDB.Query
open LoreDB.Storage LoreDB.Library GraphStore GraphRefinement QueryExecutor LimitedListings ClearedIndexes Cypher

/-- All that the executor asks of a graph store. -/
structure Reads where
  getNode : NodeId → Except Error (NodeRecord × List Property)
  getEdge : EdgeId → Except Error (EdgeRecord × List Property)
  getOutgoingEdges : NodeId → List EdgeId
  getIncomingEdges : NodeId → List EdgeId
  nodeCount : UInt64
  edgeCount : UInt64

def storeReads (store : GraphStore FilePageStore) : Reads where
  getNode id := (GraphStore.getNode id store).1
  getEdge id := (GraphStore.getEdge id store).1
  getOutgoingEdges node := store.getOutgoingEdges node
  getIncomingEdges node := store.getIncomingEdges node
  nodeCount := store.nodeCount
  edgeCount := store.edgeCount

def graphReads (model : CountedGraph) (count : UInt64) : Reads where
  getNode := readNode model.graph
  getEdge := readEdge model.graph
  getOutgoingEdges node := model.graph.attached .source node
  getIncomingEdges node := model.graph.attached .target node
  nodeCount := count
  edgeCount := UInt64.ofNat model.graph.edges.length

theorem reads_represents {store : GraphStore FilePageStore} {model : CountedGraph} (represents : Represents store model)
    (count : UInt64) (counted : store.nodeCount = count) : storeReads store = graphReads model count := by
  have edges : store.edgeCount = UInt64.ofNat model.graph.edges.length := by
    rw [← represents.count,UInt64.ofNat_toNat]
  have found (id : EdgeId) : (GraphStore.getEdge id store).1 = readEdge model.graph id := represents.tells.edges id
  simp only [storeReads,graphReads,represents.tells.nodes,found,GraphStore.getOutgoingEdges,
    GraphStore.getIncomingEdges,represents.outgoing,represents.incoming,counted,edges]

namespace Reads

variable (reads : Reads)

def tips (tip : EdgeRecord → NodeId) (edges : List EdgeId) : List NodeId :=
  edges.filterMap fun edgeId => (reads.getEdge edgeId).toOption.map fun found => tip found.1

/-- The adjacent nodes that the store itself puts together. -/
def adjacentNodes (nodeId : NodeId) : List NodeId :=
  let adjacentNodes := reads.tips EdgeRecord.toNode (reads.getOutgoingEdges nodeId) ++
    reads.tips EdgeRecord.fromNode (reads.getIncomingEdges nodeId)
  (adjacentNodes.insertionSort (· ≤ ·)).destutter (· ≠ ·)

def number (value : UInt64) : Bytes := ascii (toString value.toNat)

/-- One column of ids. -/
def idsToResult (column : String) (ids : List UInt64) : QueryResult where
  columns := [ascii column]
  rows := ids.map fun id => [number id]

def edgesToResult (found : List (EdgeRecord × List Property)) : QueryResult where
  columns := [ascii "id",ascii "from_node",ascii "to_node",ascii "properties"]
  rows := found.map edgeRow

def getNodeById (nodeId : NodeId) : Except Error QueryResult :=
  (reads.getNode nodeId).map fun found => nodesToResult [found]

def getEdgeById (edgeId : EdgeId) : Except Error QueryResult :=
  (reads.getEdge edgeId).map fun found => edgesToResult [found]

def batchGetNodes (nodeIds : List NodeId) : QueryResult :=
  nodesToResult (nodeIds.filterMap fun nodeId => (reads.getNode nodeId).toOption)

def batchGetEdges (edgeIds : List EdgeId) : QueryResult :=
  edgesToResult (edgeIds.filterMap fun edgeId => (reads.getEdge edgeId).toOption)

def getNodesByProperty (key value : Bytes) (index : IndexTables) : QueryResult :=
  reads.batchGetNodes (index.findNodesByProperty key value)

def getEdgesByProperty (key value : Bytes) (index : IndexTables) : QueryResult :=
  reads.batchGetEdges (index.findEdgesByProperty key value)

def getAdjacentNodes (nodeId : NodeId) : QueryResult := idsToResult "node_id" (reads.adjacentNodes nodeId)

def getOutgoingEdgesOf (nodeId : NodeId) : QueryResult := idsToResult "edge_id" (reads.getOutgoingEdges nodeId)

def getIncomingEdgesOf (nodeId : NodeId) : QueryResult := idsToResult "edge_id" (reads.getIncomingEdges nodeId)

/-- The search for a path, with the adjacent nodes that it asks for. -/
def searchQueue (adjacent : NodeId → List NodeId) (fromNode toNode : NodeId) : ℕ → Search → Option (List NodeId)
  | 0, _ => none
  | rounds + 1, search =>
    match search.queue with
    | [] => some []
    | current :: queue =>
      match expand toNode current (adjacent current) {search with queue := queue} with
      | (search,true) => reconstruct fromNode search.parent rounds toNode []
      | (search,false) => searchQueue adjacent fromNode toNode rounds search

def bfsShortestPath (rounds : ℕ) (fromNode toNode : NodeId) : Option (List NodeId) :=
  if fromNode = toNode then some [fromNode]
  else searchQueue reads.adjacentNodes fromNode toNode rounds {queue := [fromNode], visited := {fromNode}}

def pathRow (path : List NodeId) : List Bytes :=
  [ascii (toString (path.length - 1)),(ascii " -> ").intercalate (path.map number)]

/-- `none` where the search has been given up. -/
def findShortestPath (rounds : ℕ) (fromNode toNode : NodeId) : Option QueryResult :=
  (reads.bfsShortestPath rounds fromNode toNode).map fun path => {
    columns := [ascii "path_length",ascii "path"]
    rows := [if path.isEmpty then [ascii "0",ascii "No path found"] else pathRow path]}

def countNodes : QueryResult where
  columns := [ascii "count"]
  rows := [[number reads.nodeCount]]

def countEdges : QueryResult where
  columns := [ascii "count"]
  rows := [[number reads.edgeCount]]

def getNodeDegreeStats : QueryResult where
  columns := [ascii "metric",ascii "value"]
  rows := [[ascii "total_nodes",number reads.nodeCount],[ascii "total_edges",number reads.edgeCount]]

def getDocumentBacklinks (documentId : NodeId) : QueryResult := reads.getIncomingEdgesOf documentId

def getDocumentOutlinks (documentId : NodeId) : QueryResult := reads.getOutgoingEdgesOf documentId

def findRelatedDocuments (documentId : NodeId) (maxResults : UInt64) : QueryResult where
  columns := [ascii "document_id",ascii "relation_type"]
  rows := ((reads.adjacentNodes documentId).take maxResults.toNat).map fun id => [number id,ascii "adjacent"]

/-- Nothing is made of the content. -/
def suggestLinksForDocument (documentId : NodeId) (_content : Bytes) : QueryResult where
  columns := [ascii "suggested_document_id",ascii "reason"]
  rows := (reads.findRelatedDocuments documentId 5).rows.map fun row => [row.headD [],ascii "related_document"]

end Reads

/-! The searches on a store are those on what is read of it. -/

section Stores

variable (store : GraphStore FilePageStore)

theorem storeReads_adjacent (nodeId : NodeId) :
    (storeReads store).adjacentNodes nodeId = QueryExecutor.getAdjacentNodes nodeId store := rfl

theorem storeReads_nodes (nodeIds : List NodeId) :
    (storeReads store).batchGetNodes nodeIds = QueryExecutor.batchGetNodes nodeIds store := rfl

theorem storeReads_search (fromNode toNode : NodeId) (rounds : ℕ) (search : Search) :
    Reads.searchQueue (storeReads store).adjacentNodes fromNode toNode rounds search =
      QueryExecutor.searchQueue store fromNode toNode rounds search := by
  induction rounds generalizing search with
  | zero => rfl
  | succ rounds ih =>
    unfold Reads.searchQueue QueryExecutor.searchQueue
    simp only [ih]
    rfl

theorem storeReads_path (rounds : ℕ) (fromNode toNode : NodeId) :
    (storeReads store).bfsShortestPath rounds fromNode toNode =
      QueryExecutor.bfsShortestPath rounds fromNode toNode store := by
  rw [Reads.bfsShortestPath,QueryExecutor.bfsShortestPath,storeReads_search]

/-- `none` where the search has been given up. -/
def QueryExecutor.findPathsWithLength (rounds : ℕ) (fromNode toNode : NodeId) (maxLength : UInt64) :
    Option QueryResult :=
  (bfsPathsWithLength rounds fromNode toNode maxLength store).map fun paths => {
    columns := [ascii "path_length",ascii "path"]
    rows := paths.map Reads.pathRow}

end Stores

/-! Documents are nodes, and their links are edges. -/

section Documents

/-- An edge leads from the one node to the other or back. -/
def Linked (graph : GraphRefinement.Graph) (node next : NodeId) : Prop :=
  ∃ id edge, graph.edge? id = some edge ∧
    (edge.source = node ∧ edge.target = next ∨ edge.source = next ∧ edge.target = node)

/-- The neighbors of a node, each once and in increasing order. -/
structure Neighbors (graph : GraphRefinement.Graph) (node : NodeId) (neighbors : List NodeId) : Prop where
  increasing : neighbors.Pairwise (· < ·)
  linked : ∀ next, next ∈ neighbors ↔ Linked graph node next

variable {store : GraphStore FilePageStore} {model : CountedGraph}

theorem adjacent_neighbors (represents : Represents store model) (node : NodeId) :
    Neighbors model.graph node ((storeReads store).adjacentNodes node) := by
  rw [storeReads_adjacent]
  refine ⟨?_,MirroredAdjacency.adjacent_mem represents node⟩
  have distinct := QueryExecutor.nodup_adjacent node store
  have sorted : (QueryExecutor.getAdjacentNodes node store).Pairwise (· ≤ ·) := by
    rw [QueryExecutor.getAdjacentNodes,QueryExecutor.sorted_nodes]
    exact (List.pairwise_insertionSort ..).sublist (List.dedup_sublist _)
  exact (sorted.and distinct).imp fun both => UInt64.lt_of_le_of_ne both.1 both.2

/-- After any operations, the documents related to one are its neighbors, as many of the smallest as were asked for,
the suggestions are the first five of them, and the links of a document are the edges that end and begin at it, in the
order in which they were made. -/
theorem documents_linked (hash : Bytes → UInt64) (mvcc : Option Transaction.MVCCManager) (wal : Option WALManager)
    (calls : List GraphHistory.Operation)
    (fits : History.Guarded (GraphHistory.plain hash) (Fits hash) (fresh mvcc wal) calls) (document : NodeId)
    (maxResults : UInt64) (content : Bytes) :
    let reads := storeReads (History.run (GraphHistory.plain hash) (fresh mvcc wal) calls)
    let graph := (History.run (CountedGraph.step hash) {} calls).graph
    (∃ neighbors, Neighbors graph document neighbors ∧
      (reads.findRelatedDocuments document maxResults).rows =
        (neighbors.take maxResults.toNat).map (fun id => [Reads.number id,ascii "adjacent"]) ∧
      (reads.suggestLinksForDocument document content).rows =
        (neighbors.take 5).map fun id => [Reads.number id,ascii "related_document"]) ∧
      (reads.getDocumentBacklinks document).rows =
        (graph.attached .target document).map (fun id => [Reads.number id]) ∧
      (reads.getDocumentOutlinks document).rows = (graph.attached .source document).map fun id => [Reads.number id] := by
  intro reads graph
  have represents : Represents (History.run (GraphHistory.plain hash) (fresh mvcc wal) calls)
      (History.run (CountedGraph.step hash) {} calls) := run_represents hash calls (fresh_represents mvcc wal) fits
  refine ⟨⟨_,adjacent_neighbors represents document,rfl,?_⟩,?_,?_⟩
  · rw [Reads.suggestLinksForDocument,Reads.findRelatedDocuments,List.map_map]
    rfl
  · rw [← represents.incoming]
    rfl
  · rw [← represents.outgoing]
    rfl

/-- Node 2 is linked to node 1 twice and to itself. -/
def linkedTwice : List GraphHistory.Operation := [.createNode [],.createNode [],.createEdge 0 2 1 [] [],
  .createEdge 0 2 2 [] [],.createEdge 0 1 2 [] []]

theorem documents_linked_twice :
    let reads := storeReads (History.run (GraphHistory.plain fun _ => 0) (fresh none none) linkedTwice)
    let graph := (History.run (CountedGraph.step fun _ => 0) {} linkedTwice).graph
    (∃ neighbors, Neighbors graph 2 neighbors ∧
      (reads.findRelatedDocuments 2 1).rows = (neighbors.take 1).map (fun id => [Reads.number id,ascii "adjacent"]) ∧
      (reads.suggestLinksForDocument 2 []).rows =
        (neighbors.take 5).map fun id => [Reads.number id,ascii "related_document"]) ∧
      (reads.getDocumentBacklinks 2).rows = (graph.attached .target 2).map (fun id => [Reads.number id]) ∧
      (reads.getDocumentOutlinks 2).rows = (graph.attached .source 2).map fun id => [Reads.number id] :=
  documents_linked (fun _ => 0) none none linkedTwice
    (short_guarded _ linkedTwice (fresh_represents none none) (by decide +kernel)) 2 1 []

end Documents

end LoreDB.Query
