import LoreDB.Library.Numbering
import LoreDB.Storage.GraphRefinement

/-! Loading a graph at once. The batches of nodes and of edges stop at the first error; without one, what was handed
over is numbered from the next id on, is read back as it was, and leaves everything else alone. -/
namespace LoreDB.Storage.BulkLoads
open LoreDB.Library LoreDB.Library.History LoreDB.Library.Numbering GraphStore GraphHistory GraphRefinement RecordSerializer

/-- An edge that is to be created, with the time of its call. -/
structure NewEdge where
  clock : UInt64
  fromNode : NodeId
  toNode : NodeId
  label : Bytes
  properties : List Property

section Batches

variable {σ : Type} {α : Type}

/-- One after the other up to the first error, and the ids made by then. -/
def batchCreate (create : α → GraphStore σ → Except Error UInt64 × GraphStore σ) :
    List α → GraphStore σ → (Except Error Unit × List UInt64) × GraphStore σ
  | [], store => ((.ok (),[]),store)
  | item::rest, store =>
    match create item store with
    | (.error e,store) => ((.error e,[]),store)
    | (.ok id,store) =>
      let ((result,ids),store) := batchCreate create rest store
      ((result,id::ids),store)

/-- A batch that stops names what it made before, and tries nothing after the call that failed. -/
theorem batch_stops (create : α → GraphStore σ → Except Error UInt64 × GraphStore σ) (items : List α)
    (store final : GraphStore σ) (e : Error) (ids : List UInt64)
    (stops : batchCreate create items store = ((.error e,ids),final)) :
    ∃ front item rest middle, items = front ++ item::rest ∧
      batchCreate create front store = ((.ok (),ids),middle) ∧ create item middle = (.error e,final) := by
  induction items generalizing store ids with
  | nil => cases stops
  | cons item rest ih =>
    unfold batchCreate at stops
    cases made : create item store with
    | mk result next =>
      rw [made] at stops
      cases result with
      | error e =>
        cases stops
        exact ⟨[],item,rest,store,rfl,rfl,made⟩
      | ok id =>
        cases others : batchCreate create rest next with
        | mk outcome last =>
          dsimp only at stops
          rw [others] at stops
          obtain ⟨result,made_before⟩ := outcome
          cases stops
          obtain ⟨front,failed,later,middle,split,before,fails⟩ := ih next made_before others
          refine ⟨item::front,failed,later,middle,congrArg (item::·) split,?_,fails⟩
          unfold batchCreate
          rw [made]
          dsimp only
          rw [before]

variable [PageStore σ]

def batchCreateNodes : List (List Property) → GraphStore σ → (Except Error Unit × List NodeId) × GraphStore σ :=
  batchCreate createNode

def batchCreateEdges (hash : Bytes → UInt64) :
    List NewEdge → GraphStore σ → (Except Error Unit × List EdgeId) × GraphStore σ :=
  batchCreate fun edge => createEdge hash edge.clock edge.fromNode edge.toNode edge.label edge.properties

end Batches

def nodeOperation (properties : List Property) : Operation := .createNode properties

def edgeOperation (edge : NewEdge) : Operation :=
  .createEdge edge.clock edge.fromNode edge.toNode edge.label edge.properties

/-- Where every creation fits, a batch makes them all. `issue` tells the next id. -/
theorem batch_creates {α : Type} (hash : Bytes → UInt64) (operation : α → Operation) (issue : CountedGraph → UInt64)
    (answered : ∀ item model, CountedGraph.answer model (operation item) = .ok (issue model))
    (grows : ∀ item model, issue (CountedGraph.step hash model (operation item)) = issue model + 1)
    (items : List α) (store : GraphStore FilePageStore) (model : CountedGraph) (represents : Represents store model)
    (fits : Guarded (plain hash) (Fits hash) store (items.map operation)) :
    batchCreate (fun item store => (answer hash store (operation item),plain hash store (operation item))) items store =
      ((.ok (),issued (issue model) items.length),run (plain hash) store (items.map operation)) := by
  induction items generalizing store model with
  | nil => rfl
  | cons item rest ih =>
    obtain ⟨same,later⟩ := step_simulates hash (operation item) represents fits.1
    have others := ih _ _ later fits.2
    rw [grows] at others
    unfold batchCreate
    rw [same,answered]
    dsimp only
    rw [others,List.length_cons,issued_succ]
    rfl

/-! What a batch makes of a graph. -/

section Graphs

variable (hash : Bytes → UInt64) {store : GraphStore FilePageStore} {model : CountedGraph}

def newEdge (id : EdgeId) (edge : NewEdge) : PropertyGraph.Edge NodeId EdgeId EdgeData where
  id := id
  source := edge.fromNode
  target := edge.toNode
  data := {labelId := (hash edge.label).toUInt32, timestamp := edge.clock, properties := edge.properties}

/-- The new edges at a node, by their ids. -/
def newAttached (tip : PropertyGraph.End) (node : NodeId) : EdgeId → List NewEdge → List EdgeId
  | _, [] => []
  | next, edge::rest =>
    (if (newEdge hash next edge).at tip = node then [next] else []) ++ newAttached tip node (next + 1) rest

/-- Creations whose properties are short enough for a page fit, as long as there are numbers for them. -/
theorem creations_fit {α : Type} (operation : α → Operation) (issue : CountedGraph → UInt64)
    (grows : ∀ item model, issue (CountedGraph.step hash model (operation item)) = issue model + 1)
    (counted : ∀ item (model : CountedGraph), issue model + 1 ≠ 0 →
      Counts model.nextNodeId model.nextEdgeId (operation item))
    (items : List α) (represents : Represents store model) (few : (issue model).toNat + items.length < 2 ^ 64)
    (short : ∀ item ∈ items, (serializeProperties (properties (operation item))).length ≤ pageSize - 96) :
    Guarded (plain hash) (Fits hash) store (items.map operation) := by
  induction items generalizing store model with
  | nil => trivial
  | cons item rest ih =>
    have fits := short_fits hash (operation item) represents
      ⟨counted item model (counts_on few),short item List.mem_cons_self⟩
    have later := (step_simulates hash (operation item) represents fits).2
    refine ⟨fits,ih later ?_ fun other member => short other (List.mem_cons_of_mem _ member)⟩
    rw [grows,count_toNat few]
    rw [List.length_cons] at few
    omega

theorem nodes_loaded (nodes : List (List Property)) (model : CountedGraph) :
    let loaded := run (CountedGraph.step hash) model (nodes.map nodeOperation)
    readNode loaded.graph = numbered (fun id properties => .ok (nodeRecord id properties,properties))
        model.nextNodeId nodes (readNode model.graph) ∧
      readEdge loaded.graph = readEdge model.graph ∧ loaded.nextEdgeId = model.nextEdgeId ∧
      ∀ tip node, loaded.graph.attached tip node = model.graph.attached tip node := by
  induction nodes generalizing model with
  | nil => exact ⟨rfl,rfl,rfl,fun _ _ => rfl⟩
  | cons properties rest ih =>
    obtain ⟨read,others,next,attached⟩ := ih (model.step hash (nodeOperation properties))
    refine ⟨read.trans ?_,others,next,attached⟩
    rw [numbered,← readNode_set]
    rfl

theorem edges_loaded (edges : List NewEdge) (represents : Represents store model)
    (fits : Guarded (plain hash) (Fits hash) store (edges.map edgeOperation)) :
    let loaded := run (CountedGraph.step hash) model (edges.map edgeOperation)
    readEdge loaded.graph = numbered (fun id edge => .ok (edgeRecord (newEdge hash id edge),edge.properties))
        model.nextEdgeId edges (readEdge model.graph) ∧
      readNode loaded.graph = readNode model.graph ∧
      ∀ tip node, loaded.graph.attached tip node =
        model.graph.attached tip node ++ newAttached hash tip node model.nextEdgeId edges := by
  induction edges generalizing store model with
  | nil => exact ⟨rfl,rfl,fun _ _ => (List.append_nil _).symm⟩
  | cons edge rest ih =>
    have unused : (newEdge hash model.nextEdgeId edge).id ∉ model.graph.ids := unissued represents
    have later := (step_simulates hash (edgeOperation edge) represents fits.1).2
    obtain ⟨read,nodes,attached⟩ := ih later fits.2
    have added : (model.step hash (edgeOperation edge)).graph =
      model.graph.addEdge (newEdge hash model.nextEdgeId edge) := rfl
    refine ⟨read.trans ?_,nodes.trans ?_,fun tip node => (attached tip node).trans ?_⟩
    · rw [numbered,added,readEdge_add model.graph _ unused]
      rfl
    · funext id
      rw [added,readNode,PropertyGraph.addEdge_nodes,readNode]
    · rw [added,PropertyGraph.addEdge_attached tip node _ _ unused,newAttached,List.append_assoc]
      rfl

end Graphs

/-- Whatever was done before, both batches succeed and number what they make from the next id on. The new nodes and
edges are read back as they were handed over, the lists at the nodes grow by the new edges in their order, and what
had an id before reads as it did. -/
theorem load_reads (hash : Bytes → UInt64) (mvcc : Option Transaction.MVCCManager) (wal : Option WALManager)
    (earlier : List Operation) (fits : Guarded (plain hash) (Fits hash) (fresh mvcc wal) earlier)
    (nodes : List (List Property)) (edges : List NewEdge)
    (fewNodes : (run (plain hash) (fresh mvcc wal) earlier).nextNodeId.toNat + nodes.length < 2 ^ 64)
    (fewEdges : (run (plain hash) (fresh mvcc wal) earlier).nextEdgeId.toNat + edges.length < 2 ^ 64)
    (shortNodes : ∀ properties ∈ nodes, (serializeProperties properties).length ≤ pageSize - 96)
    (shortEdges : ∀ edge ∈ edges, (serializeProperties edge.properties).length ≤ pageSize - 96) :
    let before := run (plain hash) (fresh mvcc wal) earlier
    let made := batchCreateNodes nodes before
    let linked := batchCreateEdges hash edges made.2
    made.1 = (.ok (),issued before.nextNodeId nodes.length) ∧
      linked.1 = (.ok (),issued before.nextEdgeId edges.length) ∧
      (∀ index properties, nodes[index]? = some properties →
        (getNode (before.nextNodeId + UInt64.ofNat index) linked.2).1 =
          .ok (nodeRecord (before.nextNodeId + UInt64.ofNat index) properties,properties)) ∧
      (∀ index edge, edges[index]? = some edge →
        (getEdge (before.nextEdgeId + UInt64.ofNat index) linked.2).1 =
          .ok (edgeRecord (newEdge hash (before.nextEdgeId + UInt64.ofNat index) edge),edge.properties)) ∧
      (∀ id < before.nextNodeId, (getNode id linked.2).1 = (getNode id before).1) ∧
      (∀ id < before.nextEdgeId, (getEdge id linked.2).1 = (getEdge id before).1) ∧
      ∀ node, getOutgoingEdges node linked.2 =
          getOutgoingEdges node before ++ newAttached hash .source node before.nextEdgeId edges ∧
        getIncomingEdges node linked.2 =
          getIncomingEdges node before ++ newAttached hash .target node before.nextEdgeId edges := by
  intro before made linked
  have start := run_represents hash earlier (fresh_represents mvcc wal) fits
  let model := run (CountedGraph.step hash) {} earlier
  change Represents before model at start
  have nodesFit := creations_fit hash nodeOperation CountedGraph.nextNodeId (fun _ _ => rfl) (fun _ _ => id) nodes
    start (start.nodeIds ▸ fewNodes) shortNodes
  have nodesMade : made = ((.ok (),issued model.nextNodeId nodes.length),
      run (plain hash) before (nodes.map nodeOperation)) :=
    batch_creates hash nodeOperation CountedGraph.nextNodeId (fun _ _ => rfl) (fun _ _ => rfl) nodes before model
      start nodesFit
  have middle := run_represents hash (nodes.map nodeOperation) start nodesFit
  obtain ⟨nodesRead,edgesKept,nextKept,listsKept⟩ := nodes_loaded hash nodes model
  let loaded := run (CountedGraph.step hash) model (nodes.map nodeOperation)
  change Represents _ loaded at middle
  have edgesFit := creations_fit hash edgeOperation CountedGraph.nextEdgeId (fun _ _ => rfl) (fun _ _ => id) edges
    middle (nextKept ▸ start.edgeIds ▸ fewEdges) shortEdges
  have edgesMade : linked = ((.ok (),issued loaded.nextEdgeId edges.length),
      run (plain hash) (run (plain hash) before (nodes.map nodeOperation)) (edges.map edgeOperation)) := by
    change batchCreateEdges hash edges made.2 = _
    rw [nodesMade]
    exact batch_creates hash edgeOperation CountedGraph.nextEdgeId (fun _ _ => rfl) (fun _ _ => rfl) edges _ loaded
      middle edgesFit
  have final := run_represents hash (edges.map edgeOperation) middle edgesFit
  obtain ⟨edgesRead,nodesKept,lists⟩ := edges_loaded hash edges middle edgesFit
  have nextNode : before.nextNodeId = model.nextNodeId := start.nodeIds
  have nextEdge : before.nextEdgeId = loaded.nextEdgeId := start.edgeIds.trans nextKept.symm
  have readsNode (id : NodeId) : (getNode id linked.2).1 = numbered
      (fun id properties => .ok (nodeRecord id properties,properties)) before.nextNodeId nodes
      (readNode model.graph) id := by
    rw [edgesMade,nextNode]
    exact (final.tells.nodes id).trans (congrFun (nodesKept.trans nodesRead) id)
  have readsEdge (id : EdgeId) : (getEdge id linked.2).1 = numbered
      (fun id edge => .ok (edgeRecord (newEdge hash id edge),edge.properties)) before.nextEdgeId edges
      (readEdge model.graph) id := by
    rw [edgesMade,nextEdge,← edgesKept]
    exact (final.tells.edges id).trans (congrFun edgesRead id)
  refine ⟨?_,?_,fun index properties given => ?_,fun index edge given => ?_,fun id below => ?_,fun id below => ?_,
    fun node => ⟨?_,?_⟩⟩
  · rw [nodesMade,nextNode]
  · rw [edgesMade,nextEdge]
  · rw [readsNode,numbered_at _ nodes _ _ index properties fewNodes given]
  · rw [readsEdge,numbered_at _ edges _ _ index edge fewEdges given]
  · rw [readsNode,numbered_below _ nodes _ _ id fewNodes below]
    exact (start.tells.nodes id).symm
  · rw [readsEdge,numbered_below _ edges _ _ id fewEdges below]
    exact (start.tells.edges id).symm
  · rw [edgesMade,nextEdge]
    refine (final.outgoing node).trans ((lists .source node).trans ?_)
    exact congrArg (· ++ _) ((listsKept .source node).trans (start.outgoing node).symm)
  · rw [edgesMade,nextEdge]
    refine (final.incoming node).trans ((lists .target node).trans ?_)
    exact congrArg (· ++ _) ((listsKept .target node).trans (start.incoming node).symm)

def pointed : List NewEdge := [⟨5,1,3,[97],[]⟩,⟨6,2,3,[],[]⟩]

theorem load_reads_second :
    let before := run (plain fun text => UInt64.ofNat text.length) (fresh none none) [.createNode []]
    let made := batchCreateNodes [[⟨[107],.boolean true⟩],[]] before
    let linked := batchCreateEdges (fun text => UInt64.ofNat text.length) pointed made.2
    (getNode 2 linked.2).1 = .ok ({id := 2, propertyCount := 1},[⟨[107],.boolean true⟩]) ∧
      getIncomingEdges 3 linked.2 = [1,2] := by
  intro before made linked
  have start : before.nextNodeId = 2 ∧ before.nextEdgeId = 1 ∧ getIncomingEdges 3 before = [] := by decide +kernel
  have fits : Guarded (plain fun text => UInt64.ofNat text.length) (Fits fun text => UInt64.ofNat text.length)
      (fresh none none) [.createNode []] := by decide +kernel
  obtain ⟨_,_,nodes,_,_,_,lists⟩ := load_reads (fun text => UInt64.ofNat text.length) none none [.createNode []] fits
    [[⟨[107],.boolean true⟩],[]] pointed (by decide +kernel) (by decide +kernel) (by decide +kernel) (by decide +kernel)
  have grown := (lists 3).2
  have new : newAttached (fun text => UInt64.ofNat text.length) .target 3 before.nextEdgeId pointed = [1,2] := by
    rw [start.2.1]
    decide
  change ∀ index properties, _ = some properties → (getNode (before.nextNodeId + _) linked.2).1 = _ at nodes
  change getIncomingEdges 3 linked.2 = getIncomingEdges 3 before ++ _ at grown
  rw [start.1] at nodes
  rw [new,start.2.2] at grown
  exact ⟨nodes 0 _ rfl,grown⟩

end LoreDB.Storage.BulkLoads
