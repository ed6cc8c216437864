import LoreDB.Storage.GraphRefinement

/-! Adjacency lists and the edge count over whole histories of plain operations. The lists
are told by what reads return: of all edges ever created, in the order of creation, a list
holds those that are still there and begin, or end, at its node. -/
namespace LoreDB.Storage.Adjacency
open LoreDB.Library LoreDB.Library.History GraphStore GraphHistory GraphRefinement

variable {store : GraphStore FilePageStore} {model : CountedGraph}

def returnedEdge (answer : Except Error UInt64) : Operation → List EdgeId
  | .createEdge _ _ _ _ _ => answer.toOption.toList
  | _ => []

/-- The ids that the calls of `create_edge` return, one after the other. -/
def created (hash : Bytes → UInt64) (store : GraphStore FilePageStore) : List Operation → List EdgeId
  | [] => []
  | operation::rest => returnedEdge (answer hash store operation) operation ++
      created hash (plain hash store operation) rest

def LiveNode (store : GraphStore FilePageStore) (id : NodeId) : Prop :=
  ∃ node, (getNode id store).1 = .ok node

/-- The record of a live edge. -/
def liveEdge (store : GraphStore FilePageStore) (id : EdgeId) : Option EdgeRecord :=
  (getEdge id store).1.toOption.map Prod.fst

/-- A new edge joins two nodes that are there. -/
def JoinsLive (store : GraphStore FilePageStore) : Operation → Prop
  | .createEdge _ fromNode toNode _ _ => LiveNode store fromNode ∧ LiveNode store toNode
  | _ => True

structure Adjacent (edges : List EdgeId) (store : GraphStore FilePageStore) : Prop where
  nodup : edges.Nodup
  live : ∀ id edge, liveEdge store id = some edge → id ∈ edges
  outgoing : ∀ node, getOutgoingEdges node store =
    edges.filter fun id => (liveEdge store id).any fun edge => edge.fromNode = node
  incoming : ∀ node, getIncomingEdges node store =
    edges.filter fun id => (liveEdge store id).any fun edge => edge.toNode = node
  count : store.edgeCount.toNat = (edges.filter fun id => (liveEdge store id).isSome).length

theorem filter_sublist_eq {α : Type} (kept all : List α) (keep : α → Bool) (sublist : kept.Sublist all)
    (nodup : all.Nodup) (exact : ∀ a ∈ all, keep a = true ↔ a ∈ kept) : all.filter keep = kept := by
  have inside : kept.Sublist (all.filter keep) := by
    have filtered := sublist.filter keep
    rwa [List.filter_eq_self.mpr fun a member => (exact a (sublist.subset member)).mpr member] at filtered
  have covered : all.filter keep ⊆ kept := fun a member =>
    (exact a (List.mem_filter.mp member).1).mp (List.mem_filter.mp member).2
  exact (inside.eq_of_length_le (List.subperm_of_subset (nodup.filter keep) covered).length_le).symm

theorem liveEdge_eq (represents : Represents store model) (id : EdgeId) :
    liveEdge store id = (model.graph.edge? id).map edgeRecord := by
  rw [liveEdge,represents.tells.edges,readEdge]
  cases model.graph.edge? id <;> rfl

theorem liveNode_iff (represents : Represents store model) (id : NodeId) :
    LiveNode store id ↔ model.graph.nodes id ≠ none := by
  rw [LiveNode,represents.tells.nodes,readNode]
  cases model.graph.nodes id with
  | none => simp [nodeNotFound]
  | some properties => simp

/-- The ids of the graph's edges stand among all created ids, in their order. -/
structure Among (edges : List EdgeId) (model : CountedGraph) : Prop where
  kept : model.graph.ids.Sublist edges
  nodup : edges.Nodup
  issued : ∀ id ∈ edges, id < model.nextEdgeId

theorem among_adjacent (edges : List EdgeId) (represents : Represents store model)
    (among : Among edges model) : Adjacent edges store := by
  have listed (tip : PropertyGraph.End) (node : NodeId) (other : EdgeRecord → NodeId)
      (same : ∀ edge, other (edgeRecord edge) = edge.at tip) :
      edges.filter (fun id => (liveEdge store id).any fun edge => other edge = node) =
        model.graph.attached tip node := by
    apply filter_sublist_eq _ _ _ ((model.graph.attached_sublist tip node).trans among.kept) among.nodup
    intro id _
    rw [PropertyGraph.attached_mem,liveEdge_eq represents]
    cases model.graph.edge? id <;> simp [same]
  refine ⟨among.nodup,fun id edge found => ?_,fun node => ?_,fun node => ?_,?_⟩
  · rw [liveEdge_eq represents] at found
    obtain ⟨held,named,_⟩ := Option.map_eq_some_iff.mp found
    obtain ⟨member,rfl⟩ := (model.graph.edge?_some id held).mp named
    exact among.kept.subset (List.mem_map_of_mem member)
  · rw [listed .source node EdgeRecord.fromNode fun _ => rfl]
    exact represents.outgoing node
  · rw [listed .target node EdgeRecord.toNode fun _ => rfl]
    exact represents.incoming node
  · have all : edges.filter (fun id => (liveEdge store id).isSome) = model.graph.ids := by
      apply filter_sublist_eq _ _ _ among.kept among.nodup
      intro id _
      rw [liveEdge_eq represents,Option.isSome_map,← not_iff_not,Bool.not_eq_true,
        Option.isSome_eq_false_iff,Option.isNone_iff_eq_none,PropertyGraph.edge?_none]
    rw [all,represents.count]
    exact (List.length_map _).symm

theorem step_among (hash : Bytes → UInt64) (operation : Operation) (edges : List EdgeId)
    (represents : Represents store model) (fits : Fits hash store operation)
    (among : Among edges model) :
    Among (edges ++ returnedEdge (answer hash store operation) operation) (model.step hash operation) := by
  obtain ⟨answered,_⟩ := step_simulates hash operation represents fits
  obtain ⟨kept,nodup,issued⟩ := among
  rw [answered]
  cases operation with
  | createNode properties =>
    simp only [returnedEdge,List.append_nil]
    exact ⟨kept,nodup,issued⟩
  | updateNode id properties =>
    simp only [returnedEdge,List.append_nil,CountedGraph.step]
    split
    · exact ⟨kept,nodup,issued⟩
    · exact ⟨kept,nodup,issued⟩
  | deleteNode id =>
    simp only [returnedEdge,List.append_nil,CountedGraph.step]
    split
    · exact ⟨kept,nodup,issued⟩
    · exact ⟨kept,nodup,issued⟩
  | createEdge clock fromNode toNode label properties =>
    have unused := unissued represents
    have next := next_toNat model.nextEdgeId (represents.edgeIds ▸ fits.1)
    have below (id : EdgeId) (member : id ∈ edges) := UInt64.lt_iff_toNat_lt.mp (issued id member)
    refine ⟨?_,?_,fun id member => ?_⟩
    · rw [PropertyGraph.ids]
      simp only [CountedGraph.step]
      rw [model.graph.addEdge_edges _ unused,List.map_append]
      exact kept.append (List.Sublist.refl _)
    · refine List.Nodup.append nodup (List.nodup_singleton _) ?_
      intro id old new
      have same := below id old
      rw [List.mem_singleton.mp new] at same
      exact Nat.lt_irrefl _ same
    · change id < model.nextEdgeId + 1
      rw [UInt64.lt_iff_toNat_lt,next]
      rcases List.mem_append.mp member with old | new
      · exact Nat.lt_succ_of_lt (below id old)
      · rw [List.mem_singleton.mp new]
        exact Nat.lt_succ_self _
  | updateEdge id properties =>
    simp only [returnedEdge,List.append_nil]
    refine ⟨?_,nodup,issued⟩
    simp only [CountedGraph.step,PropertyGraph.changeEdge_ids]
    exact kept
  | deleteEdge id =>
    simp only [returnedEdge,List.append_nil]
    refine ⟨?_,nodup,issued⟩
    simp only [CountedGraph.step,PropertyGraph.eraseEdge_ids]
    exact List.filter_sublist.trans kept

theorem run_among (hash : Bytes → UInt64) (calls : List Operation) (edges : List EdgeId)
    (represents : Represents store model) (fits : Guarded (plain hash) (Fits hash) store calls)
    (among : Among edges model) :
    Among (edges ++ created hash store calls) (run (CountedGraph.step hash) model calls) := by
  induction calls generalizing store model edges with
  | nil => rwa [created,List.append_nil]
  | cons operation rest ih =>
    rw [created,← List.append_assoc]
    exact ih _ (step_simulates hash operation represents fits.1).2 fits.2
      (step_among hash operation edges represents fits.1 among)

theorem step_linked (hash : Bytes → UInt64) (operation : Operation)
    (represents : Represents store model) (joins : JoinsLive store operation)
    (linked : model.graph.Linked) : (model.step hash operation).graph.Linked := by
  cases operation with
  | createNode properties => exact model.graph.setNode_linked _ properties linked
  | updateNode id properties =>
    rw [CountedGraph.step]
    split
    · exact linked
    · exact model.graph.setNode_linked id properties linked
  | deleteNode id =>
    rw [CountedGraph.step]
    split
    · exact linked
    · rename_i isolated
      simp only [ne_eq,not_or,not_not] at isolated
      refine model.graph.eraseNode_linked id linked fun tip => ?_
      cases tip with
      | source => exact isolated.1
      | target => exact isolated.2
  | createEdge clock fromNode toNode label properties =>
    refine model.graph.addEdge_linked _ linked fun tip => ?_
    cases tip with
    | source => exact (liveNode_iff represents fromNode).mp joins.1
    | target => exact (liveNode_iff represents toNode).mp joins.2
  | updateEdge id properties => exact model.graph.changeEdge_linked id _ linked
  | deleteEdge id => exact model.graph.eraseEdge_linked id linked

theorem run_linked (hash : Bytes → UInt64) (calls : List Operation)
    (represents : Represents store model) (fits : Guarded (plain hash) (Fits hash) store calls)
    (joins : Guarded (plain hash) JoinsLive store calls) (linked : model.graph.Linked) :
    (run (CountedGraph.step hash) model calls).graph.Linked := by
  induction calls generalizing store model with
  | nil => exact linked
  | cons operation rest ih =>
    exact ih (step_simulates hash operation represents fits.1).2 fits.2 joins.2
      (step_linked hash operation represents joins.1 linked)

/-- Lists and count are those of the live edges, and where new edges join live nodes, the
ends of every live edge stay live. -/
theorem adjacency_exact (hash : Bytes → UInt64) (mvcc : Option Transaction.MVCCManager)
    (wal : Option WALManager) (calls : List Operation)
    (fits : Guarded (plain hash) (Fits hash) (fresh mvcc wal) calls) :
    let reached := run (plain hash) (fresh mvcc wal) calls
    Adjacent (created hash (fresh mvcc wal) calls) reached ∧
      (Guarded (plain hash) JoinsLive (fresh mvcc wal) calls → ∀ id edge,
        liveEdge reached id = some edge →
          LiveNode reached edge.fromNode ∧ LiveNode reached edge.toNode) := by
  intro reached
  have start := fresh_represents mvcc wal
  have final := run_represents hash calls start fits
  have among := run_among hash calls [] start fits
    ⟨List.Sublist.refl _,List.nodup_nil,fun _ member => nomatch member⟩
  refine ⟨among_adjacent _ final among,fun joins id edge found => ?_⟩
  have linked := run_linked hash calls start fits joins fun _ member => nomatch member
  rw [liveEdge_eq final] at found
  obtain ⟨held,named,rfl⟩ := Option.map_eq_some_iff.mp found
  obtain ⟨member,_⟩ := (PropertyGraph.edge?_some _ id held).mp named
  exact ⟨(liveNode_iff final _).mpr (linked held member .source),
    (liveNode_iff final _).mpr (linked held member .target)⟩

/-- Whether an edge joins live nodes can be told from the graph alone. -/
def Joins (model : CountedGraph) : Operation → Prop
  | .createEdge _ fromNode toNode _ _ =>
    model.graph.nodes fromNode ≠ none ∧ model.graph.nodes toNode ≠ none
  | _ => True

instance (model : CountedGraph) : (operation : Operation) → Decidable (Joins model operation)
  | .createEdge _ _ _ _ _ => inferInstanceAs (Decidable (_ ∧ _))
  | .createNode _ | .updateNode _ _ | .deleteNode _ | .updateEdge _ _ | .deleteEdge _ => .isTrue trivial

theorem joins_guarded (hash : Bytes → UInt64) (calls : List Operation)
    (represents : Represents store model) (fits : Guarded (plain hash) (Fits hash) store calls)
    (joins : Guarded (CountedGraph.step hash) Joins model calls) :
    Guarded (plain hash) JoinsLive store calls := by
  induction calls generalizing store model with
  | nil => trivial
  | cons operation rest ih =>
    refine ⟨?_,ih (step_simulates hash operation represents fits.1).2 fits.2 joins.2⟩
    cases operation with
    | createEdge clock fromNode toNode label properties =>
      exact ⟨(liveNode_iff represents fromNode).mpr joins.1.1,
        (liveNode_iff represents toNode).mpr joins.1.2⟩
    | createNode properties => trivial
    | updateNode id properties => trivial
    | deleteNode id => trivial
    | updateEdge id properties => trivial
    | deleteEdge id => trivial

/-- A loop, two parallel edges of which one goes again, and a node that may not go. -/
def rewired : List Operation := [
  .createNode [],
  .createNode [],
  .createEdge 5 1 1 [] [],
  .createEdge 6 1 2 [] [],
  .createEdge 7 1 2 [] [],
  .deleteEdge 2,
  .deleteNode 2,
  .updateEdge 3 [⟨[107],.boolean true⟩]]

theorem adjacency_exact_rewired :
    let hash : Bytes → UInt64 := fun text => UInt64.ofNat text.length
    let reached := run (plain hash) (fresh none none) rewired
    Adjacent (created hash (fresh none none) rewired) reached ∧ LiveNode reached 2 := by
  intro hash reached
  have start := fresh_represents none none
  have fits := short_guarded hash rewired start (by decide +kernel)
  have joins := joins_guarded hash rewired start fits (by decide +kernel)
  obtain ⟨adjacent,linked⟩ := adjacency_exact hash none none rewired fits
  have third : liveEdge reached 3 = some {
      id := 3
      fromNode := 1
      toNode := 2
      labelId := 0
      propertyCount := 1
      timestamp := 7} :=
    (liveEdge_eq (run_represents hash rewired start fits) 3).trans (by decide +kernel)
  exact ⟨adjacent,(linked joins 3 _ third).2⟩

end LoreDB.Storage.Adjacency
