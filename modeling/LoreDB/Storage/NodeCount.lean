import LoreDB.Storage.GraphRefinement
import LoreDB.Storage.OpenStores
import LoreDB.Storage.Outlines
import Mathlib.Data.Set.Card

/-! The number of nodes that a store counts beside its index. It is the number of the nodes that can be
read for as long as only such nodes are deleted. -/
namespace LoreDB.Storage.NodeCount
open LoreDB.Library LoreDB.Library.History GraphStore GraphHistory GraphRefinement OpenStores Outlines

def liveNodes (store : GraphStore FilePageStore) : Set NodeId :=
  {id | ∃ found, (getNode id store).1 = .ok found}

def CountExact (store : GraphStore FilePageStore) : Prop :=
  store.nodeCount.toNat = (liveNodes store).ncard

/-- A deletion that is not refused is one of a node that can be read. -/
def NamesLive (store : GraphStore FilePageStore) : Operation → Prop
  | .deleteNode id => (deleteNode id store).1 = .ok () → id ∈ liveNodes store
  | _ => True

/-! The nodes of the graph that a store stands for. -/

def held (model : CountedGraph) : Set NodeId := {id | model.graph.nodes id ≠ none}

def Issued (model : CountedGraph) : Prop := ∀ id ∈ held model, id < model.nextNodeId

variable {store : GraphStore FilePageStore} {model : CountedGraph}

theorem live_held (represents : Represents store model) : liveNodes store = held model := by
  ext id
  rw [liveNodes,Set.mem_ofPred_eq,represents.tells.nodes,readNode]
  cases nodes : model.graph.nodes id with
  | none => simp [held,nodes,nodeNotFound]
  | some properties => simp [held,nodes]

theorem toNat_injective : Function.Injective UInt64.toNat := fun _ _ same => UInt64.toNat.inj same

theorem finite_ids (ids : Set NodeId) : ids.Finite :=
  Set.Finite.of_injOn (f := UInt64.toNat) (t := Finset.range (2 ^ 64))
    (fun id _ => by simpa using id.toNat_lt) toNat_injective.injOn (Finset.finite_toSet _)

theorem few_held (issued : Issued model) : (held model).ncard ≤ model.nextNodeId.toNat := by
  rw [← Set.ncard_image_of_injective _ toNat_injective,← Finset.card_range model.nextNodeId.toNat,
    ← Set.ncard_coe_finset]
  refine Set.ncard_le_ncard ?_ (Finset.finite_toSet _)
  rintro _ ⟨id,member,rfl⟩
  simpa using UInt64.lt_iff_toNat_lt.mp (issued id member)

theorem held_created (properties : List Property) (hash : Bytes → UInt64) :
    held (model.step hash (.createNode properties)) = insert model.nextNodeId (held model) := by
  ext id
  by_cases here : id = model.nextNodeId
  · simp [held,CountedGraph.step,PropertyGraph.setNode,here]
  · simp [held,CountedGraph.step,PropertyGraph.setNode,here]

theorem held_updated (id : NodeId) (properties : List Property) (hash : Bytes → UInt64) :
    held (model.step hash (.updateNode id properties)) = held model := by
  rw [CountedGraph.step]
  split
  · rfl
  · rename_i present
    ext other
    by_cases here : other = id
    · simp [held,PropertyGraph.setNode,here,present]
    · simp [held,PropertyGraph.setNode,here]

theorem held_deleted (id : NodeId) (hash : Bytes → UInt64)
    (unlinked : ¬(model.graph.attached .source id ≠ [] ∨ model.graph.attached .target id ≠ [])) :
    held (model.step hash (.deleteNode id)) = held model \ {id} := by
  rw [CountedGraph.step,if_neg unlinked]
  ext other
  by_cases here : other = id
  · simp [held,PropertyGraph.eraseNode,here]
  · simp [held,PropertyGraph.eraseNode,here]

theorem held_edges (hash : Bytes → UInt64) (operation : Operation) (edges : operation.kind = .edge) :
    held (model.step hash operation) = held model := by
  cases operation with
  | createNode properties => cases edges
  | updateNode id properties => cases edges
  | deleteNode id => cases edges
  | createEdge clock fromNode toNode label properties =>
    rw [held,CountedGraph.step,PropertyGraph.addEdge_nodes]
    rfl
  | updateEdge id properties => rfl
  | deleteEdge id => rfl

theorem step_issued (hash : Bytes → UInt64) (operation : Operation) (issued : Issued model)
    (counts : Counts model.nextNodeId model.nextEdgeId operation) :
    Issued (model.step hash operation) := by
  intro id member
  cases operation with
  | createNode properties =>
    rw [held_created] at member
    rcases member with rfl | old
    · exact next_above counts (.inr rfl)
    · exact next_above counts (.inl (issued id old))
  | updateNode other properties =>
    rw [held_updated] at member
    have next : (model.step hash (.updateNode other properties)).nextNodeId = model.nextNodeId := by
      rw [CountedGraph.step]
      split <;> rfl
    exact next ▸ issued id member
  | deleteNode other =>
    by_cases refused : model.graph.attached .source other ≠ [] ∨ model.graph.attached .target other ≠ []
    · rw [CountedGraph.step,if_pos refused] at member ⊢
      exact issued id member
    · rw [held_deleted other hash refused] at member
      rw [CountedGraph.step,if_neg refused]
      exact issued id member.1
  | createEdge clock fromNode toNode label properties =>
    rw [held_edges hash (.createEdge clock fromNode toNode label properties) rfl] at member
    exact issued id member
  | updateEdge other properties =>
    rw [held_edges hash (.updateEdge other properties) rfl] at member
    exact issued id member
  | deleteEdge other =>
    rw [held_edges hash (.deleteEdge other) rfl] at member
    exact issued id member

/-! The number. -/

theorem edge_counts (hash : Bytes → UInt64) (operation : Operation) (edges : operation.kind = .edge) :
    (plain hash store operation).nodeCount = store.nodeCount := by
  cases operation with
  | createNode properties => cases edges
  | updateNode id properties => cases edges
  | deleteNode id => cases edges
  | createEdge clock fromNode toNode label properties =>
    obtain same | ⟨page,same⟩ := createEdge_outline hash clock fromNode toNode label properties store
    · exact congrArg Outline.nodeCount same
    · exact congrArg Outline.nodeCount same
  | updateEdge id properties =>
    obtain same | ⟨-,page,same⟩ := updateEdge_outline id properties store
    · exact congrArg Outline.nodeCount same
    · exact congrArg Outline.nodeCount same
  | deleteEdge id =>
    obtain same | ⟨-,fromNode,toNode,same⟩ := deleteEdge_outline id store
    · exact congrArg Outline.nodeCount same
    · exact congrArg Outline.nodeCount same

theorem deleted_count (count : UInt64) (number : ℕ) (same : count.toNat = number) (positive : number ≠ 0) :
    (count - 1).toNat = number - 1 := by
  have least : (1 : UInt64) ≤ count := by
    rw [UInt64.le_iff_toNat_le,UInt64.toNat_one]
    omega
  rw [UInt64.toNat_sub_of_le _ _ least,same]
  rfl

theorem undeleted_count (count : UInt64) : (count - 1).toNat ≠ count.toNat := by
  intro same
  have zero : (0 : UInt64) = 1 := by
    have equal : count - 1 = count := UInt64.toNat.inj same
    grind
  cases zero

theorem deleteNode_exact (hash : Bytes → UInt64) (id : NodeId) (represents : Represents store model)
    (exact : CountExact store) :
    CountExact (plain hash store (.deleteNode id)) ↔ NamesLive store (.deleteNode id) := by
  have later := (deleteNode_simulates hash id represents).2
  have lives := live_held represents
  by_cases refused : model.graph.attached .source id ≠ [] ∨ model.graph.attached .target id ≠ []
  · have unchanged : ∃ e, deleteNode id store = (.error e,store) := by
      unfold deleteNode getOutgoingEdges getIncomingEdges
      rw [represents.outgoing,represents.incoming]
      split
      · exact ⟨_,rfl⟩
      · rename_i begins
        rw [if_pos (refused.resolve_left begins)]
        exact ⟨_,rfl⟩
    obtain ⟨e,unchanged⟩ := unchanged
    rw [plain,NamesLive,unchanged]
    exact iff_of_true exact fun returned => by cases returned
  · have deleted : (deleteNode id store).1 = .ok () ∧
        (plain hash store (.deleteNode id)).nodeCount = store.nodeCount - 1 := by
      rw [not_or,not_not,not_not,← represents.outgoing,← represents.incoming] at refused
      have begins : store.getOutgoingEdges id = [] := refused.1
      have ends : store.getIncomingEdges id = [] := refused.2
      rw [plain,deleteNode,if_neg (not_not.mpr begins),if_neg (not_not.mpr ends)]
      exact ⟨rfl,rfl⟩
    rw [CountExact,lives] at exact
    rw [CountExact,live_held later,deleted.2,held_deleted id hash refused,NamesLive,lives]
    by_cases present : id ∈ held model
    · have some : (held model).ncard ≠ 0 := (Set.ncard_pos (finite_ids _)).mpr ⟨id,present⟩ |>.ne'
      rw [Set.ncard_sdiff_singleton_of_mem present,deleted_count _ _ exact some]
      exact iff_of_true rfl fun _ => present
    · rw [Set.sdiff_singleton_eq_self present,← exact]
      exact iff_of_false (undeleted_count _) fun lives => present (lives deleted.1)

theorem step_exact (hash : Bytes → UInt64) (operation : Operation) (represents : Represents store model)
    (fits : Fits hash store operation) (issued : Issued model) (exact : CountExact store) :
    CountExact (plain hash store operation) ↔ NamesLive store operation := by
  have later := (step_simulates hash operation represents fits).2
  have lives := live_held represents
  have edges (edge : operation.kind = .edge) : CountExact (plain hash store operation) := by
    rw [CountExact,edge_counts hash operation edge,live_held later,held_edges hash operation edge,← lives]
    exact exact
  cases operation with
  | createNode properties =>
    obtain ⟨next,created,-,counted⟩ := createNode_opens properties represents.tells.isOpen
    have few := few_held issued
    have room : store.nextNodeId.toNat + 1 < 2 ^ 64 := next_toNat _ fits.1 ▸ (store.nextNodeId + 1).toNat_lt
    have fresh : model.nextNodeId ∉ held model := fun member =>
      UInt64.lt_irrefl _ (issued _ member)
    refine iff_of_true ?_ trivial
    rw [CountExact,live_held later,held_created,Set.ncard_insert_of_notMem fresh (finite_ids _),
      plain,created,counted,← lives,← exact,UInt64.toNat_add,UInt64.toNat_one]
    rw [← lives,← exact,← represents.nodeIds] at few
    exact Nat.mod_eq_of_lt (by omega)
  | updateNode id properties =>
    refine iff_of_true ?_ trivial
    have count : (plain hash store (.updateNode id properties)).nodeCount = store.nodeCount := by
      obtain ⟨e,-,failed⟩ | ⟨-,next,updated,-,counted⟩ :=
        updateNode_opens id properties represents.tells.isOpen
      · rw [plain,failed]
      · rw [plain,updated]
        exact counted
    rw [CountExact,count,live_held later,held_updated,← lives]
    exact exact
  | deleteNode id => exact deleteNode_exact hash id represents exact
  | createEdge clock fromNode toNode label properties => exact iff_of_true (edges rfl) trivial
  | updateEdge id properties => exact iff_of_true (edges rfl) trivial
  | deleteEdge id => exact iff_of_true (edges rfl) trivial

theorem fresh_exact (mvcc : Option Transaction.MVCCManager) (wal : Option WALManager) :
    CountExact (fresh mvcc wal) := by
  rw [CountExact,live_held (fresh_represents mvcc wal)]
  exact (Set.ncard_eq_zero (finite_ids _)).mpr (by ext; simp [held]) |>.symm

/-- As long as records fit their pages and ids are not issued again, the number is exact in every state
of a run if and only if every deletion of the run that is not refused is one of a node that is there. -/
theorem node_count_exact (hash : Bytes → UInt64) (mvcc : Option Transaction.MVCCManager)
    (wal : Option WALManager) (calls : List Operation)
    (fits : Guarded (plain hash) (Fits hash) (fresh mvcc wal) calls) :
    Always (plain hash) CountExact (fresh mvcc wal) calls ↔
      Guarded (plain hash) NamesLive (fresh mvcc wal) calls := by
  refine always_iff_guarded (fun store => ∃ model, Represents store model ∧ Issued model) CountExact NamesLive
    ?_ ?_ _ calls fits ⟨{},fresh_represents mvcc wal,fun id member => absurd rfl member⟩
    (fresh_exact mvcc wal)
  · rintro store operation fits ⟨model,represents,issued⟩
    refine ⟨_,(step_simulates hash operation represents fits).2,step_issued hash operation issued ?_⟩
    rw [← represents.nodeIds,← represents.edgeIds]
    exact fits.1
  · rintro store operation fits ⟨model,represents,issued⟩ exact
    exact step_exact hash operation represents fits issued exact

theorem node_count_exact_deleted :
    Always (plain fun _ => 0) CountExact (fresh none none) [.deleteNode 7] ↔
      Guarded (plain fun _ => 0) NamesLive (fresh none none) [.deleteNode 7] :=
  node_count_exact (fun _ => 0) none none [.deleteNode 7] ⟨⟨trivial,fun _ absurd => nomatch absurd⟩,trivial⟩

/-- The deletion of a node that never was counts the nodes down from none. -/
theorem deleted_uncounted : ¬CountExact (plain (fun _ => 0) (fresh none none) (.deleteNode 7)) := by
  have represents := fresh_represents none none
  have exact : CountExact (fresh none none) := fresh_exact none none
  rw [deleteNode_exact _ _ represents exact,NamesLive,live_held represents]
  exact fun lives => lives rfl rfl

end LoreDB.Storage.NodeCount
