import LoreDB.Storage.WrittenVersions

/-! The number of nodes that a store has counted and the ids under which it keeps nodes. The number
covers the ids as long as nodes come one after the other and only the last one goes. -/
namespace LoreDB.Storage.CountedNodes
open LoreDB.Transaction LoreDB.Library.History GraphStore GraphHistory Outlines

variable {σ : Type}

/-- Some version under an id is one of a node. -/
def NodeVersion (store : GraphStore σ) (id : NodeId) : Prop :=
  ∃ v ∈ (mvcc store).chain id, asNode v.data ≠ none

/-- Every node on a page or under a version is one of the first so many, and the number is not the
largest one. -/
structure Covered (o : Outline) (versioned : NodeId → Prop) : Prop where
  ids : ∀ id, o.nodePageIndex id ≠ none ∨ versioned id → 1 ≤ id.toNat ∧ id.toNat ≤ o.nodeCount.toNat
  passes : o.nodeCount.toNat + 1 ≠ 2 ^ 64

/-! A version is written of a node that has a page. -/

theorem placed_index (o : Outline) (id other : NodeId) (page : PageId) :
    (o.placeNode id page).nodePageIndex other ≠ none ↔ other = id ∨ o.nodePageIndex other ≠ none := by
  by_cases here : other = id
  · simp [Outline.placeNode,here]
  · simp [Outline.placeNode,here]

theorem dropped_index (o : Outline) (id other : NodeId) :
    (o.dropNode id).nodePageIndex other ≠ none ↔ other ≠ id ∧ o.nodePageIndex other ≠ none := by
  by_cases here : other = id
  · simp [Outline.dropNode,here]
  · simp [Outline.dropNode,here]

section Versions

variable [LawfulPageStore σ] (hash : Bytes → UInt64)

omit [LawfulPageStore σ] in
theorem createNode_places [PageStore σ] (properties : List Property) (store : GraphStore σ) (id : NodeId)
    (created : (createNode properties store).1 = .ok id) :
    (createNode properties store).2.nodePageIndex id ≠ none := by
  unfold createNode at created ⊢
  dsimp only at created ⊢
  obtain ⟨e,next,stored,-⟩ | ⟨page,next,stored,kept⟩ := storeNodeRecord_outline store.nextNodeId
    {id := store.nextNodeId, propertyCount := UInt32.ofNat properties.length} properties
    {store with nextNodeId := store.nextNodeId + 1}
  · rw [stored] at created
    cases created
  · rw [stored] at created ⊢
    cases created
    have placed : (outline next).nodePageIndex store.nextNodeId ≠ none := by
      rw [kept]
      exact (placed_index ..).mpr (.inl rfl)
    exact placed

omit [LawfulPageStore σ] in
theorem updateNode_placed [PageStore σ] (nodeId : NodeId) (properties : List Property) (store : GraphStore σ)
    (updated : (updateNode nodeId properties store).1 = .ok ()) : store.nodePageIndex nodeId ≠ none := by
  have placed := get_placed .node nodeId store
  unfold updateNode at updated
  cases found : getNode nodeId store with
  | mk result next =>
    simp only [GraphHistory.get,found] at updated placed
    cases result with
    | error e => cases updated
    | ok record => exact placed record rfl

/-- The node of a version has a page when the version is written, and after that as well. -/
theorem writes_placed (txId : Nat) (store : GraphStore σ) (operation : Operation)
    (writes : Writes hash store operation)
    (node : asNode (operation.version hash txId store).data ≠ none) :
    (perform hash txId store operation).2.nodePageIndex (operation.key store) ≠ none := by
  have kept (id : NodeId) (o : Outline) (known : store.nodePageIndex id ≠ none)
      (same : o = outline store ∨ ∃ page, o = (outline store).placeNode id page) :
      o.nodePageIndex id ≠ none := by
    rcases same with rfl | ⟨page,rfl⟩
    · exact known
    · exact (placed_index ..).mpr (.inl rfl)
  cases operation with
  | createNode properties =>
    obtain ⟨m,wal,same⟩ := createNodeTx_keeps txId properties store
    rw [perform,same]
    exact createNode_places properties store _ writes
  | updateNode id properties =>
    refine kept id (outline _) (updateNode_placed id properties store writes) ?_
    rcases perform_outline hash txId store (.updateNode id properties) with same | ⟨-,same⟩
    · exact .inl same
    · rcases updateNode_outline id properties store with kept | ⟨-,page,placed⟩
      · exact .inl (same.trans kept)
      · exact .inr ⟨page,same.trans placed⟩
  | deleteNode id =>
    obtain ⟨enabled,found,read⟩ := writes
    refine kept id (outline _) (get_placed .node id store found read) (.inl ?_)
    exact (perform_outline hash txId store (.deleteNode id)).resolve_right fun erases => enabled erases.1
  | createEdge clock fromNode toNode label properties => exact absurd rfl node
  | updateEdge id properties => exact absurd rfl node
  | deleteEdge id => exact absurd rfl node

/-- A new version of a node is one of a node that has a page. -/
theorem step_places (store : GraphStore σ) (call : Call) (id : NodeId)
    (kept : NodeVersion (GraphHistory.step hash store call) id) :
    NodeVersion store id ∨ (GraphHistory.step hash store call).nodePageIndex id ≠ none := by
  obtain ⟨v,member,node⟩ := kept
  rcases step_adds hash store call id v member with ⟨old,inside,same⟩ | ⟨txId,operation,rfl,rfl,rfl,writes⟩
  · exact .inl ⟨old,inside,same ▸ node⟩
  · exact .inr (writes_placed hash txId store operation writes node)

end Versions

/-! The number. -/

/-- What a creation and a deletion without a transaction need for the number to cover the ids: a node
that is created comes right after the others, and one that is deleted is the last. -/
def InTurn [PageStore σ] (store : GraphStore σ) : Operation → Prop
  | .createNode properties => (createNode properties store).1 = .ok store.nextNodeId →
      (1 ≤ store.nextNodeId.toNat ∧ store.nextNodeId.toNat ≤ store.nodeCount.toNat + 1) ∧
        store.nodeCount.toNat + 2 < 2 ^ 64
  | .deleteNode id => (deleteNode id store).1 = .ok () →
      store.nodeCount ≠ 0 ∧ (store.nodePageIndex store.nodeCount ≠ none → store.nodeCount = id) ∧
        ¬NodeVersion store store.nodeCount
  | _ => True

def Counted [PageStore σ] (store : GraphStore σ) (call : Call) : Prop :=
  ∀ operation, Performs store call operation → InTurn store operation

section Steps

variable {versioned : NodeId → Prop}

theorem Covered.placed {o : Outline} (covered : Covered o versioned) (id : NodeId) (page : PageId)
    (known : o.nodePageIndex id ≠ none) : Covered (o.placeNode id page) versioned where
  ids other kept := by
    rw [placed_index] at kept
    rcases kept with (rfl | placed) | version
    · exact covered.ids other (.inl known)
    · exact covered.ids other (.inl placed)
    · exact covered.ids other (.inr version)
  passes := covered.passes

theorem Covered.created {o : Outline} (covered : Covered o versioned) (id : NodeId) (page : PageId)
    (next : 1 ≤ id.toNat ∧ id.toNat ≤ o.nodeCount.toNat + 1) (room : o.nodeCount.toNat + 2 < 2 ^ 64) :
    Covered (o.issueNode.placeNode id page).countNode versioned := by
  have count : (o.nodeCount + 1).toNat = o.nodeCount.toNat + 1 := by
    rw [UInt64.toNat_add,UInt64.toNat_one,Nat.mod_eq_of_lt (by omega)]
  refine ⟨fun other kept => ?_,?_⟩
  · change (o.issueNode.placeNode id page).nodePageIndex other ≠ none ∨ _ at kept
    change _ ∧ _ ≤ (o.nodeCount + 1).toNat
    rw [count]
    rw [placed_index] at kept
    rcases kept with (rfl | placed) | version
    · exact next
    · exact (covered.ids other (.inl placed)).imp_right Nat.le_succ_of_le
    · exact (covered.ids other (.inr version)).imp_right Nat.le_succ_of_le
  · change (o.nodeCount + 1).toNat + 1 ≠ 2 ^ 64
    omega

theorem Covered.deleted {o : Outline} (covered : Covered o versioned) (id : NodeId) (some : o.nodeCount ≠ 0)
    (last : o.nodePageIndex o.nodeCount ≠ none → o.nodeCount = id) (unversioned : ¬versioned o.nodeCount) :
    Covered (o.dropNode id) versioned := by
  have positive : o.nodeCount.toNat ≠ 0 := fun zero => some (UInt64.toNat.inj zero)
  have least : (1 : UInt64) ≤ o.nodeCount := by
    rw [UInt64.le_iff_toNat_le,UInt64.toNat_one]
    omega
  have count : (o.nodeCount - 1).toNat = o.nodeCount.toNat - 1 :=
    UInt64.toNat_sub_of_le _ _ least
  refine ⟨fun other kept => ?_,?_⟩
  · rw [dropped_index] at kept
    change _ ∧ _ ≤ (o.nodeCount - 1).toNat
    have old := covered.ids other (kept.imp_left And.right)
    have apart : other ≠ o.nodeCount := by
      rintro rfl
      rcases kept with ⟨apart,placed⟩ | version
      · exact apart (last placed)
      · exact unversioned version
    have apart' : other.toNat ≠ o.nodeCount.toNat := fun same => apart (UInt64.toNat.inj same)
    rw [count]
    omega
  · change (o.nodeCount - 1).toNat + 1 ≠ 2 ^ 64
    have bound := o.nodeCount.toNat_lt
    omega

theorem plain_covers [PageStore σ] (hash : Bytes → UInt64) (store : GraphStore σ) (operation : Operation)
    (covered : Covered (outline store) (NodeVersion store)) (inTurn : InTurn store operation) :
    Covered (outline (plain hash store operation)) (NodeVersion store) := by
  cases operation with
  | createNode properties =>
    obtain same | ⟨created,page,same⟩ := createNode_outline properties store
    · exact same ▸ ⟨covered.ids,covered.passes⟩
    · obtain ⟨next,room⟩ := inTurn created
      exact same ▸ covered.created store.nextNodeId page next room
  | updateNode key properties =>
    obtain same | ⟨known,page,same⟩ := updateNode_outline key properties store
    · exact same ▸ covered
    · exact same ▸ covered.placed key page known
  | deleteNode key =>
    obtain same | ⟨-,-,deleted,same⟩ := deleteNode_outline key store
    · exact same ▸ covered
    · obtain ⟨some,last,unversioned⟩ := inTurn deleted
      exact same ▸ covered.deleted key some last unversioned
  | createEdge clock fromNode toNode label properties =>
    obtain same | ⟨page,same⟩ := createEdge_outline hash clock fromNode toNode label properties store
    · exact same ▸ ⟨covered.ids,covered.passes⟩
    · exact same ▸ ⟨covered.ids,covered.passes⟩
  | updateEdge key properties =>
    obtain same | ⟨-,page,same⟩ := updateEdge_outline key properties store
    · exact same ▸ covered
    · exact same ▸ ⟨covered.ids,covered.passes⟩
  | deleteEdge key =>
    obtain same | ⟨-,fromNode,toNode,same⟩ := deleteEdge_outline key store
    · exact same ▸ covered
    · exact same ▸ ⟨covered.ids,covered.passes⟩

theorem step_covers [LawfulPageStore σ] (hash : Bytes → UInt64) (store : GraphStore σ) (call : Call)
    (covered : Covered (outline store) (NodeVersion store)) (counted : Counted store call) :
    Covered (outline (GraphHistory.step hash store call))
      (NodeVersion (GraphHistory.step hash store call)) := by
  have moved : Covered (outline (GraphHistory.step hash store call)) (NodeVersion store) := by
    obtain same | ⟨operation,performs,same⟩ := step_outline hash store call
    · exact same ▸ covered
    · exact same ▸ plain_covers hash store operation covered (counted operation performs)
  refine ⟨fun id kept => moved.ids id ?_,moved.passes⟩
  rcases kept with placed | version
  · exact .inl placed
  · exact (step_places hash store call id version).symm

end Steps

end LoreDB.Storage.CountedNodes
