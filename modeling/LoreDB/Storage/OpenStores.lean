import LoreDB.Storage.RecordPages

/-! Graph stores over an open page store. Every call leaves the page store open, and while it is
open a record can always be stored. -/
namespace LoreDB.Storage.OpenStores
open LoreDB.Transaction GraphStore GraphHistory

abbrev Store := GraphStore FilePageStore

def IsOpen (store : Store) : Prop := store.pageStore.isClosed = false

variable {store : Store}

theorem storeNodeRecord_opens (nodeId : NodeId) (node : NodeRecord) (properties : List Property)
    (isOpen : IsOpen store) :
    ∃ next, storeNodeRecord nodeId node properties store = (.ok (),next) ∧ IsOpen next ∧
      next.nodeCount = store.nodeCount := by
  obtain ⟨page,pages,stored,still,_⟩ :=
    storeRecord_open .node (RecordSerializer.serializeNode node properties) store isOpen
  unfold storeNodeRecord
  rw [stored]
  exact ⟨_,rfl,still,rfl⟩

theorem storeEdgeRecord_opens (edgeId : EdgeId) (edge : EdgeRecord) (properties : List Property)
    (isOpen : IsOpen store) :
    ∃ next, storeEdgeRecord edgeId edge properties store = (.ok (),next) ∧ IsOpen next := by
  obtain ⟨page,pages,stored,still,_⟩ :=
    storeRecord_open .edge (RecordSerializer.serializeEdge edge properties) store isOpen
  unfold storeEdgeRecord
  rw [stored]
  exact ⟨_,rfl,still⟩

theorem createNode_opens (properties : List Property) (isOpen : IsOpen store) :
    ∃ next, createNode properties store = (.ok store.nextNodeId,next) ∧ IsOpen next ∧
      next.nodeCount = store.nodeCount + 1 := by
  have counted : IsOpen {store with nextNodeId := store.nextNodeId + 1} := isOpen
  obtain ⟨next,stored,still,same⟩ := storeNodeRecord_opens store.nextNodeId
    {id := store.nextNodeId, propertyCount := UInt32.ofNat properties.length} properties counted
  unfold createNode
  dsimp only
  rw [stored]
  exact ⟨_,rfl,still,congrArg (· + 1) same⟩

/-- An update fails where the node is on no page, and then changes nothing. -/
theorem updateNode_opens (nodeId : NodeId) (properties : List Property) (isOpen : IsOpen store) :
    (∃ e, (getNode nodeId store).1 = .error e ∧ updateNode nodeId properties store = (.error e,store)) ∨
      (∃ found, (getNode nodeId store).1 = .ok found) ∧
        ∃ next, updateNode nodeId properties store = (.ok (),next) ∧ IsOpen next ∧
          next.nodeCount = store.nodeCount := by
  have keeps : (getNode nodeId store).2 = store := getRecord_keeps ..
  unfold updateNode
  cases read : getNode nodeId store with
  | mk result next =>
    rw [read] at keeps
    subst keeps
    cases result with
    | error e => exact .inl ⟨e,rfl,rfl⟩
    | ok found => exact .inr ⟨⟨found,rfl⟩,storeNodeRecord_opens nodeId _ properties isOpen⟩

theorem plain_opens (hash : Bytes → UInt64) (operation : Operation) (isOpen : IsOpen store) :
    IsOpen (plain hash store operation) := by
  cases operation with
  | createNode properties =>
    obtain ⟨next,created,still,_⟩ := createNode_opens properties isOpen
    simpa only [plain,created] using still
  | updateNode nodeId properties =>
    obtain ⟨e,_,failed⟩ | ⟨_,next,updated,still,_⟩ := updateNode_opens nodeId properties isOpen
    · simpa only [plain,failed] using isOpen
    · simpa only [plain,updated] using still
  | deleteNode nodeId =>
    simp only [plain,deleteNode]
    split
    · exact isOpen
    · split <;> exact isOpen
  | createEdge clock fromNode toNode label properties =>
    simp only [plain,createEdge]
    have counted : IsOpen {store with nextEdgeId := store.nextEdgeId + 1} := isOpen
    obtain ⟨next,stored,still⟩ := storeEdgeRecord_opens store.nextEdgeId
      {id := store.nextEdgeId, fromNode := fromNode, toNode := toNode, labelId := (hash label).toUInt32,
        propertyCount := UInt32.ofNat properties.length, timestamp := clock} properties counted
    rw [stored]
    exact still
  | updateEdge edgeId properties =>
    have keeps : (getEdge edgeId store).2 = store := getRecord_keeps ..
    simp only [plain,updateEdge]
    cases read : getEdge edgeId store with
    | mk result next =>
      rw [read] at keeps
      subst keeps
      cases result with
      | error e => exact isOpen
      | ok found =>
        obtain ⟨later,stored,still⟩ := storeEdgeRecord_opens edgeId
          {found.1 with propertyCount := UInt32.ofNat properties.length} properties isOpen
        dsimp only
        rw [stored]
        exact still
  | deleteEdge edgeId =>
    have keeps : (getEdge edgeId store).2 = store := getRecord_keeps ..
    simp only [plain,deleteEdge]
    cases read : getEdge edgeId store with
    | mk result next =>
      rw [read] at keeps
      subst keeps
      cases result <;> exact isOpen

theorem versioned_opens {α : Type} (result : α) (refused : Option String) (op : String) (key : UInt64)
    (version : Version) (isOpen : IsOpen store) :
    IsOpen (versioned result refused op key version store).2 := by
  obtain ⟨mvcc,wal,same⟩ := versioned_keeps result refused op key version store
  rw [same]
  exact isOpen

/-- A transactional operation runs the plain one, or for a deleted node perhaps none. -/
theorem perform_opens (hash : Bytes → UInt64) (txId : Nat) (operation : Operation)
    (isOpen : IsOpen store) : IsOpen (perform hash txId store operation).2 := by
  have still := plain_opens hash operation isOpen
  cases operation with
  | createNode properties =>
    simp only [perform,createNodeTx,plain] at still ⊢
    cases created : createNode properties store with
    | mk result next =>
      rw [created] at still
      cases result with
      | error e => exact still
      | ok id =>
        dsimp only
        split
        · exact still
        · exact versioned_opens _ _ _ _ _ still
  | updateNode nodeId properties =>
    simp only [perform,perform.keyed,updateNodeTx,plain] at still ⊢
    cases updated : updateNode nodeId properties store with
    | mk result next =>
      rw [updated] at still
      cases result with
      | error e => exact still
      | ok _ => exact versioned_opens _ _ _ _ _ still
  | deleteNode nodeId =>
    have keeps : (getNode nodeId store).2 = store := getRecord_keeps ..
    simp only [perform,perform.keyed,deleteNodeTx,plain] at still ⊢
    cases read : getNode nodeId store with
    | mk result next =>
      rw [read] at keeps
      subst keeps
      cases result with
      | error e => exact isOpen
      | ok _ =>
        dsimp only
        split
        · exact versioned_opens _ _ _ _ _ isOpen
        · cases deleted : deleteNode nodeId next with
          | mk result later =>
            rw [deleted] at still
            cases result <;> exact still
  | createEdge clock fromNode toNode label properties =>
    simp only [perform,createEdgeTx,plain] at still ⊢
    cases created : createEdge hash clock fromNode toNode label properties store with
    | mk result next =>
      rw [created] at still
      cases result with
      | error e => exact still
      | ok _ => exact versioned_opens _ _ _ _ _ still
  | updateEdge edgeId properties =>
    simp only [perform,perform.keyed,updateEdgeTx,plain] at still ⊢
    cases updated : updateEdge edgeId properties store with
    | mk result next =>
      rw [updated] at still
      cases result with
      | error e => exact still
      | ok _ => exact versioned_opens _ _ _ _ _ still
  | deleteEdge edgeId =>
    simp only [perform,perform.keyed,deleteEdgeTx,plain] at still ⊢
    cases deleted : deleteEdge edgeId store with
    | mk result next =>
      rw [deleted] at still
      cases result with
      | error e => exact still
      | ok _ => exact versioned_opens _ _ _ _ _ still

theorem step_opens (hash : Bytes → UInt64) (call : Call) (isOpen : IsOpen store) :
    IsOpen (step hash store call) := by
  have reads (kind : Kind) (id : UInt64) : (get kind id store).2 = store := by
    cases kind <;> exact getRecord_keeps ..
  cases call with
  | begin => exact isOpen
  | commit txId => exact isOpen
  | abort txId => exact isOpen
  | collect least => exact isOpen
  | perform txId operation => exact perform_opens hash txId operation isOpen
  | plain operation => exact plain_opens hash operation isOpen
  | get kind id =>
    rw [step,reads]
    exact isOpen
  | getTx kind txId id =>
    have unified : getTx kind txId id store =
        getVersioned kind.pick kind.missing (get kind id) txId id store := by
      cases kind <;> rfl
    rw [step,unified]
    unfold getVersioned
    split
    · rw [reads]
      exact isOpen
    · split
      · split
        · exact isOpen
        · rw [reads]
          exact isOpen
      · split
        · exact isOpen
        · rw [reads]
          exact isOpen

end LoreDB.Storage.OpenStores
