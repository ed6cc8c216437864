import LoreDB.Storage.Outlines

/-! Operations that report an error. The calls go to the page store first, and what they change behind it
cannot fail. So an error leaves the indices, the lists and the counters as they were. The pages that the
indices name are kept wherever the page store keeps them. -/
namespace LoreDB.Storage.KeptPages
open LoreDB.Transaction LoreDB.Library.History GraphStore GraphHistory Outlines

section Kept

variable {σ : Type} [PageStore σ]

/-- What reading a page and storing a record do to a page store at most, and the pages it has handed out. -/
structure Keeping (σ : Type) [PageStore σ] where
  kept : σ → σ → Prop
  held : σ → PageId → Prop
  refl : ∀ pages, kept pages pages
  trans : ∀ first second third, kept first second → kept second third → kept first third
  held_kept : ∀ before later, kept before later → ∀ page, held before page → held later page
  read : ∀ page pages, kept pages (PageStore.readPage page pages).2
  stored : ∀ (type : PageType) (serialized : Bytes) (store : GraphStore σ),
    kept store.pageStore (storeRecord type serialized store).2.pageStore ∧
      ∀ page, (storeRecord type serialized store).1 = .ok page →
        held (storeRecord type serialized store).2.pageStore page

/-- The pages are kept, and an index names a page newly only where it has been handed out. -/
structure Kept (keeping : Keeping σ) (before later : GraphStore σ) : Prop where
  pages : keeping.kept before.pageStore later.pageStore
  placed : ∀ kind id page, pageIndex later kind id = some page →
    pageIndex before kind id = some page ∨ keeping.held later.pageStore page
  versions : later.mvccManager = before.mvccManager

def Placed (keeping : Keeping σ) (store : GraphStore σ) : Prop :=
  ∀ kind id page, pageIndex store kind id = some page → keeping.held store.pageStore page

section Steps

variable {keeping : Keeping σ}

theorem Kept.trans {first second third : GraphStore σ} (start : Kept keeping first second)
    (finish : Kept keeping second third) : Kept keeping first third where
  pages := keeping.trans _ _ _ start.pages finish.pages
  placed kind id page found := by
    rcases finish.placed kind id page found with earlier | held
    · exact (start.placed kind id page earlier).imp_right (keeping.held_kept _ _ finish.pages page)
    · exact .inr held
  versions := finish.versions.trans start.versions

theorem Kept.keeps_placed {before later : GraphStore σ} (kept : Kept keeping before later)
    (placed : Placed keeping before) : Placed keeping later := by
  intro kind id page found
  rcases kept.placed kind id page found with earlier | held
  · exact keeping.held_kept _ _ kept.pages page (placed kind id page earlier)
  · exact held

theorem kept_refl (store : GraphStore σ) : Kept keeping store store :=
  ⟨keeping.refl _,fun _ _ _ => .inl,rfl⟩

theorem storeRecord_keeps (type : PageType) (serialized : Bytes) (store : GraphStore σ) :
    Kept keeping store (storeRecord type serialized store).2 := by
  refine ⟨(keeping.stored type serialized store).1,fun kind id page found => .inl ?_,?_⟩
  · have same := storeRecord_outline type serialized store
    cases kind with
    | node => exact (congrFun (congrArg Outline.nodePageIndex same) id).symm.trans found
    | edge => exact (congrFun (congrArg Outline.edgePageIndex same) id).symm.trans found
  · unfold storeRecord
    split
    · rfl
    · split <;> rfl

theorem storeNodeRecord_keeps (nodeId : NodeId) (node : NodeRecord) (properties : List Property)
    (store : GraphStore σ) : Kept keeping store (storeNodeRecord nodeId node properties store).2 := by
  have kept : Kept keeping store _ :=
    storeRecord_keeps .node (RecordSerializer.serializeNode node properties) store
  have held := (keeping.stored .node (RecordSerializer.serializeNode node properties) store).2
  unfold storeNodeRecord
  cases stored : storeRecord .node (RecordSerializer.serializeNode node properties) store with
  | mk result next =>
    rw [stored] at kept held
    cases result with
    | error e => exact kept
    | ok page =>
      refine ⟨kept.pages,fun kind id target found => ?_,kept.versions⟩
      cases kind with
      | node =>
        by_cases here : id = nodeId
        · subst here
          have named : page = target := by simpa [pageIndex] using found
          exact .inr (named ▸ held page rfl)
        · exact kept.placed .node id target ((Function.update_of_ne here _ _).symm.trans found)
      | edge => exact kept.placed .edge id target found

theorem storeEdgeRecord_keeps (edgeId : EdgeId) (edge : EdgeRecord) (properties : List Property)
    (store : GraphStore σ) : Kept keeping store (storeEdgeRecord edgeId edge properties store).2 := by
  have kept : Kept keeping store _ :=
    storeRecord_keeps .edge (RecordSerializer.serializeEdge edge properties) store
  have held := (keeping.stored .edge (RecordSerializer.serializeEdge edge properties) store).2
  unfold storeEdgeRecord
  cases stored : storeRecord .edge (RecordSerializer.serializeEdge edge properties) store with
  | mk result next =>
    rw [stored] at kept held
    cases result with
    | error e => exact kept
    | ok page =>
      refine ⟨kept.pages,fun kind id target found => ?_,kept.versions⟩
      cases kind with
      | edge =>
        by_cases here : id = edgeId
        · subst here
          have named : page = target := by simpa [pageIndex] using found
          exact .inr (named ▸ held page rfl)
        · exact kept.placed .edge id target ((Function.update_of_ne here _ _).symm.trans found)
      | node => exact kept.placed .node id target found

theorem getRecord_keeps {ρ : Type} (entry : Option PageId) (type : PageType) (missing wrongType : String)
    (deserialize : Bytes → Except Error ρ) (store : GraphStore σ) :
    Kept keeping store (getRecord entry type missing wrongType deserialize store).2 := by
  unfold getRecord
  cases entry with
  | none => exact kept_refl store
  | some page =>
    have reads := keeping.read page store.pageStore
    dsimp only
    cases read : PageStore.readPage page store.pageStore with
    | mk result pages =>
      rw [read] at reads
      cases result with
      | error e => exact ⟨reads,fun _ _ _ => .inl,rfl⟩
      | ok data => exact ⟨reads,fun _ _ _ => .inl,rfl⟩

theorem get_keeps (kind : Kind) (id : UInt64) (store : GraphStore σ) :
    Kept keeping store (GraphHistory.get kind id store).2 := by
  cases kind with
  | node => exact getRecord_keeps ..
  | edge => exact getRecord_keeps ..

/-- An index that forgets an id names no page newly. -/
theorem kept_forgets {before later : GraphStore σ} (kept : Kept keeping before later) (forgetting : GraphStore σ)
    (pages : forgetting.pageStore = later.pageStore) (versions : forgetting.mvccManager = later.mvccManager)
    (fewer : ∀ kind id page, pageIndex forgetting kind id = some page → pageIndex later kind id = some page) :
    Kept keeping before forgetting where
  pages := pages ▸ kept.pages
  placed kind id page found := pages ▸ kept.placed kind id page (fewer kind id page found)
  versions := versions.trans kept.versions

theorem createNode_keeps (properties : List Property) (store : GraphStore σ) :
    Kept keeping store (createNode properties store).2 := by
  have started : Kept keeping store {store with nextNodeId := store.nextNodeId + 1} :=
    ⟨keeping.refl _,fun _ _ _ => .inl,rfl⟩
  have kept := started.trans (storeNodeRecord_keeps store.nextNodeId
    {id := store.nextNodeId, propertyCount := UInt32.ofNat properties.length} properties _)
  unfold createNode
  dsimp only
  cases stored : storeNodeRecord store.nextNodeId
      {id := store.nextNodeId, propertyCount := UInt32.ofNat properties.length} properties
      {store with nextNodeId := store.nextNodeId + 1} with
  | mk result next =>
    rw [stored] at kept
    cases result with
    | error e => exact kept
    | ok _ => exact ⟨kept.pages,kept.placed,kept.versions⟩

theorem updateNode_keeps (nodeId : NodeId) (properties : List Property) (store : GraphStore σ) :
    Kept keeping store (updateNode nodeId properties store).2 := by
  have reads : Kept keeping store _ := get_keeps .node nodeId store
  unfold updateNode
  cases found : getNode nodeId store with
  | mk result next =>
    simp only [GraphHistory.get,found] at reads
    cases result with
    | error e => exact reads
    | ok record => exact reads.trans (storeNodeRecord_keeps ..)

theorem updateEdge_keeps (edgeId : EdgeId) (properties : List Property) (store : GraphStore σ) :
    Kept keeping store (updateEdge edgeId properties store).2 := by
  have reads : Kept keeping store _ := get_keeps .edge edgeId store
  unfold updateEdge
  cases found : getEdge edgeId store with
  | mk result next =>
    simp only [GraphHistory.get,found] at reads
    cases result with
    | error e => exact reads
    | ok record => exact reads.trans (storeEdgeRecord_keeps ..)

theorem deleteNode_keeps (nodeId : NodeId) (store : GraphStore σ) :
    Kept keeping store (deleteNode nodeId store).2 := by
  have forgotten (id : NodeId) (page : PageId)
      (found : Function.update store.nodePageIndex nodeId none id = some page) :
      store.nodePageIndex id = some page := by
    by_cases here : id = nodeId
    · subst here
      simp at found
    · rwa [Function.update_of_ne here] at found
  unfold deleteNode
  split
  · exact kept_refl store
  · split
    · exact kept_refl store
    · refine kept_forgets (kept_refl store) _ rfl rfl fun kind id page found => ?_
      cases kind with
      | node => exact forgotten id page found
      | edge => exact found

theorem createEdge_keeps (hash : Bytes → UInt64) (clock : UInt64) (fromNode toNode : NodeId) (label : Bytes)
    (properties : List Property) (store : GraphStore σ) :
    Kept keeping store (createEdge hash clock fromNode toNode label properties store).2 := by
  have started : Kept keeping store {store with nextEdgeId := store.nextEdgeId + 1} :=
    ⟨keeping.refl _,fun _ _ _ => .inl,rfl⟩
  unfold createEdge
  dsimp only
  generalize ({
    id := store.nextEdgeId
    fromNode := fromNode
    toNode := toNode
    labelId := (hash label).toUInt32
    propertyCount := UInt32.ofNat properties.length
    timestamp := clock} : EdgeRecord) = edge
  have kept := started.trans (storeEdgeRecord_keeps store.nextEdgeId edge properties _)
  cases stored : storeEdgeRecord store.nextEdgeId edge properties {store with nextEdgeId := store.nextEdgeId + 1} with
  | mk result next =>
    rw [stored] at kept
    cases result with
    | error e => exact kept
    | ok _ => exact ⟨kept.pages,kept.placed,kept.versions⟩

theorem deleteEdge_keeps (edgeId : EdgeId) (store : GraphStore σ) :
    Kept keeping store (deleteEdge edgeId store).2 := by
  have reads : Kept keeping store _ := get_keeps .edge edgeId store
  unfold deleteEdge
  cases found : getEdge edgeId store with
  | mk result next =>
    simp only [GraphHistory.get,found] at reads
    cases result with
    | error e => exact reads
    | ok record =>
      refine kept_forgets reads _ rfl rfl fun kind id page named => ?_
      cases kind with
      | node => exact named
      | edge =>
        change Function.update next.edgePageIndex edgeId none id = some page at named
        by_cases here : id = edgeId
        · subst here
          simp at named
        · rwa [Function.update_of_ne here] at named

theorem plain_keeps (hash : Bytes → UInt64) (store : GraphStore σ) (operation : Operation) :
    Kept keeping store (plain hash store operation) := by
  cases operation with
  | createNode properties => exact createNode_keeps properties store
  | updateNode id properties => exact updateNode_keeps id properties store
  | deleteNode id => exact deleteNode_keeps id store
  | createEdge clock fromNode toNode label properties =>
    exact createEdge_keeps hash clock fromNode toNode label properties store
  | updateEdge id properties => exact updateEdge_keeps id properties store
  | deleteEdge id => exact deleteEdge_keeps id store

/-- A version changes nothing on the pages and in the indices. -/
theorem versioned_placed {α : Type} (result : α) (refused : Option String) (op : String) (key : UInt64)
    (version : Version) (store : GraphStore σ) (placed : Placed keeping store) :
    Placed keeping (versioned result refused op key version store).2 := by
  obtain ⟨mvcc,wal,same⟩ := versioned_keeps result refused op key version store
  rw [same]
  exact placed

theorem perform_placed (hash : Bytes → UInt64) (txId : Nat) (store : GraphStore σ) (operation : Operation)
    (placed : Placed keeping store) : Placed keeping (perform hash txId store operation).2 := by
  have plainly := (plain_keeps hash store operation).keeps_placed placed
  cases operation with
  | createNode properties =>
    simp only [perform,createNodeTx,plain] at plainly ⊢
    cases created : createNode properties store with
    | mk result next =>
      rw [created] at plainly
      cases result with
      | error e => exact plainly
      | ok nodeId =>
        dsimp only
        split
        · exact plainly
        · exact versioned_placed _ _ _ _ _ _ plainly
  | updateNode id properties =>
    simp only [perform,perform.keyed,updateNodeTx,plain] at plainly ⊢
    cases updated : updateNode id properties store with
    | mk result next =>
      rw [updated] at plainly
      cases result with
      | error e => exact plainly
      | ok _ => exact versioned_placed _ _ _ _ _ _ plainly
  | deleteNode id =>
    have reads := (get_keeps .node id store).keeps_placed placed
    simp only [perform,perform.keyed,deleteNodeTx]
    cases found : getNode id store with
    | mk result next =>
      simp only [GraphHistory.get,found] at reads
      cases result with
      | error e => exact reads
      | ok record =>
        dsimp only
        split
        · exact versioned_placed _ _ _ _ _ _ reads
        · have deletes := (deleteNode_keeps id next).keeps_placed reads
          cases deleted : deleteNode id next with
          | mk result later =>
            rw [deleted] at deletes
            cases result <;> exact deletes
  | createEdge clock fromNode toNode label properties =>
    simp only [perform,createEdgeTx,plain] at plainly ⊢
    cases created : createEdge hash clock fromNode toNode label properties store with
    | mk result next =>
      rw [created] at plainly
      cases result with
      | error e => exact plainly
      | ok edgeId => exact versioned_placed _ _ _ _ _ _ plainly
  | updateEdge id properties =>
    simp only [perform,perform.keyed,updateEdgeTx,plain] at plainly ⊢
    cases updated : updateEdge id properties store with
    | mk result next =>
      rw [updated] at plainly
      cases result with
      | error e => exact plainly
      | ok _ => exact versioned_placed _ _ _ _ _ _ plainly
  | deleteEdge id =>
    simp only [perform,perform.keyed,deleteEdgeTx,plain] at plainly ⊢
    cases deleted : deleteEdge id store with
    | mk result next =>
      rw [deleted] at plainly
      cases result with
      | error e => exact plainly
      | ok _ => exact versioned_placed _ _ _ _ _ _ plainly

theorem step_placed (hash : Bytes → UInt64) (store : GraphStore σ) (call : Call)
    (placed : Placed keeping store) : Placed keeping (GraphHistory.step hash store call) := by
  cases call with
  | begin | commit _ | abort _ | collect _ => exact placed
  | plain operation => exact (plain_keeps hash store operation).keeps_placed placed
  | perform txId operation => exact perform_placed hash txId store operation placed
  | get kind id => exact (get_keeps kind id store).keeps_placed placed
  | getTx kind txId id =>
    have unified : getTx kind txId id store =
        getVersioned kind.pick kind.missing (GraphHistory.get kind id) txId id store := by
      cases kind <;> rfl
    have reads : Placed keeping (GraphHistory.get kind id store).2 := (get_keeps kind id store).keeps_placed placed
    rw [GraphHistory.step,unified]
    unfold getVersioned
    split
    · exact reads
    · split
      · split
        · exact placed
        · exact reads
      · split
        · exact placed
        · exact reads

end Steps

/-! An error leaves nothing behind but an id that is not issued again. -/

theorem failed_outline (hash : Bytes → UInt64) (store : GraphStore σ) (operation : Operation) (e : Error)
    (failed : GraphRefinement.answer hash store operation = .error e) :
    ∃ nodeId edgeId, outline (plain hash store operation) =
      {outline store with nextNodeId := nodeId, nextEdgeId := edgeId} := by
  unfold GraphRefinement.answer at failed
  unfold plain
  cases operation with
  | createNode properties =>
    dsimp only at failed ⊢
    obtain same | ⟨issued,-⟩ := createNode_outline properties store
    · exact ⟨_,_,same⟩
    · rw [issued] at failed
      cases failed
  | updateNode id properties =>
    have reads := get_outline .node id store
    dsimp only at failed ⊢
    unfold updateNode at failed ⊢
    cases found : getNode id store with
    | mk result next =>
      simp only [GraphHistory.get,found] at reads failed ⊢
      cases result with
      | error e => exact ⟨_,_,reads⟩
      | ok record =>
        dsimp only at failed ⊢
        obtain ⟨e,later,stored,kept⟩ | ⟨page,later,stored,-⟩ := storeNodeRecord_outline id
          {record.1 with propertyCount := UInt32.ofNat properties.length} properties next
        · rw [stored]
          exact ⟨_,_,kept.trans reads⟩
        · rw [stored] at failed
          cases failed
  | deleteNode id =>
    dsimp only at failed ⊢
    obtain same | ⟨-,-,succeeds,-⟩ := deleteNode_outline id store
    · exact ⟨_,_,same⟩
    · rw [succeeds] at failed
      cases failed
  | createEdge clock fromNode toNode label properties =>
    dsimp only at failed ⊢
    unfold createEdge at failed ⊢
    dsimp only at failed ⊢
    generalize ({
      id := store.nextEdgeId
      fromNode := fromNode
      toNode := toNode
      labelId := (hash label).toUInt32
      propertyCount := UInt32.ofNat properties.length
      timestamp := clock} : EdgeRecord) = edge at failed ⊢
    obtain ⟨e,next,stored,kept⟩ | ⟨page,next,stored,-⟩ := storeEdgeRecord_outline store.nextEdgeId edge
      properties {store with nextEdgeId := store.nextEdgeId + 1}
    · rw [stored]
      exact ⟨_,_,kept⟩
    · rw [stored] at failed
      cases failed
  | updateEdge id properties =>
    have reads := get_outline .edge id store
    dsimp only at failed ⊢
    unfold updateEdge at failed ⊢
    cases found : getEdge id store with
    | mk result next =>
      simp only [GraphHistory.get,found] at reads failed ⊢
      cases result with
      | error e => exact ⟨_,_,reads⟩
      | ok record =>
        dsimp only at failed ⊢
        obtain ⟨e,later,stored,kept⟩ | ⟨page,later,stored,-⟩ := storeEdgeRecord_outline id
          {record.1 with propertyCount := UInt32.ofNat properties.length} properties next
        · rw [stored]
          exact ⟨_,_,kept.trans reads⟩
        · rw [stored] at failed
          cases failed
  | deleteEdge id =>
    have reads := get_outline .edge id store
    dsimp only at failed ⊢
    unfold deleteEdge at failed ⊢
    cases found : getEdge id store with
    | mk result next =>
      simp only [GraphHistory.get,found] at reads failed ⊢
      cases result with
      | error e => exact ⟨_,_,reads⟩
      | ok record => cases failed

/-- Nobody who reads without a transaction can tell the stores apart. -/
structure Unseen (before later : GraphStore σ) : Prop where
  reads : ∀ kind id, (GraphHistory.get kind id later).1 = (GraphHistory.get kind id before).1
  outgoing : ∀ node, getOutgoingEdges node later = getOutgoingEdges node before
  incoming : ∀ node, getIncomingEdges node later = getIncomingEdges node before
  nodeCount : later.nodeCount = before.nodeCount
  edgeCount : later.edgeCount = before.edgeCount

end Kept

theorem unseen_outline {σ : Type} [LawfulPageStore σ] {before later : GraphStore σ}
    (placed : GraphHistory.Placed before) (kept : PagesKept before.pageStore later.pageStore) (nodeId : NodeId)
    (edgeId : EdgeId) (same : outline later = {outline before with nextNodeId := nodeId, nextEdgeId := edgeId}) :
    Unseen before later := by
  refine ⟨fun kind id => get_congr kind id before later placed kept ?_,fun node => ?_,fun node => ?_,?_,?_⟩
  · cases kind with
    | node => exact congrFun (congrArg Outline.nodePageIndex same) id
    | edge => exact congrFun (congrArg Outline.edgePageIndex same) id
  · exact congrFun (congrArg Outline.outgoingEdges same) node
  · exact congrFun (congrArg Outline.incomingEdges same) node
  · exact congrArg Outline.nodeCount same
  · exact congrArg Outline.edgeCount same

end LoreDB.Storage.KeptPages
