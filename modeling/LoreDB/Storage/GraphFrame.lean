import LoreDB.Storage.GraphHistory

/-! What the calls on a graph store leave alone. Every operation gets a page of its own
for the record it writes, so the pages of all other records, their index entries and
their places in the adjacency lists stay as they are. -/
namespace LoreDB.Storage.GraphHistory
open LoreDB.Transaction LoreDB.Library LoreDB.Library.History GraphStore PageStore LawfulPageStore

variable {σ : Type} [LawfulPageStore σ]

def PagesKept (before later : σ) : Prop :=
  ∀ page, allocated before page →
    allocated later page ∧ (readPage page later).1 = (readPage page before).1

theorem pages_refl (pages : σ) : PagesKept pages pages := fun _ held => ⟨held,rfl⟩

theorem pages_trans {first second third : σ} (start : PagesKept first second)
    (finish : PagesKept second third) : PagesKept first third := by
  intro page held
  obtain ⟨middle,same⟩ := start page held
  obtain ⟨last,again⟩ := finish page middle
  exact ⟨last,again.trans same⟩

/-- What an operation on one record leaves alone. -/
structure Touches (kind : Kind) (id : UInt64) (before later : GraphStore σ) : Prop where
  pages : PagesKept before.pageStore later.pageStore
  index : ∀ other key, (other,key) ≠ (kind,id) →
    pageIndex later other key = pageIndex before other key
  placed : ∀ page, pageIndex later kind id = some page →
    pageIndex before kind id = some page ∨ allocated later.pageStore page
  outgoing : ∀ node edge, (Kind.edge,edge) ≠ (kind,id) →
    (edge ∈ later.outgoingEdges node ↔ edge ∈ before.outgoingEdges node)
  incoming : ∀ node edge, (Kind.edge,edge) ≠ (kind,id) →
    (edge ∈ later.incomingEdges node ↔ edge ∈ before.incomingEdges node)
  versions : later.mvccManager = before.mvccManager

theorem touches_pages (kind : Kind) (id : UInt64) (store : GraphStore σ) (pages : σ)
    (kept : PagesKept store.pageStore pages) :
    Touches kind id store {store with pageStore := pages} :=
  ⟨kept,fun _ _ _ => rfl,fun _ => .inl,fun _ _ _ => Iff.rfl,fun _ _ _ => Iff.rfl,rfl⟩

theorem Touches.trans {kind : Kind} {id : UInt64} {first second third : GraphStore σ}
    (start : Touches kind id first second) (finish : Touches kind id second third) :
    Touches kind id first third where
  pages := pages_trans start.pages finish.pages
  index other key apart := (finish.index other key apart).trans (start.index other key apart)
  placed page found := by
    rcases finish.placed page found with earlier | held
    · exact (start.placed page earlier).imp_right fun held => (finish.pages page held).1
    · exact .inr held
  outgoing node edge apart := (finish.outgoing node edge apart).trans (start.outgoing node edge apart)
  incoming node edge apart := (finish.incoming node edge apart).trans (start.incoming node edge apart)
  versions := finish.versions.trans start.versions

/-- A record goes to a page that no index names yet. -/
theorem storeRecord_spec (type : PageType) (serialized : Bytes) (store : GraphStore σ) :
    ∃ pages, PagesKept store.pageStore pages ∧
      (storeRecord type serialized store).2 = {store with pageStore := pages} ∧
      ∀ page, (storeRecord type serialized store).1 = .ok page → allocated pages page := by
  have fresh := allocate_fresh store.pageStore
  have keeps := allocate_keeps store.pageStore
  unfold storeRecord
  cases taken : allocatePage store.pageStore with
  | mk result pages =>
    rw [taken] at fresh keeps
    cases result with
    | error e => exact ⟨pages,keeps,rfl,fun _ absurd => nomatch absurd⟩
    | ok page =>
      obtain ⟨unused,held⟩ := fresh page rfl
      have writes := write_keeps pages page (pageImage page type serialized)
      dsimp only
      cases wrote : writePage page (pageImage page type serialized) pages with
      | mk result last =>
        rw [wrote] at writes
        have kept : PagesKept store.pageStore last := by
          intro other earlier
          obtain ⟨present,same⟩ := keeps other earlier
          obtain ⟨still,unwritten⟩ := writes other present
          exact ⟨still,(unwritten fun same => unused (same ▸ earlier)).trans same⟩
        cases result with
        | error e => exact ⟨last,kept,rfl,fun _ absurd => nomatch absurd⟩
        | ok _ =>
          refine ⟨last,kept,rfl,fun other returned => ?_⟩
          cases returned
          exact (writes page held).1

theorem storeNodeRecord_touches (nodeId : NodeId) (node : NodeRecord) (properties : List Property)
    (store : GraphStore σ) :
    Touches .node nodeId store (storeNodeRecord nodeId node properties store).2 := by
  obtain ⟨pages,kept,same,placed⟩ :=
    storeRecord_spec .node (RecordSerializer.serializeNode node properties) store
  unfold storeNodeRecord
  cases stored : storeRecord .node (RecordSerializer.serializeNode node properties) store with
  | mk result next =>
    rw [stored] at same placed
    cases same
    cases result with
    | error e => exact touches_pages _ _ _ _ kept
    | ok page =>
      refine ⟨kept,fun other key apart => ?_,fun target found => .inr ?_,fun _ _ _ => Iff.rfl,
        fun _ _ _ => Iff.rfl,rfl⟩
      · cases other with
        | node => exact Function.update_of_ne (fun same => apart (congrArg _ same)) _ _
        | edge => rfl
      · have named : page = target := by simpa [pageIndex] using found
        subst named
        exact placed page rfl

theorem storeEdgeRecord_touches (edgeId : EdgeId) (edge : EdgeRecord) (properties : List Property)
    (store : GraphStore σ) :
    Touches .edge edgeId store (storeEdgeRecord edgeId edge properties store).2 := by
  obtain ⟨pages,kept,same,placed⟩ :=
    storeRecord_spec .edge (RecordSerializer.serializeEdge edge properties) store
  unfold storeEdgeRecord
  cases stored : storeRecord .edge (RecordSerializer.serializeEdge edge properties) store with
  | mk result next =>
    rw [stored] at same placed
    cases same
    cases result with
    | error e => exact touches_pages _ _ _ _ kept
    | ok page =>
      refine ⟨kept,fun other key apart => ?_,fun target found => .inr ?_,fun _ _ _ => Iff.rfl,
        fun _ _ _ => Iff.rfl,rfl⟩
      · cases other with
        | node => rfl
        | edge => exact Function.update_of_ne (fun same => apart (congrArg _ same)) _ _
      · have named : page = target := by simpa [pageIndex] using found
        subst named
        exact placed page rfl

theorem getRecord_spec {ρ : Type} (entry : Option PageId) (type : PageType)
    (missing wrongType : String) (deserialize : Bytes → Except Error ρ) (store : GraphStore σ) :
    ∃ pages, PagesKept store.pageStore pages ∧
      (getRecord entry type missing wrongType deserialize store).2 =
        {store with pageStore := pages} := by
  unfold getRecord
  cases entry with
  | none => exact ⟨store.pageStore,pages_refl _,rfl⟩
  | some page =>
    have keeps := read_keeps store.pageStore page
    dsimp only
    cases found : readPage page store.pageStore with
    | mk result pages =>
      rw [found] at keeps
      cases result with
      | error e => exact ⟨pages,keeps,rfl⟩
      | ok data => exact ⟨pages,keeps,rfl⟩

/-- Reads agree on stores that index the same page and read it alike. -/
theorem getRecord_congr {ρ : Type} (entry : Option PageId) (type : PageType)
    (missing wrongType : String) (deserialize : Bytes → Except Error ρ)
    (before later : GraphStore σ) (placed : ∀ page, entry = some page → allocated before.pageStore page)
    (kept : PagesKept before.pageStore later.pageStore) :
    (getRecord entry type missing wrongType deserialize later).1 =
      (getRecord entry type missing wrongType deserialize before).1 := by
  unfold getRecord
  cases entry with
  | none => rfl
  | some page =>
    have same := (kept page (placed page rfl)).2
    dsimp only
    cases first : readPage page before.pageStore with
    | mk result pages =>
      cases second : readPage page later.pageStore with
      | mk other others =>
        rw [first,second] at same
        cases same
        cases result <;> rfl

theorem get_spec (kind : Kind) (id : UInt64) (store : GraphStore σ) :
    ∃ pages, PagesKept store.pageStore pages ∧
      (get kind id store).2 = {store with pageStore := pages} := by
  cases kind with
  | node => exact getRecord_spec ..
  | edge => exact getRecord_spec ..

/-- Two stores with the same pages under the same index are read alike. -/
theorem get_same (kind : Kind) (id : UInt64) (before later : GraphStore σ)
    (pages : later.pageStore = before.pageStore)
    (index : pageIndex later kind id = pageIndex before kind id) :
    (GraphHistory.get kind id later).1 = (GraphHistory.get kind id before).1 := by
  have records {ρ : Type} (entry : Option PageId) (type : PageType) (missing wrongType : String)
      (deserialize : Bytes → Except Error ρ) :
      (getRecord entry type missing wrongType deserialize later).1 =
        (getRecord entry type missing wrongType deserialize before).1 := by
    unfold getRecord
    rw [pages]
    cases entry with
    | none => rfl
    | some page =>
      dsimp only
      split <;> rfl
  cases kind with
  | node =>
    change later.nodePageIndex id = before.nodePageIndex id at index
    simp only [GraphHistory.get,getNode,index]
    exact records ..
  | edge =>
    change later.edgePageIndex id = before.edgePageIndex id at index
    simp only [GraphHistory.get,getEdge,index]
    exact records ..

theorem manage_reads (call : MvccHistory.Call) (kind : Kind) (id : UInt64) (store : GraphStore σ) :
    (get kind id (manage call store)).1 = (get kind id store).1 :=
  get_same kind id store (manage call store) rfl (by cases kind <;> rfl)

def Placed (store : GraphStore σ) : Prop :=
  ∀ kind id page, pageIndex store kind id = some page → allocated store.pageStore page

theorem get_congr (kind : Kind) (id : UInt64) (before later : GraphStore σ) (placed : Placed before)
    (kept : PagesKept before.pageStore later.pageStore)
    (same : pageIndex later kind id = pageIndex before kind id) :
    (get kind id later).1 = (get kind id before).1 := by
  have entry := placed kind id
  cases kind with
  | node =>
    simp only [get,getNode,show later.nodePageIndex id = before.nodePageIndex id from same]
    exact getRecord_congr _ _ _ _ _ _ _ entry kept
  | edge =>
    simp only [get,getEdge,show later.edgePageIndex id = before.edgePageIndex id from same]
    exact getRecord_congr _ _ _ _ _ _ _ entry kept

theorem createNode_touches (properties : List Property) (store : GraphStore σ) :
    Touches .node store.nextNodeId store (createNode properties store).2 ∧
      ∀ id, (createNode properties store).1 = .ok id → id = store.nextNodeId := by
  have touched := storeNodeRecord_touches store.nextNodeId
    {id := store.nextNodeId, propertyCount := UInt32.ofNat properties.length} properties
    {store with nextNodeId := store.nextNodeId + 1}
  have start : Touches .node store.nextNodeId store
      {store with nextNodeId := store.nextNodeId + 1} :=
    ⟨pages_refl _,fun _ _ _ => rfl,fun _ => .inl,fun _ _ _ => Iff.rfl,fun _ _ _ => Iff.rfl,rfl⟩
  unfold createNode
  dsimp only
  cases stored : storeNodeRecord store.nextNodeId
      {id := store.nextNodeId, propertyCount := UInt32.ofNat properties.length} properties
      {store with nextNodeId := store.nextNodeId + 1} with
  | mk result next =>
    rw [stored] at touched
    obtain ⟨pages,index,placed,outgoing,incoming,versions⟩ := start.trans touched
    cases result with
    | error e => exact ⟨⟨pages,index,placed,outgoing,incoming,versions⟩,fun _ absurd => nomatch absurd⟩
    | ok _ =>
      refine ⟨⟨pages,index,placed,outgoing,incoming,versions⟩,fun id returned => ?_⟩
      cases returned
      rfl

theorem updateNode_touches (nodeId : NodeId) (properties : List Property) (store : GraphStore σ) :
    Touches .node nodeId store (updateNode nodeId properties store).2 := by
  obtain ⟨pages,kept,same⟩ := get_spec .node nodeId store
  have read := touches_pages .node nodeId store pages kept
  unfold updateNode
  cases found : getNode nodeId store with
  | mk result next =>
    have moved : next = {store with pageStore := pages} := by simpa [get,found] using same
    subst moved
    cases result with
    | error e => exact read
    | ok record => exact read.trans (storeNodeRecord_touches ..)

theorem updateEdge_touches (edgeId : EdgeId) (properties : List Property) (store : GraphStore σ) :
    Touches .edge edgeId store (updateEdge edgeId properties store).2 := by
  obtain ⟨pages,kept,same⟩ := get_spec .edge edgeId store
  have read := touches_pages .edge edgeId store pages kept
  unfold updateEdge
  cases found : getEdge edgeId store with
  | mk result next =>
    have moved : next = {store with pageStore := pages} := by simpa [get,found] using same
    subst moved
    cases result with
    | error e => exact read
    | ok record => exact read.trans (storeEdgeRecord_touches ..)

/-- The lists of a node are empty when it is deleted. -/
theorem deleteNode_touches (nodeId : NodeId) (store : GraphStore σ) :
    Touches .node nodeId store (deleteNode nodeId store).2 := by
  have refl : Touches .node nodeId store store :=
    ⟨pages_refl _,fun _ _ _ => rfl,fun _ => .inl,fun _ _ _ => Iff.rfl,fun _ _ _ => Iff.rfl,rfl⟩
  unfold deleteNode
  split
  · exact refl
  · rename_i unlinked
    split
    · exact refl
    · rename_i unreached
      have emptied {lists : NodeId → List EdgeId} (empty : ¬lists nodeId ≠ []) (node : NodeId)
          (edge : EdgeId) : edge ∈ Function.update lists nodeId [] node ↔ edge ∈ lists node := by
        rw [← not_not.mp empty,Function.update_eq_self]
      refine ⟨pages_refl _,fun other key apart => ?_,fun page found => ?_,
        fun node edge _ => emptied unlinked node edge,
        fun node edge _ => emptied unreached node edge,rfl⟩
      · cases other with
        | node => exact Function.update_of_ne (fun same => apart (congrArg _ same)) _ _
        | edge => rfl
      · simp [pageIndex] at found

theorem updateAdjacencyLists_touches (fromNode toNode : NodeId) (edgeId : EdgeId) (add : Bool)
    (store : GraphStore σ) :
    Touches .edge edgeId store (updateAdjacencyLists fromNode toNode edgeId add store) := by
  have edited (lists : NodeId → List EdgeId) (target node : NodeId) (edge : EdgeId)
      (apart : (Kind.edge,edge) ≠ (Kind.edge,edgeId)) :
      edge ∈ Function.update lists target (if add then lists target ++ [edgeId]
        else (lists target).filter fun other => other != edgeId) node ↔ edge ∈ lists node := by
    have other : edge ≠ edgeId := fun same => apart (congrArg _ same)
    by_cases here : node = target
    · subst here
      cases add <;> simp [other]
    · rw [Function.update_of_ne here]
  exact ⟨pages_refl _,fun _ _ _ => rfl,fun _ => .inl,fun node edge => edited _ fromNode node edge,
    fun node edge => edited _ toNode node edge,rfl⟩

theorem createEdge_touches (hash : Bytes → UInt64) (clock : UInt64) (fromNode toNode : NodeId)
    (label : Bytes) (properties : List Property) (store : GraphStore σ) :
    Touches .edge store.nextEdgeId store
        (createEdge hash clock fromNode toNode label properties store).2 ∧
      ∀ id, (createEdge hash clock fromNode toNode label properties store).1 = .ok id →
        id = store.nextEdgeId := by
  have start : Touches .edge store.nextEdgeId store
      {store with nextEdgeId := store.nextEdgeId + 1} :=
    ⟨pages_refl _,fun _ _ _ => rfl,fun _ => .inl,fun _ _ _ => Iff.rfl,fun _ _ _ => Iff.rfl,rfl⟩
  unfold createEdge
  dsimp only
  generalize ({
    id := store.nextEdgeId
    fromNode := fromNode
    toNode := toNode
    labelId := (hash label).toUInt32
    propertyCount := UInt32.ofNat properties.length
    timestamp := clock} : EdgeRecord) = edge
  have touched := start.trans (storeEdgeRecord_touches store.nextEdgeId edge properties _)
  cases stored : storeEdgeRecord store.nextEdgeId edge properties
      {store with nextEdgeId := store.nextEdgeId + 1} with
  | mk result next =>
    rw [stored] at touched
    cases result with
    | error e => exact ⟨touched,fun _ absurd => nomatch absurd⟩
    | ok _ =>
      obtain ⟨pages,index,placed,outgoing,incoming,versions⟩ :=
        touched.trans (updateAdjacencyLists_touches fromNode toNode store.nextEdgeId true next)
      refine ⟨⟨pages,index,placed,outgoing,incoming,versions⟩,fun id returned => ?_⟩
      cases returned
      rfl

theorem deleteEdge_touches (edgeId : EdgeId) (store : GraphStore σ) :
    Touches .edge edgeId store (deleteEdge edgeId store).2 := by
  obtain ⟨pages,kept,same⟩ := get_spec .edge edgeId store
  have read := touches_pages .edge edgeId store pages kept
  unfold deleteEdge
  cases found : getEdge edgeId store with
  | mk result next =>
    have moved : next = {store with pageStore := pages} := by simpa [get,found] using same
    subst moved
    cases result with
    | error e => exact read
    | ok record =>
      obtain ⟨pages,index,placed,outgoing,incoming,versions⟩ := read.trans
        (updateAdjacencyLists_touches record.1.fromNode record.1.toNode edgeId false _)
      refine ⟨pages,fun other key apart => ?_,fun page found => ?_,outgoing,incoming,versions⟩
      · cases other with
        | node => exact index .node key apart
        | edge => exact Function.update_of_ne (fun same => apart (congrArg _ same)) _ _
      · simp [pageIndex] at found

theorem plain_touches (hash : Bytes → UInt64) (store : GraphStore σ) (operation : Operation) :
    Touches operation.kind (operation.key store) store (plain hash store operation) := by
  cases operation with
  | createNode properties => exact (createNode_touches properties store).1
  | updateNode id properties => exact updateNode_touches id properties store
  | deleteNode id => exact deleteNode_touches id store
  | createEdge clock fromNode toNode label properties =>
    exact (createEdge_touches hash clock fromNode toNode label properties store).1
  | updateEdge id properties => exact updateEdge_touches id properties store
  | deleteEdge id => exact deleteEdge_touches id store

omit [LawfulPageStore σ] in
theorem versioned_keeps {α : Type} (result : α) (refused : Option String) (op : String)
    (key : UInt64) (version : Version) (store : GraphStore σ) :
    ∃ mvcc wal, (versioned result refused op key version store).2 =
      {store with mvccManager := mvcc, walManager := wal} := by
  have wrote : ∃ result mvcc, store.writeVersion key version =
      (result,{store with mvccManager := mvcc}) := by
    unfold writeVersion
    split
    · exact ⟨_,store.mvccManager,rfl⟩
    · split
      · exact ⟨none,store.mvccManager,rfl⟩
      · exact ⟨_,_,rfl⟩
  obtain ⟨written,mvcc,same⟩ := wrote
  simp only [versioned,same,logOperation]
  cases written with
  | none => exact ⟨mvcc,store.walManager,rfl⟩
  | some written =>
    cases written with
    | ok _ => exact ⟨mvcc,_,rfl⟩
    | error e =>
      cases refused with
      | some message => exact ⟨mvcc,store.walManager,rfl⟩
      | none => exact ⟨mvcc,_,rfl⟩

theorem createNodeTx_keeps (txId : Nat) (properties : List Property) (store : GraphStore σ) :
    ∃ mvcc wal, (createNodeTx txId properties store).2 =
      {(createNode properties store).2 with mvccManager := mvcc, walManager := wal} := by
  unfold createNodeTx
  split
  · rename_i e next created
    rw [created]
    exact ⟨next.mvccManager,next.walManager,rfl⟩
  · rename_i nodeId next created
    rw [created]
    split
    · exact ⟨next.mvccManager,next.walManager,rfl⟩
    · exact versioned_keeps ..

theorem createEdgeTx_keeps (hash : Bytes → UInt64) (clock : UInt64) (txId : Nat)
    (fromNode toNode : NodeId) (label : Bytes) (properties : List Property) (store : GraphStore σ) :
    ∃ mvcc wal, (createEdgeTx hash clock txId fromNode toNode label properties store).2 =
      {(createEdge hash clock fromNode toNode label properties store).2 with
        mvccManager := mvcc
        walManager := wal} := by
  unfold createEdgeTx
  split
  · rename_i e next created
    rw [created]
    exact ⟨next.mvccManager,next.walManager,rfl⟩
  · rename_i edgeId next created
    rw [created]
    exact versioned_keeps ..

theorem deleteEdgeTx_keeps (txId : Nat) (edgeId : EdgeId) (store : GraphStore σ) :
    ∃ mvcc wal, (deleteEdgeTx txId edgeId store).2 =
      {(deleteEdge edgeId store).2 with mvccManager := mvcc, walManager := wal} := by
  unfold deleteEdgeTx
  split
  · rename_i e next deleted
    rw [deleted]
    exact ⟨next.mvccManager,next.walManager,rfl⟩
  · rename_i next deleted
    rw [deleted]
    exact versioned_keeps ..

omit [LawfulPageStore σ] in
/-- Between calls no lock is held, so the version is written. -/
theorem versioned_spec {α : Type} (result : α) (refused : Option String) (op : String) (key : UInt64)
    (version : Version) (store : GraphStore σ) (manager : MVCCManager)
    (enabled : store.mvccManager = some manager)
    (free : ∀ key, manager.lockManager.lockTable key = []) :
    ∃ wal, versioned result refused op key version store = (some (.ok result),{store with
      mvccManager := some (MvccHistory.step manager (.write key version))
      walManager := wal}) := by
  obtain ⟨locks,_,returned⟩ := manager.write_returns key version free
  simp only [versioned,writeVersion,enabled,MvccHistory.step,returned]
  exact ⟨_,rfl⟩

/-- An operation in a transaction touches one record, and where it succeeds it adds one
version under the record's id. -/
theorem perform_spec (hash : Bytes → UInt64) (txId : Nat) (store : GraphStore σ)
    (operation : Operation) (manager : MVCCManager) (enabled : store.mvccManager = some manager)
    (free : ∀ key, manager.lockManager.lockTable key = []) :
    ∃ next, Touches operation.kind (operation.key store) store next ∧
      ((∃ e, perform hash txId store operation = (some (.error e),next)) ∨
        ∃ wal, perform hash txId store operation = (some (.ok (operation.key store)),{next with
          mvccManager := some (MvccHistory.step manager
            (.write (operation.key store) (operation.version hash txId store)))
          walManager := wal})) := by
  cases operation with
  | createNode properties =>
    obtain ⟨touched,named⟩ := createNode_touches properties store
    simp only [perform,createNodeTx]
    cases created : createNode properties store with
    | mk result next =>
      rw [created] at touched named
      refine ⟨next,touched,?_⟩
      cases result with
      | error e => exact .inl ⟨e,rfl⟩
      | ok id =>
        cases named id rfl
        have kept : next.mvccManager = some manager := touched.versions.trans enabled
        obtain ⟨wal,wrote⟩ := versioned_spec store.nextNodeId (some "MVCC write failed") "create_node"
          store.nextNodeId (Operation.version hash txId store (.createNode properties)) next manager
          kept free
        refine .inr ⟨wal,?_⟩
        simp only [kept,Option.isNone_some]
        exact wrote
  | updateNode id properties =>
    have touched := updateNode_touches id properties store
    simp only [perform,updateNodeTx]
    cases updated : updateNode id properties store with
    | mk result next =>
      rw [updated] at touched
      refine ⟨next,touched,?_⟩
      cases result with
      | error e => exact .inl ⟨e,rfl⟩
      | ok _ =>
        obtain ⟨wal,wrote⟩ := versioned_spec () (some "MVCC write failed") "update_node" id
          (Operation.version hash txId store (.updateNode id properties)) next manager
          (touched.versions.trans enabled) free
        exact .inr ⟨wal,congrArg (perform.keyed id) wrote⟩
  | deleteNode id =>
    obtain ⟨pages,kept,same⟩ := get_spec .node id store
    have touched := touches_pages .node id store pages kept
    simp only [perform,deleteNodeTx]
    cases found : getNode id store with
    | mk result next =>
      have moved : next = {store with pageStore := pages} := by simpa [get,found] using same
      subst moved
      refine ⟨_,touched,?_⟩
      cases result with
      | error e => exact .inl ⟨e,rfl⟩
      | ok _ =>
        obtain ⟨wal,wrote⟩ := versioned_spec () (some "Failed to write tombstone version")
          "delete_node" id (Operation.version hash txId store (.deleteNode id))
          {store with pageStore := pages} manager enabled free
        refine .inr ⟨wal,?_⟩
        simp only [enabled,Option.isSome_some]
        rw [← enabled]
        exact congrArg (perform.keyed id) wrote
  | createEdge clock fromNode toNode label properties =>
    obtain ⟨touched,named⟩ := createEdge_touches hash clock fromNode toNode label properties store
    simp only [perform,createEdgeTx]
    cases created : createEdge hash clock fromNode toNode label properties store with
    | mk result next =>
      rw [created] at touched named
      refine ⟨next,touched,?_⟩
      cases result with
      | error e => exact .inl ⟨e,rfl⟩
      | ok id =>
        cases named id rfl
        obtain ⟨wal,wrote⟩ := versioned_spec store.nextEdgeId none "create_edge" store.nextEdgeId
          (Operation.version hash txId store (.createEdge clock fromNode toNode label properties))
          next manager (touched.versions.trans enabled) free
        exact .inr ⟨wal,wrote⟩
  | updateEdge id properties =>
    have touched := updateEdge_touches id properties store
    simp only [perform,updateEdgeTx]
    cases updated : updateEdge id properties store with
    | mk result next =>
      rw [updated] at touched
      refine ⟨next,touched,?_⟩
      cases result with
      | error e => exact .inl ⟨e,rfl⟩
      | ok _ =>
        obtain ⟨wal,wrote⟩ := versioned_spec () none "update_edge" id
          (Operation.version hash txId store (.updateEdge id properties)) next manager
          (touched.versions.trans enabled) free
        exact .inr ⟨wal,congrArg (perform.keyed id) wrote⟩
  | deleteEdge id =>
    have touched := deleteEdge_touches id store
    simp only [perform,deleteEdgeTx]
    cases deleted : deleteEdge id store with
    | mk result next =>
      rw [deleted] at touched
      refine ⟨next,touched,?_⟩
      cases result with
      | error e => exact .inl ⟨e,rfl⟩
      | ok _ =>
        obtain ⟨wal,wrote⟩ := versioned_spec () none "delete_edge" id
          (Operation.version hash txId store (.deleteEdge id)) next manager
          (touched.versions.trans enabled) free
        exact .inr ⟨wal,congrArg (perform.keyed id) wrote⟩

/-- What a reader is told of an id: by the newest version it sees, unless that one is of
the other kind, and then by the page. -/
def told (kind : Kind) (page : Except Error (kind.Record × List Property)) :
    Option Version → Except Error (kind.Record × List Property)
  | none => .error ⟨.notFound,kind.missing⟩
  | some version =>
    match kind.pick version.data with
    | some record => .ok (record,version.properties)
    | none => page


omit [LawfulPageStore σ] in
theorem getTx_spec [PageStore σ] (kind : Kind) (reader : Nat) (id : UInt64) (store : GraphStore σ)
    (enabled : store.mvccManager = some (mvcc store)) :
    (getTx kind reader id store).1 = told kind (get kind id store).1
        (VersionChain.newest (isVersionVisible (mvcc store).txnManager reader)
          ((mvcc store).chain id)) ∧
      ((getTx kind reader id store).2 = store ∨
        (getTx kind reader id store).2 = (get kind id store).2) := by
  have unified : getTx kind reader id store =
      getVersioned kind.pick kind.missing (get kind id) reader id store := by
    cases kind <;> rfl
  rw [unified]
  generalize mvcc store = manager at enabled
  unfold getVersioned MVCCManager.readVersion MVCCManager.chain
  simp only [enabled]
  cases manager.versions id with
  | none => exact ⟨rfl,.inl rfl⟩
  | some vec =>
    simp only [Option.getD_some]
    cases VersionChain.newest (isVersionVisible manager.txnManager reader) vec with
    | none => exact ⟨rfl,.inl rfl⟩
    | some version =>
      simp only [told]
      cases kind.pick version.data with
      | none => exact ⟨rfl,.inr rfl⟩
      | some record => exact ⟨rfl,.inl rfl⟩

/-- What every history keeps: indices name allocated pages, and the versions are sound. -/
structure Sound (store : GraphStore σ) : Prop where
  placed : Placed store
  enabled : store.mvccManager = some (mvcc store)
  versions : MvccHistory.Sound (mvcc store)

theorem Touches.keeps_placed {kind : Kind} {id : UInt64} {before later : GraphStore σ}
    (touched : Touches kind id before later) (placed : Placed before) : Placed later := by
  intro other key page found
  by_cases here : (other,key) = (kind,id)
  · cases here
    rcases touched.placed page found with earlier | held
    · exact (touched.pages page (placed _ _ page earlier)).1
    · exact held
  · rw [touched.index other key here] at found
    exact (touched.pages page (placed _ _ page found)).1

omit [LawfulPageStore σ] in
theorem manage_versions (call : MvccHistory.Call) (store : GraphStore σ)
    (enabled : store.mvccManager = some (mvcc store)) :
    (manage call store).mvccManager = some (MvccHistory.step (mvcc store) call) := by
  rw [manage,enabled]
  rfl

omit [LawfulPageStore σ] in
/-- The version of an operation is live or its writer's tombstone. -/
theorem version_legal (hash : Bytes → UInt64) (txId : Nat) (store : GraphStore σ)
    (operation : Operation) :
    (operation.version hash txId store).createdTxId = txId ∧
      ((operation.version hash txId store).deletedTxId = 0 ∨
        (operation.version hash txId store).deletedTxId = txId) := by
  cases operation <;> simp [Operation.version]

/-- On the version store a call is one call of its own history, or none. -/
theorem step_versions (hash : Bytes → UInt64) (store : GraphStore σ) (call : Call)
    (legal : Legal store call) (sound : Sound store) :
    (step hash store call).mvccManager = some (mvcc store) ∨
      ∃ managed, MvccHistory.Legal true (mvcc store) managed ∧
        (step hash store call).mvccManager = some (MvccHistory.step (mvcc store) managed) := by
  cases call with
  | begin => exact .inr ⟨.begin,trivial,manage_versions _ store sound.enabled⟩
  | commit txId => exact .inr ⟨.commit txId,legal,manage_versions _ store sound.enabled⟩
  | abort txId => exact .inr ⟨.abort txId,legal,manage_versions _ store sound.enabled⟩
  | collect least => exact .inr ⟨.collect least,rfl,manage_versions _ store sound.enabled⟩
  | perform txId operation =>
    obtain ⟨next,touched,⟨e,failed⟩ | ⟨wal,done⟩⟩ :=
      perform_spec hash txId store operation (mvcc store) sound.enabled sound.versions.free
    · rw [step,failed]
      exact .inl (touched.versions.trans sound.enabled)
    · obtain ⟨created,deleted⟩ := version_legal hash txId store operation
      refine .inr ⟨.write (operation.key store) (operation.version hash txId store),
        ⟨created.symm ▸ legal,created.symm ▸ deleted⟩,?_⟩
      rw [step,done]
  | plain operation => exact .inl ((plain_touches hash store operation).versions.trans sound.enabled)
  | get kind id =>
    obtain ⟨pages,_,same⟩ := get_spec kind id store
    rw [step,same]
    exact .inl sound.enabled
  | getTx kind txId id =>
    rcases (getTx_spec kind txId id store sound.enabled).2 with same | read
    · rw [step,same]
      exact .inl sound.enabled
    · obtain ⟨pages,_,same⟩ := get_spec kind id store
      rw [step,read,same]
      exact .inl sound.enabled

theorem step_placed (hash : Bytes → UInt64) (store : GraphStore σ) (call : Call)
    (sound : Sound store) : Placed (step hash store call) := by
  cases call with
  | begin => exact sound.placed
  | commit txId => exact sound.placed
  | abort txId => exact sound.placed
  | collect least => exact sound.placed
  | perform txId operation =>
    obtain ⟨next,touched,⟨e,failed⟩ | ⟨wal,done⟩⟩ :=
      perform_spec hash txId store operation (mvcc store) sound.enabled sound.versions.free
    · rw [step,failed]
      exact touched.keeps_placed sound.placed
    · rw [step,done]
      exact touched.keeps_placed sound.placed
  | plain operation => exact (plain_touches hash store operation).keeps_placed sound.placed
  | get kind id =>
    obtain ⟨pages,kept,same⟩ := get_spec kind id store
    rw [step,same]
    exact (touches_pages kind id store pages kept).keeps_placed sound.placed
  | getTx kind txId id =>
    rcases (getTx_spec kind txId id store sound.enabled).2 with same | read
    · rw [step,same]
      exact sound.placed
    · obtain ⟨pages,kept,same⟩ := get_spec kind id store
      rw [step,read,same]
      exact (touches_pages kind id store pages kept).keeps_placed sound.placed

theorem step_sound (hash : Bytes → UInt64) (store : GraphStore σ) (call : Call)
    (legal : Legal store call) (sound : Sound store) : Sound (step hash store call) := by
  have placed := step_placed hash store call sound
  obtain same | ⟨managed,allowed,moved⟩ := step_versions hash store call legal sound
  · exact ⟨placed,by rw [mvcc,same]; rfl,by rw [mvcc,same]; exact sound.versions⟩
  · refine ⟨placed,by rw [mvcc,moved]; rfl,?_⟩
    rw [mvcc,moved]
    exact MvccHistory.step_sound true (mvcc store) managed allowed sound.versions

/-- An operation in a transaction leaves all other records and lists alone, and the
versions of all other ids. -/
structure Frame (kind : Kind) (id : UInt64) (version : Version) (before later : GraphStore σ) :
    Prop where
  records : ∀ other key, (other,key) ≠ (kind,id) → (get other key later).1 = (get other key before).1
  outgoing : ∀ node edge, (Kind.edge,edge) ≠ (kind,id) →
    (edge ∈ later.outgoingEdges node ↔ edge ∈ before.outgoingEdges node)
  incoming : ∀ node edge, (Kind.edge,edge) ≠ (kind,id) →
    (edge ∈ later.incomingEdges node ↔ edge ∈ before.incomingEdges node)
  tables : (mvcc later).txnManager = (mvcc before).txnManager
  chains : ∀ key, (mvcc later).chain key = (mvcc before).chain key ∨
    key = id ∧ (mvcc later).chain key = MvccHistory.written version ((mvcc before).chain key)

theorem perform_frame (hash : Bytes → UInt64) (txId : Nat) (store : GraphStore σ)
    (operation : Operation) (sound : Sound store) :
    Frame operation.kind (operation.key store) (operation.version hash txId store) store
        (perform hash txId store operation).2 ∧
      ∀ id, (perform hash txId store operation).1 = some (.ok id) →
        (mvcc (perform hash txId store operation).2).chain (operation.key store) =
          MvccHistory.written (operation.version hash txId store)
            ((mvcc store).chain (operation.key store)) := by
  obtain ⟨next,touched,⟨e,failed⟩ | ⟨wal,done⟩⟩ :=
    perform_spec hash txId store operation (mvcc store) sound.enabled sound.versions.free
  · have same : mvcc next = mvcc store := by rw [mvcc,touched.versions,mvcc]
    rw [failed]
    refine ⟨⟨fun other key apart => ?_,touched.outgoing,touched.incoming,?_,?_⟩,?_⟩
    · exact get_congr other key store next sound.placed touched.pages (touched.index other key apart)
    · rw [same]
    · exact fun key => .inl (by rw [same])
    · exact fun id absurd => nomatch absurd
  · rw [done]
    obtain ⟨tables,_,chains⟩ := MvccHistory.write_step (mvcc store) sound.versions.free
      (operation.key store) (operation.version hash txId store)
    refine ⟨⟨fun other key apart => ?_,touched.outgoing,touched.incoming,tables,fun key => ?_⟩,?_⟩
    · exact get_congr other key store _ sound.placed touched.pages (touched.index other key apart)
    · by_cases here : key = operation.key store
      · subst here
        exact .inr ⟨rfl,(chains _).trans (if_pos rfl)⟩
      · exact .inl ((chains key).trans (if_neg here))
    · exact fun id _ => (chains _).trans (if_pos rfl)

theorem opened_sound (pages : σ) (wal : Option WALManager) : Sound (opened pages wal) where
  placed kind id page found := by cases kind <;> cases found
  enabled := rfl
  versions := MvccHistory.initial_sound

theorem history_sound (hash : Bytes → UInt64) (pages : σ) (wal : Option WALManager)
    (calls : List Call) (history : History hash (opened pages wal) calls) :
    Sound (after hash (opened pages wal) calls) :=
  run_preserves Sound (step_sound hash) _ calls history (opened_sound pages wal)

end LoreDB.Storage.GraphHistory
