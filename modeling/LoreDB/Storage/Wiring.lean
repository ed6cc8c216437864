import LoreDB.Storage.OpenStores
import LoreDB.Storage.WrittenVersions

/-! The ends of edges. Whatever calls are made on a store over a file, with or without transactions, each
edge that the index names keeps the two ends it was created with: its page holds them, whatever else fits
on the page, and it is listed at its one end as outgoing, at the other as incoming, and nowhere else. Where
one client makes plain calls only, the index's edges are counted, too. -/
namespace LoreDB.Storage.Wiring
open LoreDB.Transaction LoreDB.Library.History GraphStore GraphHistory FilePageStore OpenStores Outlines

/-- What tells of one edge has these two ends. -/
structure Joins (store : Store) (id : EdgeId) (tips : NodeId × NodeId) : Prop where
  named : ∀ found, (getEdge id store).1 = .ok found → found.1.id = id
  seen : ∀ found, (getEdge id store).1 = .ok found → (found.1.fromNode,found.1.toNode) = tips
  outgoing : ∀ node, id ∈ store.outgoingEdges node ↔ store.edgePageIndex id ≠ none ∧ tips.1 = node
  incoming : ∀ node, id ∈ store.incomingEdges node ↔ store.edgePageIndex id ≠ none ∧ tips.2 = node
  issued : store.edgePageIndex id ≠ none → id < store.nextEdgeId

structure Wired (store : Store) (ends : EdgeId → NodeId × NodeId) : Prop where
  isOpen : IsOpen store
  placed : Placed store
  joins : ∀ id, Joins store id (ends id)

variable {store next : Store} {ends : EdgeId → NodeId × NodeId}

/-! Records. -/

/-- The fixed part of an edge record is on its page even where the properties do not fit. -/
theorem edge_recorded (edge : EdgeRecord) (properties : List Property) (page : PageId)
    (stored : readPage page store.pageStore =
      (.ok (sealed page (pageImage page .edge (RecordSerializer.serializeEdge edge properties))),store.pageStore))
    (found : EdgeRecord × List Property)
    (read : (getRecord (some page) .edge "Edge not found" "Invalid page type for edge"
      RecordSerializer.deserializeEdge store).1 = .ok found) : found.1 = edge := by
  obtain ⟨kind,image⟩ := sealed_image page .edge (RecordSerializer.serializeEdge edge properties)
  unfold getRecord at read
  dsimp only at read
  rw [show PageStore.readPage page store.pageStore = _ from stored] at read
  dsimp only at read
  rw [if_neg (not_not.mpr kind),image,RecordSerializer.serializeEdge,List.append_assoc,List.take_append,
    List.take_of_length_le (by rw [RecordSerializer.edgeBytes_length]; decide)] at read
  unfold RecordSerializer.deserializeEdge at read
  split at read
  · cases read
  · rw [RecordSerializer.edgeOfBytes_written] at read
    cases decoded : RecordSerializer.deserializeProperties _ with
    | error e =>
      rw [decoded] at read
      cases read
    | ok properties =>
      rw [decoded] at read
      cases read
      rfl

theorem storeEdgeRecord_recorded (edgeId : EdgeId) (edge : EdgeRecord) (properties : List Property)
    (isOpen : IsOpen store) :
    ∃ page pages, storeEdgeRecord edgeId edge properties store = (.ok (),{store with
        pageStore := pages
        edgePageIndex := Function.update store.edgePageIndex edgeId (some page)}) ∧
      ∀ found, (getEdge edgeId {store with
        pageStore := pages
        edgePageIndex := Function.update store.edgePageIndex edgeId (some page)}).1 = .ok found →
          found.1 = edge := by
  obtain ⟨page,pages,stored,-,-,-,read⟩ :=
    storeRecord_open .edge (RecordSerializer.serializeEdge edge properties) store isOpen
  refine ⟨page,pages,by rw [storeEdgeRecord,stored],fun found tells => ?_⟩
  simp only [getEdge,Function.update_self] at tells
  exact edge_recorded edge properties page read found tells

/-! Steps. -/

/-- Edges that a call does not touch are as they were. -/
theorem joins_touched {kind : Kind} {key id : UInt64} {tips : NodeId × NodeId} (placed : Placed store)
    (touched : Touches kind key store next) (apart : (Kind.edge,id) ≠ (kind,key))
    (next_id : id < store.nextEdgeId → id < next.nextEdgeId) (joins : Joins store id tips) :
    Joins next id tips := by
  have index : next.edgePageIndex id = store.edgePageIndex id := touched.index .edge id apart
  have same : (getEdge id next).1 = (getEdge id store).1 := get_congr .edge id store next placed touched.pages index
  refine ⟨fun found read => joins.named found (same.symm.trans read),
    fun found read => joins.seen found (same.symm.trans read),fun node => ?_,fun node => ?_,fun indexed => ?_⟩
  · rw [touched.outgoing node id apart,index]
    exact joins.outgoing node
  · rw [touched.incoming node id apart,index]
    exact joins.incoming node
  · exact next_id (joins.issued (index ▸ indexed))

theorem Wired.managed (wired : Wired store ends) (m : Option MVCCManager) (wal : Option WALManager) :
    Wired {store with mvccManager := m, walManager := wal} ends where
  isOpen := wired.isOpen
  placed kind id page found := wired.placed kind id page (by cases kind <;> exact found)
  joins id := by
    have joins := wired.joins id
    have same := get_same .edge id store {store with mvccManager := m, walManager := wal} rfl rfl
    exact ⟨fun found read => joins.named found (same.symm.trans read),
      fun found read => joins.seen found (same.symm.trans read),joins.outgoing,joins.incoming,joins.issued⟩

theorem node_wired (id : NodeId) (wired : Wired store ends) (touched : Touches .node id store next)
    (isOpen : IsOpen next) (issued : next.nextEdgeId = store.nextEdgeId) : Wired next ends where
  isOpen := isOpen
  placed := touched.keeps_placed wired.placed
  joins id := joins_touched wired.placed touched (fun same => by cases congrArg Prod.fst same)
    (fun below => issued ▸ below) (wired.joins id)

theorem createEdge_wired (hash : Bytes → UInt64) (clock : UInt64) (fromNode toNode : NodeId) (label : Bytes)
    (properties : List Property) (last : store.nextEdgeId + 1 ≠ 0) (wired : Wired store ends) :
    Wired (createEdge hash clock fromNode toNode label properties store).2
      (Function.update ends store.nextEdgeId (fromNode,toNode)) := by
  have touched := (createEdge_touches hash clock fromNode toNode label properties store).1
  have isOpen := plain_opens hash (.createEdge clock fromNode toNode label properties) wired.isOpen
  have counted : IsOpen {store with nextEdgeId := store.nextEdgeId + 1} := wired.isOpen
  have unlisted (node : NodeId) : store.nextEdgeId ∉ store.outgoingEdges node ∧
      store.nextEdgeId ∉ store.incomingEdges node := by
    have joins := wired.joins store.nextEdgeId
    exact ⟨fun listed => UInt64.lt_irrefl _ (joins.issued ((joins.outgoing node).mp listed).1),
      fun listed => UInt64.lt_irrefl _ (joins.issued ((joins.incoming node).mp listed).1)⟩
  refine ⟨isOpen,touched.keeps_placed wired.placed,fun id => ?_⟩
  simp only [createEdge] at touched ⊢
  generalize filled : ({
    id := store.nextEdgeId
    fromNode := fromNode
    toNode := toNode
    labelId := (hash label).toUInt32
    propertyCount := UInt32.ofNat properties.length
    timestamp := clock} : EdgeRecord) = edge at touched ⊢
  obtain ⟨page,pages,stored,recorded⟩ :=
    storeEdgeRecord_recorded store.nextEdgeId edge properties counted
  rw [stored] at touched ⊢
  by_cases here : id = store.nextEdgeId
  · subst here
    rw [Function.update_self]
    refine ⟨fun found read => ?_,fun found read => ?_,fun node => ?_,fun node => ?_,
      fun _ => next_above last (.inr rfl)⟩
    · rw [recorded found (read ▸ (get_same .edge store.nextEdgeId _ _ rfl rfl)),← filled]
    · rw [recorded found (read ▸ (get_same .edge store.nextEdgeId _ _ rfl rfl)),← filled]
    · by_cases there : node = fromNode
      · subst there
        simp [updateAdjacencyLists]
      · simp [updateAdjacencyLists,Function.update_of_ne there,(unlisted node).1,Ne.symm there]
    · by_cases there : node = toNode
      · subst there
        simp [updateAdjacencyLists]
      · simp [updateAdjacencyLists,Function.update_of_ne there,(unlisted node).2,Ne.symm there]
  · rw [Function.update_of_ne here]
    exact joins_touched wired.placed touched (fun same => here (congrArg Prod.snd same))
      (fun below => next_above last (.inl below)) (wired.joins id)

theorem updateEdge_wired (edgeId : EdgeId) (properties : List Property) (wired : Wired store ends) :
    Wired (updateEdge edgeId properties store).2 ends := by
  have touched := updateEdge_touches edgeId properties store
  have keeps : (getEdge edgeId store).2 = store := getRecord_keeps ..
  have isOpen : IsOpen (updateEdge edgeId properties store).2 :=
    plain_opens (fun _ => 0) (.updateEdge edgeId properties) wired.isOpen
  have joins := wired.joins edgeId
  have placed := get_placed .edge edgeId store
  refine ⟨isOpen,touched.keeps_placed wired.placed,fun id => ?_⟩
  unfold updateEdge at touched ⊢
  cases read : getEdge edgeId store with
  | mk result later =>
    rw [read] at touched keeps
    subst keeps
    simp only [GraphHistory.get,read] at placed
    cases result with
    | error e => exact wired.joins id
    | ok record =>
      dsimp only at touched ⊢
      obtain ⟨page,pages,stored,recorded⟩ := storeEdgeRecord_recorded edgeId
        {record.1 with propertyCount := UInt32.ofNat properties.length} properties wired.isOpen
      have indexed : later.edgePageIndex edgeId ≠ none := placed record rfl
      have seen := joins.seen record (congrArg Prod.fst read)
      rw [stored] at touched ⊢
      by_cases here : id = edgeId
      · subst here
        refine ⟨fun found tells => ?_,fun found tells => ?_,fun node => ?_,fun node => ?_,
          fun _ => joins.issued indexed⟩
        · rw [recorded found tells]
          exact joins.named record (congrArg Prod.fst read)
        · rw [recorded found tells]
          exact seen
        · simpa [indexed] using joins.outgoing node
        · simpa [indexed] using joins.incoming node
      · exact joins_touched wired.placed touched (fun same => here (congrArg Prod.snd same))
          (fun below => below) (wired.joins id)

theorem deleteEdge_wired (edgeId : EdgeId) (wired : Wired store ends) :
    Wired (deleteEdge edgeId store).2 ends := by
  have touched := deleteEdge_touches edgeId store
  have keeps : (getEdge edgeId store).2 = store := getRecord_keeps ..
  have isOpen : IsOpen (deleteEdge edgeId store).2 :=
    plain_opens (fun _ => 0) (.deleteEdge edgeId) wired.isOpen
  have joins := wired.joins edgeId
  refine ⟨isOpen,touched.keeps_placed wired.placed,fun id => ?_⟩
  unfold deleteEdge at touched ⊢
  cases read : getEdge edgeId store with
  | mk result later =>
    rw [read] at touched keeps
    subst keeps
    cases result with
    | error e => exact wired.joins id
    | ok record =>
      dsimp only at touched ⊢
      have seen := joins.seen record (congrArg Prod.fst read)
      by_cases here : id = edgeId
      · subst here
        refine ⟨fun found read => ?_,fun found read => ?_,fun node => ?_,fun node => ?_,fun indexed => ?_⟩
        · simp [getEdge,getRecord] at read
        · simp [getEdge,getRecord] at read
        · by_cases there : node = record.1.fromNode
          · subst there
            simp [updateAdjacencyLists]
          · simp only [updateAdjacencyLists,Function.update_of_ne there,joins.outgoing,Function.update_self]
            simp [← seen,Ne.symm there]
        · by_cases there : node = record.1.toNode
          · subst there
            simp [updateAdjacencyLists]
          · simp only [updateAdjacencyLists,Function.update_of_ne there,joins.incoming,Function.update_self]
            simp [← seen,Ne.symm there]
        · simp at indexed
      · exact joins_touched wired.placed touched (fun same => here (congrArg Prod.snd same))
          (fun below => below) (wired.joins id)

/-- What an outline says of the edges themselves. -/
def edgesOf (o : Outline) : EdgeId × (EdgeId → Option PageId) × UInt64 :=
  (o.nextEdgeId,o.edgePageIndex,o.edgeCount)

/-- Nothing that an operation on a node does is about edges. -/
theorem node_spares {operation : Operation} (hash : Bytes → UInt64) (node : operation.kind = .node) :
    (plain hash store operation).nextEdgeId = store.nextEdgeId ∧
      (plain hash store operation).edgePageIndex = store.edgePageIndex ∧
        (plain hash store operation).edgeCount = store.edgeCount := by
  have kept : edgesOf (outline (plain hash store operation)) = edgesOf (outline store) := by
    cases operation with
    | createNode properties =>
      obtain same | ⟨-,page,same⟩ := createNode_outline properties store
      · exact (congrArg edgesOf same :)
      · exact (congrArg edgesOf same :)
    | updateNode id properties =>
      obtain same | ⟨-,page,same⟩ := updateNode_outline id properties store
      · exact (congrArg edgesOf same :)
      · exact (congrArg edgesOf same :)
    | deleteNode id =>
      obtain same | ⟨-,-,-,same⟩ := deleteNode_outline id store
      · exact (congrArg edgesOf same :)
      · exact (congrArg edgesOf same :)
    | createEdge clock fromNode toNode label properties => cases node
    | updateEdge id properties => cases node
    | deleteEdge id => cases node
  simpa [edgesOf,outline] using kept

theorem plain_wired (hash : Bytes → UInt64) (operation : Operation)
    (last : GraphRefinement.Counts store.nextNodeId store.nextEdgeId operation) (wired : Wired store ends) :
    ∃ ends, Wired (plain hash store operation) ends := by
  have touched := plain_touches hash store operation
  have isOpen := plain_opens hash operation wired.isOpen
  have nodes (node : operation.kind = .node) : ∃ ends, Wired (plain hash store operation) ends :=
    ⟨ends,node_wired _ wired (node ▸ touched) isOpen (node_spares hash node).1⟩
  cases operation with
  | createNode properties => exact nodes rfl
  | updateNode id properties => exact nodes rfl
  | deleteNode id => exact nodes rfl
  | createEdge clock fromNode toNode label properties =>
    exact ⟨_,createEdge_wired hash clock fromNode toNode label properties last wired⟩
  | updateEdge id properties => exact ⟨ends,updateEdge_wired id properties wired⟩
  | deleteEdge id => exact ⟨ends,deleteEdge_wired id wired⟩

/-- On the pages, an operation on an edge does the same with a transaction as without. -/
theorem performEdge_keeps (hash : Bytes → UInt64) (txId : Nat) (operation : Operation)
    (edge : operation.kind = .edge) :
    ∃ m wal, (perform hash txId store operation).2 =
      {plain hash store operation with mvccManager := m, walManager := wal} := by
  cases operation with
  | createNode properties => cases edge
  | updateNode id properties => cases edge
  | deleteNode id => cases edge
  | createEdge clock fromNode toNode label properties => exact createEdgeTx_keeps ..
  | updateEdge id properties =>
    simp only [perform,perform.keyed,updateEdgeTx,plain]
    cases updated : updateEdge id properties store with
    | mk result next =>
      cases result with
      | error e => exact ⟨next.mvccManager,next.walManager,rfl⟩
      | ok _ => exact versioned_keeps ..
  | deleteEdge id => exact deleteEdgeTx_keeps ..

theorem perform_wired (hash : Bytes → UInt64) (txId : Nat) (operation : Operation)
    (last : GraphRefinement.Counts store.nextNodeId store.nextEdgeId operation) (wired : Wired store ends) :
    ∃ ends, Wired (perform hash txId store operation).2 ends := by
  cases kind : operation.kind with
  | node =>
    have carried := perform_carried hash txId store operation
    have isOpen := perform_opens hash txId operation wired.isOpen
    obtain ⟨next,touched,m,wal,same⟩ := carried.touches
    have issued : (perform hash txId store operation).2.nextEdgeId = store.nextEdgeId := by
      rcases perform_outline hash txId store operation with unchanged | ⟨-,plainly⟩
      · exact congrArg Outline.nextEdgeId unchanged
      · exact (congrArg Outline.nextEdgeId plainly).trans (node_spares hash kind).1
    rw [same] at isOpen issued ⊢
    have wired : Wired next ends := node_wired _ wired (kind ▸ touched) isOpen issued
    exact ⟨ends,wired.managed m wal⟩
  | edge =>
    obtain ⟨m,wal,same⟩ := performEdge_keeps hash txId operation kind
    obtain ⟨ends,wired⟩ := plain_wired hash operation last wired
    exact ⟨ends,same ▸ wired.managed m wal⟩

theorem step_wired (hash : Bytes → UInt64) (call : Call) (last : CountersLast store call)
    (wired : Wired store ends) : ∃ ends, Wired (GraphHistory.step hash store call) ends := by
  have reads (kind : Kind) (id : UInt64) : (GraphHistory.get kind id store).2 = store := by
    cases kind <;> exact getRecord_keeps ..
  cases call with
  | begin => exact ⟨ends,wired.managed _ _⟩
  | commit txId => exact ⟨ends,wired.managed _ _⟩
  | abort txId => exact ⟨ends,wired.managed _ _⟩
  | collect least => exact ⟨ends,wired.managed _ _⟩
  | perform txId operation =>
    refine perform_wired hash txId operation ?_ wired
    cases operation with
    | createNode properties => exact last (.createNode properties) ⟨rfl,trivial⟩
    | createEdge clock fromNode toNode label properties =>
      exact last (.createEdge clock fromNode toNode label properties) ⟨rfl,trivial⟩
    | updateNode _ _ | deleteNode _ | updateEdge _ _ | deleteEdge _ => trivial
  | plain operation => exact plain_wired hash operation (last operation rfl) wired
  | get kind id =>
    rw [GraphHistory.step,reads]
    exact ⟨ends,wired⟩
  | getTx kind txId id =>
    rw [GraphHistory.step]
    have same : (getTx kind txId id store).2 = store :=
      (getTx_reads kind txId id store).elim (fun same => same) fun same => same.trans (reads kind id)
    rw [same]
    exact ⟨ends,wired⟩

/-! The number of edges. -/

/-- The edges that the index names are counted. -/
structure EdgesCounted (o : Outline) (live : List EdgeId) : Prop where
  nodup : live.Nodup
  mem : ∀ id, id ∈ live ↔ o.edgePageIndex id ≠ none
  count : o.edgeCount = UInt64.ofNat live.length

theorem EdgesCounted.congr {o later : Outline} {live : List EdgeId} (counted : EdgesCounted o live)
    (index : ∀ id, later.edgePageIndex id ≠ none ↔ o.edgePageIndex id ≠ none)
    (count : later.edgeCount = o.edgeCount) : EdgesCounted later live where
  nodup := counted.nodup
  mem id := (counted.mem id).trans (index id).symm
  count := count.trans counted.count

theorem added_counted {o : Outline} {live : List EdgeId} (counted : EdgesCounted o live) (id : EdgeId)
    (page : PageId) (fresh : o.edgePageIndex id = none) (fromNode toNode : NodeId) :
    EdgesCounted ((o.placeEdge id page).listEdge fromNode toNode id) (id::live) where
  nodup := List.nodup_cons.mpr ⟨fun member => (counted.mem id).mp member fresh,counted.nodup⟩
  mem other := by
    by_cases here : other = id
    · simp [here,Outline.placeEdge,Outline.listEdge]
    · simp [here,Outline.placeEdge,Outline.listEdge,counted.mem]
  count := by
    rw [List.length_cons,UInt64.ofNat_add,← counted.count]
    rfl

theorem dropped_counted {o : Outline} {live : List EdgeId} (counted : EdgesCounted o live) (id : EdgeId)
    (indexed : o.edgePageIndex id ≠ none) (fromNode toNode : NodeId) :
    EdgesCounted (o.dropEdge fromNode toNode id) (live.erase id) where
  nodup := counted.nodup.erase id
  mem other := by
    rw [counted.nodup.mem_erase_iff,counted.mem]
    by_cases here : other = id
    · simp [here,Outline.dropEdge]
    · simp [here,Outline.dropEdge]
  count := by
    have member := (counted.mem id).mpr indexed
    have one : live.length = (live.erase id).length + 1 := by
      rw [List.length_erase_of_mem member]
      exact (Nat.sub_add_cancel (List.length_pos_of_mem member)).symm
    have count := counted.count
    rw [one,UInt64.ofNat_add] at count
    change o.edgeCount - 1 = _
    rw [count]
    exact UInt64.add_sub_cancel ..

theorem plain_counted {live : List EdgeId} (hash : Bytes → UInt64) (operation : Operation) (wired : Wired store ends)
    (counted : EdgesCounted (outline store) live) :
    ∃ live, EdgesCounted (outline (plain hash store operation)) live := by
  have unindexed : store.edgePageIndex store.nextEdgeId = none := by
    by_contra indexed
    exact UInt64.lt_irrefl _ ((wired.joins store.nextEdgeId).issued indexed)
  have nodes (node : operation.kind = .node) : ∃ live, EdgesCounted (outline (plain hash store operation)) live := by
    obtain ⟨-,index,count⟩ := @node_spares store _ hash node
    exact ⟨live,counted.congr (fun id => by rw [outline,outline,index]) count⟩
  cases operation with
  | createNode properties => exact nodes rfl
  | updateNode id properties => exact nodes rfl
  | deleteNode id => exact nodes rfl
  | createEdge clock fromNode toNode label properties =>
    have issued : EdgesCounted (outline store).issueEdge live := counted.congr (fun _ => Iff.rfl) rfl
    obtain same | ⟨page,same⟩ := createEdge_outline hash clock fromNode toNode label properties store
    · exact ⟨live,same ▸ issued⟩
    · exact ⟨_,same ▸ added_counted issued store.nextEdgeId page unindexed fromNode toNode⟩
  | updateEdge id properties =>
    refine ⟨live,?_⟩
    obtain same | ⟨placed,page,same⟩ := updateEdge_outline id properties store
    · exact same ▸ counted
    · refine same ▸ counted.congr (fun other => ?_) rfl
      by_cases here : other = id
      · simp [here,Outline.placeEdge,placed,outline]
      · simp [here,Outline.placeEdge]
  | deleteEdge id =>
    obtain same | ⟨placed,fromNode,toNode,same⟩ := deleteEdge_outline id store
    · exact ⟨live,same ▸ counted⟩
    · exact ⟨_,same ▸ dropped_counted counted id placed fromNode toNode⟩

/-! Runs. -/

theorem started_wired (file : Bytes) (mvcc : Option MVCCManager) (wal : Option WALManager) :
    Wired (started (openFile file) mvcc wal) fun _ => (0,0) where
  isOpen := rfl
  placed kind id page found := by cases kind <;> cases found
  joins id := ⟨fun found read => (by cases read),fun found read => (by cases read),
    fun node => by simp [started],fun node => by simp [started],
    fun indexed => absurd rfl indexed⟩

theorem after_wired (hash : Bytes → UInt64) (start : Store) (calls : List Call)
    (last : Guarded (GraphHistory.step hash) CountersLast start calls) (wired : Wired start ends) :
    ∃ ends, Wired (after hash start calls) ends := by
  induction calls generalizing start ends with
  | nil => exact ⟨ends,wired⟩
  | cons call rest ih =>
    obtain ⟨ends,wired⟩ := step_wired hash call last.1 wired
    exact ih _ last.2 wired

/-- However one client has come to the store, its edges are wired and counted. -/
theorem plainly_wired (hash : Bytes → UInt64) (mvcc : Option MVCCManager) (wal : Option WALManager)
    (calls : List Operation) (last : Guarded (plain hash) GraphRefinement.Lasts (GraphRefinement.fresh mvcc wal) calls) :
    ∃ ends live, Wired (run (plain hash) (GraphRefinement.fresh mvcc wal) calls) ends ∧
      EdgesCounted (outline (run (plain hash) (GraphRefinement.fresh mvcc wal) calls)) live := by
  refine run_preserves (fun store : Store => ∃ ends live, Wired store ends ∧ EdgesCounted (outline store) live) ?_
    _ calls last ⟨_,[],started_wired [] mvcc wal,List.nodup_nil,fun id => by simp [outline,GraphRefinement.fresh],rfl⟩
  rintro store operation last ⟨ends,live,wired,counted⟩
  obtain ⟨tips,later⟩ := plain_wired hash operation last wired
  obtain ⟨others,recounted⟩ := plain_counted hash operation wired counted
  exact ⟨tips,others,later,recounted⟩

end LoreDB.Storage.Wiring
