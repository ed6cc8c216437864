import LoreDB.Query.Cypher.FixedPatterns
import LoreDB.Storage.OpenStores

/-! Updates of an edge in a transaction. The version that is written has the new properties, but none of the
ends and no label. So whoever reads the edge from its version finds it between nodes 0 from then on. -/
namespace LoreDB.Query.Cypher
open LoreDB.Transaction LoreDB.Library LoreDB.Storage LoreDB.Storage.GraphHistory LoreDB.Storage.Outlines
  GraphStore

/-- The edge has new properties and is otherwise the same. A pattern that these satisfy leads along it to where
patterns led before. -/
structure OnlyProperties (txId : Nat) (id : EdgeId) (edge : EdgeRecord) (properties : List Property)
    (before later : GraphStore FilePageStore) : Prop where
  reads : ∃ record, ExecutionContext.getEdge txId id later = .ok (record,properties) ∧
    record.fromNode = edge.fromNode ∧ record.toNode = edge.toNode ∧ record.labelId = edge.labelId
  reaches : ∀ earlier pattern fromNode toNode, Step (ExecutionContext.view txId before) earlier fromNode id toNode →
    matchesEdgePattern pattern properties = true → Step (ExecutionContext.view txId later) pattern fromNode id toNode

/-- The writer of a live version reads it back. -/
theorem written_newest (txnManager : TransactionManager) (version : Version) (chain : List Version)
    (live : version.deletedTxId = 0) :
    VersionChain.newest (isVersionVisible txnManager version.createdTxId) (MvccHistory.written version chain) =
      some version := by
  have sees : isVersionVisible txnManager version.createdTxId version = true :=
    (visible_iff txnManager version.createdTxId version).mpr (.inl ⟨rfl,.inl live⟩)
  rw [MvccHistory.written,VersionChain.newest_concat,if_pos sees]

/-- After a successful update its transaction reads the version that has been written. -/
theorem updated_reads (hash : Bytes → UInt64) (txId : Nat) (id : EdgeId) (properties : List Property)
    (store : GraphStore FilePageStore) (sound : Sound store)
    (updated : (perform hash txId store (.updateEdge id properties)).1 = some (.ok id)) :
    ExecutionContext.getEdge txId id (perform hash txId store (.updateEdge id properties)).2 =
      .ok ({id := id, propertyCount := UInt32.ofNat properties.length},properties) := by
  have written := (perform_frame hash txId store (.updateEdge id properties) sound).2 id updated
  have enabled : (perform hash txId store (.updateEdge id properties)).2.mvccManager =
      some (mvcc (perform hash txId store (.updateEdge id properties)).2) := by
    obtain ⟨next,-,⟨e,failed⟩ | ⟨wal,done⟩⟩ :=
      perform_spec hash txId store (.updateEdge id properties) (mvcc store) sound.enabled sound.versions.free
    · rw [failed] at updated
      cases updated
    · rw [done]
      rfl
  generalize (perform hash txId store (.updateEdge id properties)).2 = later at written enabled ⊢
  have versions : ExecutionContext.hasMvcc later = true := by
    rw [ExecutionContext.hasMvcc,enabled]
    rfl
  have told := (getTx_spec .edge txId id later enabled).1
  have newest := written_newest (mvcc later).txnManager
    (Operation.version hash txId store (.updateEdge id properties)) ((mvcc store).chain id) rfl
  rw [show (mvcc later).chain id = MvccHistory.written _ ((mvcc store).chain id) from written,
    show VersionChain.newest (isVersionVisible (mvcc later).txnManager txId) _ = some _ from newest] at told
  unfold ExecutionContext.getEdge
  rw [if_pos versions]
  exact told

/-- An update of an edge that the open file holds succeeds. -/
theorem update_succeeds (hash : Bytes → UInt64) (txId : Nat) (id : EdgeId) (edge : EdgeRecord)
    (old properties : List Property) (store : GraphStore FilePageStore) (sound : Sound store)
    (isOpen : OpenStores.IsOpen store) (stored : (getEdge id store).1 = .ok (edge,old)) :
    (perform hash txId store (.updateEdge id properties)).1 = some (.ok id) := by
  have found : getEdge id store = (.ok (edge,old),store) := Prod.ext stored (getRecord_keeps ..)
  obtain ⟨page,pages,wrote,-⟩ := storeRecord_open .edge
    (RecordSerializer.serializeEdge {edge with propertyCount := UInt32.ofNat properties.length} properties)
    store isOpen
  let version : Version := {
    createdTxId := txId
    data := .edge {id := id, propertyCount := UInt32.ofNat properties.length}
    properties := properties}
  obtain ⟨locks,-,written⟩ := MVCCManager.write_returns id version (mvcc store) sound.versions.free
  have recorded : updateEdge id properties store = (.ok (),{store with
      pageStore := pages
      edgePageIndex := Function.update store.edgePageIndex id (some page)}) := by
    rw [updateEdge,found]
    dsimp only
    rw [storeEdgeRecord,wrote]
  rw [perform,updateEdgeTx,recorded]
  dsimp only [versioned,writeVersion]
  rw [sound.enabled]
  dsimp only
  rw [written]
  rfl

/-- Updates leave the lists of edges alone. -/
theorem updated_lists (hash : Bytes → UInt64) (txId : Nat) (id : EdgeId) (properties : List Property)
    (store : GraphStore FilePageStore) :
    (perform hash txId store (.updateEdge id properties)).2.outgoingEdges = store.outgoingEdges := by
  obtain same | ⟨-,same⟩ := perform_outline hash txId store (.updateEdge id properties)
  · exact congrArg Outline.outgoingEdges same
  · obtain kept | ⟨-,page,placed⟩ := updateEdge_outline id properties store
    · exact (congrArg Outline.outgoingEdges same).trans (congrArg Outline.outgoingEdges kept)
    · exact (congrArg Outline.outgoingEdges same).trans (congrArg Outline.outgoingEdges placed)

/-- In every state that a history reaches, a successful update changes the properties of a visible edge only
exactly when the edge had its ends and its label at 0 before. -/
theorem update_only_properties (hash : Bytes → UInt64) (pages : FilePageStore) (wal : Option WALManager)
    (calls : List Call) (history : History hash (opened pages wal) calls) (txId : Nat) (id : EdgeId)
    (edge : EdgeRecord) (old properties : List Property)
    (visible : ExecutionContext.getEdge txId id (after hash (opened pages wal) calls) = .ok (edge,old))
    (updated : (perform hash txId (after hash (opened pages wal) calls) (.updateEdge id properties)).1 =
      some (.ok id)) :
    OnlyProperties txId id edge properties (after hash (opened pages wal) calls)
        (perform hash txId (after hash (opened pages wal) calls) (.updateEdge id properties)).2 ↔
      edge.fromNode = 0 ∧ edge.toNode = 0 ∧ edge.labelId = 0 := by
  have reads := updated_reads hash txId id properties _ (history_sound hash pages wal calls history) updated
  have lists := updated_lists hash txId id properties (after hash (opened pages wal) calls)
  constructor
  · rintro ⟨⟨record,found,source,target,label⟩,-⟩
    cases found.symm.trans reads
    exact ⟨source.symm,target.symm,label.symm⟩
  · rintro ⟨source,target,label⟩
    refine ⟨⟨_,reads,source.symm,target.symm,label.symm⟩,?_⟩
    rintro earlier pattern fromNode toNode ⟨listed,found,sees,ends,-⟩ fulfils
    cases (congrArg Except.toOption visible).symm.trans sees
    refine ⟨?_,_,congrArg Except.toOption reads,target.symm.trans ends,fulfils⟩
    exact (congrArg (id ∈ ·) (congrFun lists fromNode)).mpr listed

/-- An edge from node 1 to node 2, which its transaction sees. -/
def linked : EdgeRecord := {id := 1, fromNode := 1, toNode := 2, labelId := 7}

theorem linked_history : History (fun _ => 7) (opened (FilePageStore.openFile []) none)
    [.begin,.perform 1 (.createEdge 0 1 2 [] [])] := by
  decide +kernel

theorem linked_reads :
    ExecutionContext.getEdge 1 1 (after (fun _ => 7) (opened (FilePageStore.openFile []) none)
      [.begin,.perform 1 (.createEdge 0 1 2 [] [])]) = .ok (linked,[]) := by
  decide +kernel

theorem linked_on_page (store : GraphStore FilePageStore) (isOpen : store.pageStore.isClosed = false)
    (first : store.nextEdgeId = 1) :
    (getEdge 1 (perform (fun _ => 7) 1 store (.createEdge 0 1 2 [] [])).2).1 = .ok (linked,[]) := by
  have created := createEdge_reads (fun _ => 7) 0 1 2 [] [] isOpen linked (by rw [first]; rfl) (by decide +kernel)
  obtain ⟨_,_,same⟩ := createEdgeTx_keeps (fun _ => 7) 0 1 1 2 [] [] store
  rw [first] at created
  rw [perform,same,← created]
  exact get_same .edge 1 _ _ rfl rfl

theorem linked_updates :
    (perform (fun _ => 7) 1 (after (fun _ => 7) (opened (FilePageStore.openFile []) none)
      [.begin,.perform 1 (.createEdge 0 1 2 [] [])]) (.updateEdge 1 [])).1 = some (.ok 1) :=
  update_succeeds (fun _ => 7) 1 1 linked [] [] _
    (history_sound _ (FilePageStore.openFile []) none _ linked_history)
    (OpenStores.perform_opens (fun _ => 7) 1 (.createEdge 0 1 2 [] []) rfl) (linked_on_page _ rfl rfl)

theorem update_only_properties_linked :
    let store := after (fun _ => 7) (opened (FilePageStore.openFile []) none)
      [.begin,.perform 1 (.createEdge 0 1 2 [] [])]
    OnlyProperties 1 1 linked [] store (perform (fun _ => 7) 1 store (.updateEdge 1 [])).2 ↔
      linked.fromNode = 0 ∧ linked.toNode = 0 ∧ linked.labelId = 0 :=
  update_only_properties (fun _ => 7) (FilePageStore.openFile []) none
    [.begin,.perform 1 (.createEdge 0 1 2 [] [])] linked_history 1 1 linked [] [] linked_reads linked_updates

/-- After an update the edge is read between nodes 0. -/
theorem linked_torn :
    let store := after (fun _ => 7) (opened (FilePageStore.openFile []) none)
      [.begin,.perform 1 (.createEdge 0 1 2 [] [])]
    ExecutionContext.getEdge 1 1 store = .ok (linked,[]) ∧
      (perform (fun _ => 7) 1 store (.updateEdge 1 [])).1 = some (.ok 1) ∧
      ¬OnlyProperties 1 1 linked [] store (perform (fun _ => 7) 1 store (.updateEdge 1 [])).2 := by
  intro store
  have reads := updated_reads (fun _ => 7) 1 1 [] store
    (history_sound _ (FilePageStore.openFile []) none _ linked_history) linked_updates
  refine ⟨linked_reads,linked_updates,?_⟩
  rintro ⟨⟨record,found,source,-⟩,-⟩
  cases found.symm.trans reads
  exact absurd source (by decide)

end LoreDB.Query.Cypher
