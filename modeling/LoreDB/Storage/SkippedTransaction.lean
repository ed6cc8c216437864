import LoreDB.Storage.RecordPages
import LoreDB.Transaction.SkippedId

/-! Graph stores that differ in one transaction without versions. Operations by the corresponding
later transactions give the same results on both. -/
namespace LoreDB.Storage.SkippedTransaction
open LoreDB.Transaction LoreDB.Transaction.SkippedId LoreDB.Library GraphStore GraphHistory

abbrev Store := GraphStore FilePageStore

/-- The plain operations neither look at the versions nor change them. -/
def swap (manager : Option MVCCManager) (store : Store) : Store := {store with mvccManager := manager}

section Plain

variable (manager : Option MVCCManager)

theorem storeRecord_swap (type : PageType) (serialized : Bytes) (store : Store) :
    storeRecord type serialized (swap manager store) =
      ((storeRecord type serialized store).1,swap manager (storeRecord type serialized store).2) := by
  unfold storeRecord swap
  dsimp only
  cases PageStore.allocatePage store.pageStore with
  | mk result pages =>
    cases result with
    | error e => rfl
    | ok page =>
      dsimp only
      cases PageStore.writePage page (pageImage page type serialized) pages with
      | mk result last => cases result <;> rfl

theorem storeNodeRecord_swap (nodeId : NodeId) (node : NodeRecord) (properties : List Property)
    (store : Store) :
    storeNodeRecord nodeId node properties (swap manager store) =
      ((storeNodeRecord nodeId node properties store).1,
        swap manager (storeNodeRecord nodeId node properties store).2) := by
  unfold storeNodeRecord
  rw [storeRecord_swap]
  cases storeRecord .node (RecordSerializer.serializeNode node properties) store with
  | mk result next => cases result <;> rfl

theorem createNode_swap (properties : List Property) (store : Store) :
    createNode properties (swap manager store) =
      ((createNode properties store).1,swap manager (createNode properties store).2) := by
  unfold createNode
  dsimp only
  rw [show ({swap manager store with nextNodeId := (swap manager store).nextNodeId + 1} : Store) =
    swap manager {store with nextNodeId := store.nextNodeId + 1} from rfl,storeNodeRecord_swap]
  dsimp only [swap]
  cases storeNodeRecord store.nextNodeId
      {id := store.nextNodeId, propertyCount := UInt32.ofNat properties.length} properties
      {store with nextNodeId := store.nextNodeId + 1} with
  | mk result next => cases result <;> rfl

theorem get_swap (kind : Kind) (id : UInt64) (store : Store) :
    (get kind id (swap manager store)).1 = (get kind id store).1 :=
  get_same kind id store (swap manager store) rfl (by cases kind <;> rfl)

theorem get_keeps (kind : Kind) (id : UInt64) (store : Store) : (get kind id store).2 = store := by
  cases kind with
  | node => exact getRecord_keeps ..
  | edge => exact getRecord_keeps ..

theorem updateNode_swap (nodeId : NodeId) (properties : List Property) (store : Store) :
    updateNode nodeId properties (swap manager store) =
      ((updateNode nodeId properties store).1,swap manager (updateNode nodeId properties store).2) := by
  have read : getNode nodeId store = ((get .node nodeId store).1,store) :=
    Prod.ext rfl (get_keeps .node nodeId store)
  have again : getNode nodeId (swap manager store) = ((get .node nodeId store).1,swap manager store) :=
    Prod.ext (get_swap manager .node nodeId store) (get_keeps .node nodeId (swap manager store))
  unfold updateNode
  rw [read,again]
  cases (get .node nodeId store).1 with
  | error e => rfl
  | ok found => exact storeNodeRecord_swap ..

theorem deleteEdge_swap (edgeId : EdgeId) (store : Store) :
    deleteEdge edgeId (swap manager store) =
      ((deleteEdge edgeId store).1,swap manager (deleteEdge edgeId store).2) := by
  have read : getEdge edgeId store = ((get .edge edgeId store).1,store) :=
    Prod.ext rfl (get_keeps .edge edgeId store)
  have again : getEdge edgeId (swap manager store) = ((get .edge edgeId store).1,swap manager store) :=
    Prod.ext (get_swap manager .edge edgeId store) (get_keeps .edge edgeId (swap manager store))
  unfold deleteEdge
  rw [read,again]
  cases (get .edge edgeId store).1 <;> rfl

end Plain

/-- The first store has used up the transaction id `gap`, the second one has not. -/
structure Skipped (gap : Nat) (first second : Store) : Prop where
  same : first = swap (some (mvcc first)) second
  enabled : second.mvccManager = some (mvcc second)
  versions : Skips gap (mvcc first) (mvcc second)
  free : ∀ key, (mvcc first).lockManager.lockTable key = []
  unlocked : ∀ key, (mvcc second).lockManager.lockTable key = []

section Calls

variable {gap : Nat} {first second : Store}

/-- What a plain operation made of both stores. -/
theorem Skipped.swapped (skipped : Skipped gap first second) (next : Store)
    (kept : next.mvccManager = second.mvccManager) :
    Skipped gap (swap (some (mvcc first)) next) next := by
  have same : mvcc next = mvcc second := by rw [mvcc,kept,mvcc]
  exact ⟨rfl,by rw [same,kept,skipped.enabled],same.symm ▸ skipped.versions,skipped.free,
    same.symm ▸ skipped.unlocked⟩

theorem versioned_free {α : Type} (result : α) (refused : Option String) (op : String) (key : UInt64)
    (version : Version) (store : Store) (manager : MVCCManager)
    (enabled : store.mvccManager = some manager)
    (free : ∀ key, manager.lockManager.lockTable key = []) :
    versioned result refused op key version store = (some (.ok result),
      (swap (some (MvccHistory.step manager (.write key version))) store).logOperation op key) := by
  obtain ⟨locks,_,returned⟩ := manager.write_returns key version free
  simp only [versioned,writeVersion,enabled,MvccHistory.step,returned]
  rfl

theorem versioned_skipped {α : Type} (skipped : Skipped gap first second) (result : α)
    (refused : Option String) (op : String) (key : UInt64) (version : Version) :
    (versioned result refused op key (renumber gap version) first).1 =
        (versioned result refused op key version second).1 ∧
      Skipped gap (versioned result refused op key (renumber gap version) first).2
        (versioned result refused op key version second).2 := by
  have enabled : first.mvccManager = some (mvcc first) := by rw [skipped.same]; rfl
  rw [versioned_free result refused op key _ first (mvcc first) enabled skipped.free,
    versioned_free result refused op key version second (mvcc second) skipped.enabled skipped.unlocked]
  obtain ⟨_,free,_⟩ := MvccHistory.write_step (mvcc first) skipped.free key (renumber gap version)
  obtain ⟨_,unlocked,_⟩ := MvccHistory.write_step (mvcc second) skipped.unlocked key version
  refine ⟨rfl,?_,rfl,write_skips skipped.versions skipped.free skipped.unlocked key version,free,
    unlocked⟩
  rw [skipped.same]
  rfl

theorem getTx_skipped (skipped : Skipped gap first second)
    (wellformed : (mvcc first).txnManager.Wellformed) (sound : (mvcc second).txnManager.Wellformed)
    (kind : Kind) (t : Nat) (id : UInt64) :
    (getTx kind (shift gap t) id first).1 = (getTx kind t id second).1 := by
  have enabled : first.mvccManager = some (mvcc first) := by rw [skipped.same]; rfl
  rw [(getTx_spec kind _ id first enabled).1,(getTx_spec kind t id second skipped.enabled).1,
    newest_renumbered skipped.versions wellformed sound]
  have page : (get kind id first).1 = (get kind id second).1 := by
    rw [skipped.same]
    exact get_swap _ kind id second
  rw [page]
  cases VersionChain.newest (isVersionVisible (mvcc second).txnManager t) ((mvcc second).chain id) <;> rfl

theorem createNodeTx_skipped (skipped : Skipped gap first second) (t : Nat)
    (properties : List Property) :
    (createNodeTx (shift gap t) properties first).1 = (createNodeTx t properties second).1 ∧
      Skipped gap (createNodeTx (shift gap t) properties first).2
        (createNodeTx t properties second).2 := by
  have zero := shift_below gap 0 skipped.versions.positive
  have kept := (createNode_touches properties second).1.versions
  unfold createNodeTx
  rw [skipped.same,createNode_swap]
  cases created : createNode properties second with
  | mk result next =>
    rw [created] at kept
    have swapped := skipped.swapped next kept
    cases result with
    | error e => exact ⟨rfl,swapped⟩
    | ok id =>
      have present : next.mvccManager.isNone = false := by rw [kept,skipped.enabled]; rfl
      have stays : (swap (some (mvcc first)) next).mvccManager.isNone = false := rfl
      simp only [present,stays,Bool.false_eq_true,if_false]
      have version := versioned_skipped swapped id (some "MVCC write failed") "create_node" id {
        createdTxId := t
        data := .node {id := id, propertyCount := UInt32.ofNat properties.length}
        properties := properties}
      simpa only [renumber,zero] using version

theorem updateNodeTx_skipped (skipped : Skipped gap first second) (t : Nat) (nodeId : NodeId)
    (properties : List Property) :
    (updateNodeTx (shift gap t) nodeId properties first).1 =
        (updateNodeTx t nodeId properties second).1 ∧
      Skipped gap (updateNodeTx (shift gap t) nodeId properties first).2
        (updateNodeTx t nodeId properties second).2 := by
  have zero := shift_below gap 0 skipped.versions.positive
  have kept := (updateNode_touches nodeId properties second).versions
  unfold updateNodeTx
  rw [skipped.same,updateNode_swap]
  cases updated : updateNode nodeId properties second with
  | mk result next =>
    rw [updated] at kept
    have swapped := skipped.swapped next kept
    cases result with
    | error e => exact ⟨rfl,swapped⟩
    | ok _ =>
      have version := versioned_skipped swapped () (some "MVCC write failed") "update_node" nodeId {
        createdTxId := t
        data := .node {id := nodeId, propertyCount := UInt32.ofNat properties.length}
        properties := properties}
      simpa only [renumber,zero] using version

theorem deleteNodeTx_skipped (skipped : Skipped gap first second) (t : Nat) (nodeId : NodeId) :
    (deleteNodeTx (shift gap t) nodeId first).1 = (deleteNodeTx t nodeId second).1 ∧
      Skipped gap (deleteNodeTx (shift gap t) nodeId first).2 (deleteNodeTx t nodeId second).2 := by
  have read : getNode nodeId second = ((get .node nodeId second).1,second) :=
    Prod.ext rfl (get_keeps .node nodeId second)
  have again : getNode nodeId first = ((get .node nodeId second).1,first) := by
    refine Prod.ext ?_ (get_keeps .node nodeId first)
    rw [skipped.same]
    exact get_swap _ .node nodeId second
  have enabled : first.mvccManager = some (mvcc first) := by rw [skipped.same]; rfl
  unfold deleteNodeTx
  rw [read,again]
  cases (get .node nodeId second).1 with
  | error e => exact ⟨rfl,skipped⟩
  | ok found =>
    simp only [enabled,skipped.enabled,Option.isSome_some]
    exact versioned_skipped skipped () (some "Failed to write tombstone version") "delete_node" nodeId {
      createdTxId := t
      deletedTxId := t
      data := .node {id := nodeId}}

theorem deleteEdgeTx_skipped (skipped : Skipped gap first second) (t : Nat) (edgeId : EdgeId) :
    (deleteEdgeTx (shift gap t) edgeId first).1 = (deleteEdgeTx t edgeId second).1 ∧
      Skipped gap (deleteEdgeTx (shift gap t) edgeId first).2 (deleteEdgeTx t edgeId second).2 := by
  have kept := (deleteEdge_touches edgeId second).versions
  unfold deleteEdgeTx
  rw [skipped.same,deleteEdge_swap]
  cases deleted : deleteEdge edgeId second with
  | mk result next =>
    rw [deleted] at kept
    have swapped := skipped.swapped next kept
    cases result with
    | error e => exact ⟨rfl,swapped⟩
    | ok _ =>
      exact versioned_skipped swapped () none "delete_edge" edgeId {
        createdTxId := t
        deletedTxId := t
        data := .edge {id := edgeId}}

end Calls

end LoreDB.Storage.SkippedTransaction
