import LoreDB.Storage.RecordPages

/-! Updates and deletions of a node that their transaction does not see. The operations look for
the node on its page, where it stays after a deletion and before a commit. Where they find it on no page,
they change nothing, and a deletion lasts. -/
namespace LoreDB.Storage.InvisibleWrites
open LoreDB.Transaction LoreDB.Library LoreDB.Library.History LoreDB.Library.ByteStream GraphHistory
  GraphStore RecordSerializer

/-- An index entry names a page with a node record. -/
def OnPage (nodeId : NodeId) (store : GraphStore FilePageStore) : Prop :=
  ∃ page data record, store.nodePageIndex nodeId = some page ∧
    (store.pageStore.readPage page).1 = .ok data ∧ field data 8 4 = PageType.node.code ∧
      deserializeNode (data.drop 48) = .ok record

theorem getNode_onPage (nodeId : NodeId) (store : GraphStore FilePageStore) :
    OnPage nodeId store ↔ ∃ record, (getNode nodeId store).1 = .ok record := by
  unfold OnPage getNode getRecord
  cases store.nodePageIndex nodeId with
  | none => simp
  | some page =>
    have same : PageStore.readPage page store.pageStore = store.pageStore.readPage page := rfl
    simp only [same]
    cases read : store.pageStore.readPage page with
    | mk result pages =>
      cases result with
      | error e => simp [read]
      | ok data =>
        by_cases kind : field data 8 4 = PageType.node.code
        · simp [read,kind]
        · simp [read,kind]

/-- A call on the node that changes or deletes it. -/
def Changes (nodeId : NodeId) : Operation → Prop
  | .updateNode id _ | .deleteNode id => id = nodeId
  | _ => False

def Invisible (txId : Nat) (nodeId : NodeId) (store : GraphStore FilePageStore) : Prop :=
  ∃ message, (getNodeTx txId nodeId store).1 = .error ⟨.notFound,message⟩

/-- The operation fails, and whatever is called afterwards, reads of the node find what they
would have found without it. -/
def Refused (hash : Bytes → UInt64) (txId : Nat) (nodeId : NodeId) (store : GraphStore FilePageStore)
    (operation : Operation) : Prop :=
  (∃ e, (perform hash txId store operation).1 = some (.error e)) ∧
    ∀ calls reader, (getNodeTx reader nodeId (after hash (perform hash txId store operation).2 calls)).1 =
      (getNodeTx reader nodeId (after hash store calls)).1

theorem unplaced_fails (hash : Bytes → UInt64) (txId : Nat) (nodeId : NodeId)
    (store : GraphStore FilePageStore) (operation : Operation) (changes : Changes nodeId operation)
    (unplaced : ¬OnPage nodeId store) :
    ∃ e, perform hash txId store operation = (some (.error e),store) := by
  obtain ⟨e,failed⟩ : ∃ e, getNode nodeId store = (.error e,store) := by
    have keeps : (getNode nodeId store).2 = store := getRecord_keeps ..
    cases read : getNode nodeId store with
    | mk result next =>
      rw [read] at keeps
      cases result with
      | error e => exact ⟨e,by rw [← keeps]⟩
      | ok record => exact absurd ((getNode_onPage nodeId store).mpr ⟨record,by rw [read]⟩) unplaced
  refine ⟨e,?_⟩
  cases operation with
  | updateNode id properties =>
    cases changes
    simp only [perform,perform.keyed,updateNodeTx,updateNode,failed]
    rfl
  | deleteNode id =>
    cases changes
    simp only [perform,perform.keyed,deleteNodeTx,failed]
    rfl
  | createNode properties => cases changes
  | createEdge clock fromNode toNode label properties => cases changes
  | updateEdge id properties => cases changes
  | deleteEdge id => cases changes

theorem unplaced_refused (hash : Bytes → UInt64) (txId : Nat) (nodeId : NodeId)
    (store : GraphStore FilePageStore) (operation : Operation) (changes : Changes nodeId operation)
    (unplaced : ¬OnPage nodeId store) : Refused hash txId nodeId store operation := by
  obtain ⟨e,returned⟩ := unplaced_fails hash txId nodeId store operation changes unplaced
  unfold Refused
  rw [returned]
  exact ⟨⟨e,rfl⟩,fun _ _ => rfl⟩

section Granted

variable (hash : Bytes → UInt64) (txId : Nat) (nodeId : NodeId) {store : GraphStore FilePageStore}
  {manager : MVCCManager}

theorem deletion_written (enabled : store.mvccManager = some manager)
    (free : ∀ key, manager.lockManager.lockTable key = []) (record : NodeRecord × List Property)
    (found : (getNode nodeId store).1 = .ok record) :
    ∃ wal, perform hash txId store (.deleteNode nodeId) = (some (.ok nodeId),{store with
      mvccManager := some (MvccHistory.step manager
        (.write nodeId (Operation.version hash txId store (.deleteNode nodeId))))
      walManager := wal}) := by
  have read : getNode nodeId store = (.ok record,store) := Prod.ext found (getRecord_keeps ..)
  obtain ⟨wal,wrote⟩ := versioned_spec () (some "Failed to write tombstone version") "delete_node" nodeId
    (Operation.version hash txId store (.deleteNode nodeId)) store manager enabled free
  have versions : store.mvccManager.isSome = true := by rw [enabled]; rfl
  refine ⟨wal,?_⟩
  simp only [perform,perform.keyed,deleteNodeTx,read,versions,if_true]
  rw [show versioned () (some "Failed to write tombstone version") "delete_node" nodeId
    {createdTxId := txId, deletedTxId := txId, data := .node {id := nodeId}} store = _ from wrote]
  rfl

theorem update_written (properties : List Property) (isOpen : store.pageStore.isClosed = false)
    (enabled : store.mvccManager = some manager)
    (free : ∀ key, manager.lockManager.lockTable key = []) (node : NodeRecord) (earlier : List Property)
    (found : (getNode nodeId store).1 = .ok (node,earlier))
    (fits : FitsPage (serializeNode {node with propertyCount := UInt32.ofNat properties.length} properties)) :
    ∃ pages index wal, perform hash txId store (.updateNode nodeId properties) =
      (some (.ok nodeId),{store with
        pageStore := pages
        nodePageIndex := index
        mvccManager := some (MvccHistory.step manager
          (.write nodeId (Operation.version hash txId store (.updateNode nodeId properties))))
        walManager := wal}) := by
  have read : getNode nodeId store = (.ok (node,earlier),store) := Prod.ext found (getRecord_keeps ..)
  obtain ⟨pages,page,_,stored,_⟩ := storeNodeRecord_reads nodeId _ properties store isOpen fits
  have updated : updateNode nodeId properties store = (.ok (),{store with
      pageStore := pages
      nodePageIndex := Function.update store.nodePageIndex nodeId (some page)}) := by
    simp only [updateNode,read]
    exact stored
  obtain ⟨wal,wrote⟩ := versioned_spec () (some "MVCC write failed") "update_node" nodeId
    (Operation.version hash txId store (.updateNode nodeId properties)) {store with
      pageStore := pages
      nodePageIndex := Function.update store.nodePageIndex nodeId (some page)} manager enabled free
  refine ⟨pages,Function.update store.nodePageIndex nodeId (some page),wal,?_⟩
  simp only [perform,perform.keyed,updateNodeTx,updated]
  rw [show versioned () (some "MVCC write failed") "update_node" nodeId {
    createdTxId := txId
    data := .node {id := nodeId, propertyCount := UInt32.ofNat properties.length}
    properties := properties} _ = _ from wrote]
  rfl

end Granted

/-! A deletion that has committed, while the calls on the node find it on no page. -/

/-- Whoever would write a version under the node's id updates or deletes the node, and finds it
on no page. -/
def Spares (nodeId : NodeId) (store : GraphStore FilePageStore) : Call → Prop
  | .perform _ operation => operation.key store = nodeId →
      Changes nodeId operation ∧ ¬OnPage nodeId store
  | _ => True

/-- No version of the node has come in between the two states, and what has ended stays so. -/
structure Fades (nodeId : NodeId) (before later : GraphStore FilePageStore) : Prop where
  chain : (mvcc later).chain nodeId ⊆ (mvcc before).chain nodeId
  committed : ∀ t, (mvcc before).txnManager.Issued t →
    (mvcc before).txnManager.isTransactionCommitted t = true →
    (mvcc later).txnManager.Issued t ∧ (mvcc later).txnManager.isTransactionCommitted t = true
  aborted : ∀ t, (mvcc before).txnManager.stateOf t = some .aborted →
    (mvcc later).txnManager.stateOf t = some .aborted

theorem Fades.refl (nodeId : NodeId) (store : GraphStore FilePageStore) : Fades nodeId store store :=
  ⟨List.Subset.refl _,fun _ issued committed => ⟨issued,committed⟩,fun _ state => state⟩

theorem Fades.trans {nodeId : NodeId} {first middle last : GraphStore FilePageStore}
    (start : Fades nodeId first middle) (rest : Fades nodeId middle last) : Fades nodeId first last where
  chain := List.Subset.trans rest.chain start.chain
  committed t issued committed :=
    have ⟨issued,committed⟩ := start.committed t issued committed
    rest.committed t issued committed
  aborted t state := rest.aborted t (start.aborted t state)

theorem spared_chain (hash : Bytes → UInt64) (nodeId : NodeId) (store : GraphStore FilePageStore) (call : Call)
    (spares : Spares nodeId store call) (sound : Sound store) :
    (mvcc (step hash store call)).chain nodeId ⊆ (mvcc store).chain nodeId := by
  have managed (other : MvccHistory.Call)
      (fewer : (MvccHistory.step (mvcc store) other).chain nodeId ⊆ (mvcc store).chain nodeId) :
      (mvcc (manage other store)).chain nodeId ⊆ (mvcc store).chain nodeId := by
    rw [mvcc,manage_versions other store sound.enabled]
    exact fewer
  have unversioned {next : GraphStore FilePageStore} (same : next.mvccManager = store.mvccManager) :
      (mvcc next).chain nodeId ⊆ (mvcc store).chain nodeId := by
    rw [mvcc,same]
    exact List.Subset.refl _
  cases call with
  | begin => exact managed .begin (List.Subset.refl _)
  | commit txId => exact managed (.commit txId) (List.Subset.refl _)
  | abort txId => exact managed (.abort txId) (List.Subset.refl _)
  | collect least =>
    refine managed (.collect least) ?_
    rw [MvccHistory.step,MVCCManager.collect_chain]
    exact List.filter_sublist.subset
  | perform txId operation =>
    by_cases same : operation.key store = nodeId
    · obtain ⟨changes,unplaced⟩ := spares same
      obtain ⟨e,failed⟩ := unplaced_fails hash txId nodeId store operation changes unplaced
      rw [step,failed]
      exact List.Subset.refl _
    · obtain kept | ⟨absurd,_⟩ := (perform_frame hash txId store operation sound).1.chains nodeId
      · rw [step,kept]
        exact List.Subset.refl _
      · exact (same absurd.symm).elim
  | plain operation => exact unversioned (plain_touches hash store operation).versions
  | get kind id =>
    obtain ⟨pages,_,same⟩ := get_spec kind id store
    exact unversioned (by rw [step,same])
  | getTx kind txId id =>
    obtain same | read := (getTx_spec kind txId id store sound.enabled).2
    · exact unversioned (by rw [step,same])
    · obtain ⟨pages,_,same⟩ := get_spec kind id store
      exact unversioned (by rw [step,read,same])

theorem spared_step (hash : Bytes → UInt64) (nodeId : NodeId) (store : GraphStore FilePageStore) (call : Call)
    (legal : Legal store call) (spares : Spares nodeId store call) (sound : Sound store) :
    Fades nodeId store (step hash store call) := by
  have chain := spared_chain hash nodeId store call spares sound
  obtain same | ⟨managed,allowed,moved⟩ := step_versions hash store call legal sound
  · have kept : mvcc (step hash store call) = mvcc store := by rw [mvcc,same]; rfl
    refine ⟨chain,?_,?_⟩
    · rw [kept]
      exact fun _ issued committed => ⟨issued,committed⟩
    · rw [kept]
      exact fun _ state => state
  · have next : mvcc (step hash store call) = MvccHistory.step (mvcc store) managed := by rw [mvcc,moved]; rfl
    refine ⟨chain,?_,?_⟩
    · rw [next]
      exact MvccHistory.step_committed true (mvcc store) managed allowed sound.versions
    · rw [next]
      exact MvccHistory.step_aborted (mvcc store) managed sound.versions

theorem spared_run (hash : Bytes → UInt64) (nodeId : NodeId) (store : GraphStore FilePageStore)
    (calls : List Call) (sound : Sound store)
    (spared : Guarded (step hash) (fun state call => Legal state call ∧ Spares nodeId state call) store calls) :
    Sound (after hash store calls) ∧ Fades nodeId store (after hash store calls) := by
  refine run_preserves (fun state => Sound state ∧ Fades nodeId store state) ?_ store calls spared
    ⟨sound,.refl nodeId store⟩
  rintro state call ⟨legal,spares⟩ ⟨sound,fades⟩
  exact ⟨step_sound hash state call legal sound,
    fades.trans (spared_step hash nodeId state call legal spares sound)⟩

/-- No transaction that begins from now on sees the version. -/
def Expired (txnManager : TransactionManager) (v : Version) : Prop :=
  txnManager.stateOf v.createdTxId = some .aborted ∨
    v.deletedTxId ≠ 0 ∧ txnManager.isTransactionCommitted v.deletedTxId = true

instance (txnManager : TransactionManager) (v : Version) : Decidable (Expired txnManager v) :=
  inferInstanceAs (Decidable (_ ∨ _))

theorem expired_unseen {txnManager : TransactionManager} (wellformed : txnManager.Wellformed) (v : Version)
    (expired : Expired txnManager v) (reader : Nat) (created : v.createdTxId < reader)
    (deleted : v.deletedTxId ≠ 0 → v.deletedTxId < reader) : isVersionVisible txnManager reader v = false := by
  rw [← Bool.not_eq_true,visible_iff]
  rintro (⟨own,_⟩ | ⟨_,committed,kept⟩)
  · omega
  · obtain aborted | ⟨stamped,settled⟩ := expired
    · obtain ⟨txn,found,state⟩ := Option.map_eq_some_iff.mp aborted
      simp [wellformed.committed,found,state] at committed
    · obtain live | ⟨_,unsettled⟩ := kept
      · exact stamped live
      · exact unsettled ⟨settled,deleted stamped⟩

theorem deletion_stamps (hash : Bytes → UInt64) (nodeId : NodeId) (store : GraphStore FilePageStore)
    (sound : Sound store) (deleter : Nat) (issued : (mvcc store).txnManager.Issued deleter)
    (deleted : (perform hash deleter store (.deleteNode nodeId)).1 = some (.ok nodeId))
    (settled : ∀ v ∈ (mvcc store).chain nodeId,
      v.deletedTxId = 0 ∨ v.deletedTxId = deleter ∨ Expired (mvcc store).txnManager v) :
    let next := (perform hash deleter store (.deleteNode nodeId)).2
    ∀ v ∈ (mvcc next).chain nodeId, v.deletedTxId = deleter ∨ Expired (mvcc next).txnManager v := by
  intro next v member
  obtain ⟨frame,written⟩ := perform_frame hash deleter store (.deleteNode nodeId) sound
  rw [show (mvcc next).chain nodeId = _ from written nodeId deleted] at member
  rw [show (mvcc next).txnManager = _ from frame.tables]
  -- only the last version of the chain can have been live, and now the tombstone comes after it
  have marked : v.deletedTxId ≠ 0 := by
    obtain earlier | tomb := List.mem_append.mp member
    · refine MvccHistory.written_linked (Operation.version hash deleter store (.deleteNode nodeId)) v _
        issued.1.ne' (sound.versions.linked nodeId) ?_
      rwa [MvccHistory.written,List.dropLast_concat]
    · rw [List.mem_singleton.mp tomb]
      exact issued.1.ne'
  obtain rfl | old | ⟨last,_,_,rfl⟩ := MvccHistory.written_mem _ v _ member
  · exact .inl rfl
  · exact (settled v old).resolve_left marked
  · exact .inl rfl

/-- A deletion lasts that finds no version of the node but live ones, ones its transaction has removed
itself, and ones that are done with: once it has committed, no transaction that begins later sees the
node, as long as all calls on the node find it on no page. -/
def DeletionLasts (hash : Bytes → UInt64) (nodeId : NodeId) (store : GraphStore FilePageStore) : Prop :=
  ∀ deleter, (mvcc store).txnManager.Issued deleter →
    (∀ v ∈ (mvcc store).chain nodeId,
      v.deletedTxId = 0 ∨ v.deletedTxId = deleter ∨ Expired (mvcc store).txnManager v) →
    (perform hash deleter store (.deleteNode nodeId)).1 = some (.ok nodeId) →
    ∀ pending later,
      Guarded (step hash) (fun state call => Legal state call ∧ Spares nodeId state call)
        (perform hash deleter store (.deleteNode nodeId)).2 (pending ++ later) →
      let committed := after hash (perform hash deleter store (.deleteNode nodeId)).2 pending
      (mvcc committed).txnManager.isTransactionCommitted deleter = true →
      ∀ reader, (mvcc committed).txnManager.nextTransactionId ≤ reader →
        Invisible reader nodeId (after hash committed later)

theorem deletion_lasts (hash : Bytes → UInt64) (nodeId : NodeId) (store : GraphStore FilePageStore)
    (sound : Sound store) : DeletionLasts hash nodeId store := by
  intro deleter issued settled deleted pending later spared committed ended reader fresh
  have stamped := deletion_stamps hash nodeId store sound deleter issued deleted settled
  have performed : Sound (perform hash deleter store (.deleteNode nodeId)).2 :=
    step_sound hash store (.perform deleter (.deleteNode nodeId)) issued sound
  obtain ⟨first,rest⟩ := (guarded_append _ _ _).mp spared
  obtain ⟨before,faded⟩ := spared_run hash nodeId _ pending performed first
  obtain ⟨last,fades⟩ := spared_run hash nodeId committed later before rest
  refine ⟨"Node not visible",?_⟩
  have unseen : VersionChain.newest
      (isVersionVisible (mvcc (after hash committed later)).txnManager reader)
      ((mvcc (after hash committed later)).chain nodeId) = none := by
    refine (VersionChain.newest_none _ _).mpr fun v member => ?_
    have inside := fades.chain member
    have named : v.deletedTxId ≠ 0 → (mvcc committed).txnManager.Issued v.deletedTxId :=
      before.versions.stamps nodeId v inside
    have expired : Expired (mvcc (after hash committed later)).txnManager v := by
      obtain own | aborted | ⟨marked,done⟩ := stamped v (faded.chain inside)
      · have marked : v.deletedTxId ≠ 0 := own ▸ issued.1.ne'
        exact .inr ⟨marked,(fades.committed _ (named marked) (own ▸ ended)).2⟩
      · exact .inl (fades.aborted _ (faded.aborted _ aborted))
      · have earlier := performed.versions.stamps nodeId v (faded.chain inside) marked
        obtain ⟨issued,done⟩ := faded.committed _ earlier done
        exact .inr ⟨marked,(fades.committed _ issued done).2⟩
    refine expired_unseen last.versions.wellformed v expired reader ?_ fun marked => ?_
    · exact Nat.lt_of_lt_of_le (before.versions.creators nodeId v inside).2 fresh
    · exact Nat.lt_of_lt_of_le (named marked).2 fresh
  refine ((getTx_spec .node reader nodeId _ last.enabled).1).trans ?_
  rw [unseen]
  rfl

/-- In every state that a history reaches, a transaction that does not see a node can neither
update nor delete it exactly when the node is on no page either. And a deletion lasts as long
as the calls on the node find it on no page. -/
theorem invisible_refused (hash : Bytes → UInt64) (wal : Option WALManager) (calls : List Call)
    (history : History hash (opened (FilePageStore.openFile []) wal) calls) (txId : Nat) (nodeId : NodeId) :
    let store := after hash (opened (FilePageStore.openFile []) wal) calls
    ((Invisible txId nodeId store → ∀ operation, Changes nodeId operation →
        Refused hash txId nodeId store operation) ↔
      (Invisible txId nodeId store → ¬OnPage nodeId store)) ∧
    DeletionLasts hash nodeId store := by
  intro store
  have sound : Sound store := history_sound hash _ wal calls history
  refine ⟨?_,deletion_lasts hash nodeId store sound⟩
  refine forall_congr' fun _ => ⟨fun refused placed => ?_,fun unplaced operation changes =>
    unplaced_refused hash txId nodeId store operation changes unplaced⟩
  obtain ⟨record,found⟩ := (getNode_onPage nodeId store).mp placed
  obtain ⟨_,done⟩ := deletion_written hash txId nodeId sound.enabled sound.versions.free record found
  obtain ⟨⟨e,failed⟩,_⟩ := refused (.deleteNode nodeId) rfl
  rw [done] at failed
  cases failed

/-- Node 1 is on a page, whatever its versions say. -/
structure Stored (store : GraphStore FilePageStore) (manager : MVCCManager) : Prop where
  isOpen : store.pageStore.isClosed = false
  enabled : store.mvccManager = some manager
  free : ∀ key, manager.lockManager.lockTable key = []
  found : (getNode 1 store).1 = .ok ({id := 1},[])

theorem Stored.manager {store : GraphStore FilePageStore} {manager : MVCCManager} (stored : Stored store manager) :
    mvcc store = manager := by
  rw [mvcc,stored.enabled]
  rfl

def unhashed : Bytes → UInt64 := fun _ => 0

theorem stored_created (manager : MVCCManager) (free : ∀ key, manager.lockManager.lockTable key = []) :
    let store := {opened (FilePageStore.openFile []) none with mvccManager := some manager}
    Stored (step unhashed store (.perform 1 (.createNode []))) (MvccHistory.step manager
      (.write 1 {createdTxId := 1, data := .node {id := 1}})) := by
  intro store
  obtain ⟨pages,page,isOpen,wrote,read⟩ := storeNodeRecord_reads 1 {id := 1} []
    {store with nextNodeId := 2} rfl (by decide +kernel)
  let placed : GraphStore FilePageStore := {store with
    nextNodeId := 2
    pageStore := pages
    nodePageIndex := Function.update store.nodePageIndex 1 (some page)
    nodeCount := 1}
  have created : createNode [] store = (.ok 1,placed) := by
    have put : storeNodeRecord store.nextNodeId {id := store.nextNodeId, propertyCount := 0} []
      {store with nextNodeId := store.nextNodeId + 1} = _ := wrote
    unfold createNode
    dsimp only [List.length_nil]
    rw [show UInt32.ofNat 0 = 0 from rfl,put]
    rfl
  obtain ⟨wal,done⟩ := versioned_spec (1 : NodeId) (some "MVCC write failed") "create_node" 1
    (Operation.version unhashed 1 store (.createNode [])) placed manager rfl free
  have performed : (perform unhashed 1 store (.createNode [])).2 = {placed with
      mvccManager := some (MvccHistory.step manager
        (.write 1 (Operation.version unhashed 1 store (.createNode []))))
      walManager := wal} := by
    simp only [perform,createNodeTx,created]
    exact congrArg Prod.snd done
  rw [step,performed]
  refine ⟨isOpen,rfl,(MvccHistory.write_step manager free _ _).2.1,?_⟩
  rw [← read]
  exact get_same .node 1 _ _ rfl rfl

theorem stored_deleted (store : GraphStore FilePageStore) (manager : MVCCManager)
    (stored : Stored store manager) :
    Stored (step unhashed store (.perform 2 (.deleteNode 1))) (MvccHistory.step manager
      (.write 1 {createdTxId := 2, deletedTxId := 2, data := .node {id := 1}})) := by
  obtain ⟨wal,done⟩ := deletion_written unhashed 2 1 stored.enabled stored.free _ stored.found
  rw [step,done]
  refine ⟨stored.isOpen,rfl,(MvccHistory.write_step manager stored.free _ _).2.1,?_⟩
  rw [← stored.found]
  exact get_same .node 1 _ _ rfl rfl

theorem stored_begun (store : GraphStore FilePageStore) (manager : MVCCManager)
    (stored : Stored store manager) :
    Stored (step unhashed store .begin) (MvccHistory.step manager .begin) :=
  ⟨stored.isOpen,(by rw [step,manage,stored.enabled]; rfl),stored.free,
    (manage_reads .begin .node 1 store).trans stored.found⟩

theorem stored_committed (store : GraphStore FilePageStore) (manager : MVCCManager) (txId : Nat)
    (stored : Stored store manager) :
    Stored (step unhashed store (.commit txId)) (MvccHistory.step manager (.commit txId)) :=
  ⟨stored.isOpen,(by rw [step,manage,stored.enabled]; rfl),stored.free,
    (manage_reads (.commit txId) .node 1 store).trans stored.found⟩

theorem stored_legal (store : GraphStore FilePageStore) (manager : MVCCManager) (txId : Nat)
    (operation : Operation) (enabled : store.mvccManager = some manager)
    (issued : manager.txnManager.Issued txId) :
    Legal store (.commit txId) ∧ Legal store (.perform txId operation) := by
  have same : (mvcc store).txnManager.Issued txId := by rwa [mvcc,enabled]
  exact ⟨same,same⟩

/-- A node that a transaction has created and committed. -/
def created : List Call := [.begin,.perform 1 (.createNode []),.commit 1,.begin]

/-- A node that one transaction has created and another has deleted, both committed. -/
def deleted : List Call := [.begin,.perform 1 (.createNode []),.commit 1,.begin,
  .perform 2 (.deleteNode 1),.commit 2,.begin]

def revived : List Call := deleted ++ [.perform 3 (.updateNode 1 []),.commit 3,.begin]

/-- The versions of the new node, as `created` leaves them. -/
def createdVersions : MVCCManager := run MvccHistory.step {} [.begin,
  .write 1 {createdTxId := 1, data := .node {id := 1}},.commit 1,.begin]

/-- The versions of the deleted node, as `deleted` leaves them. -/
def deletedVersions : MVCCManager := run MvccHistory.step {} [.begin,
  .write 1 {createdTxId := 1, data := .node {id := 1}},.commit 1,.begin,
  .write 1 {createdTxId := 2, deletedTxId := 2, data := .node {id := 1}},.commit 2,.begin]

theorem created_stored : History unhashed (opened (FilePageStore.openFile []) none) created ∧
    Stored (after unhashed (opened (FilePageStore.openFile []) none) created) createdVersions := by
  have stored := stored_created (MvccHistory.step {} .begin) (fun _ => rfl)
  refine ⟨⟨trivial,?_,?_,trivial,trivial⟩,stored_begun _ _ (stored_committed _ _ 1 stored)⟩
  · exact (stored_legal _ (MvccHistory.step {} .begin) 1 _ rfl (by decide)).2
  · exact (stored_legal _ _ 1 (.deleteNode 1) stored.enabled (by decide)).1

theorem deleted_stored : History unhashed (opened (FilePageStore.openFile []) none) deleted ∧
    Stored (after unhashed (opened (FilePageStore.openFile []) none) deleted) deletedVersions := by
  obtain ⟨history,stored⟩ := created_stored
  rw [show deleted = created ++ [.perform 2 (.deleteNode 1),.commit 2,.begin] from rfl,after_append]
  have erased := stored_deleted _ _ stored
  have ended := stored_begun _ _ (stored_committed _ _ 2 erased)
  refine ⟨(guarded_append _ created _).mpr ⟨history,?_,?_,trivial,trivial⟩,ended⟩
  · exact (stored_legal _ _ 2 _ stored.enabled (by decide)).2
  · exact (stored_legal _ _ 2 (.deleteNode 1) erased.enabled (by decide)).1

theorem told_versions {store : GraphStore FilePageStore} {manager : MVCCManager} (reader : Nat)
    (enabled : store.mvccManager = some manager) :
    (getNodeTx reader 1 store).1 = told .node (getNode 1 store).1
      (VersionChain.newest (isVersionVisible manager.txnManager reader) (manager.chain 1)) := by
  have same : mvcc store = manager := by rw [mvcc,enabled]; rfl
  rw [← same]
  exact (getTx_spec .node reader 1 store (by rw [same,enabled])).1

/-- The node that every later transaction has to miss is seen again after an update by a
transaction that does not see it. -/
theorem deleted_returns :
    let reached := after unhashed (opened (FilePageStore.openFile []) none)
    History unhashed (opened (FilePageStore.openFile []) none) revived ∧
      Invisible 3 1 (reached deleted) ∧
      (perform unhashed 3 (reached deleted) (.updateNode 1 [])).1 = some (.ok 1) ∧
      (getNodeTx 4 1 (reached revived)).1 = .ok ({id := 1},[]) := by
  intro reached
  obtain ⟨history,stored⟩ := deleted_stored
  obtain ⟨pages,index,wal,updated⟩ := update_written unhashed 3 1 [] stored.isOpen stored.enabled
    stored.free {id := 1} [] stored.found (by decide +kernel)
  have written : (step unhashed (reached deleted) (.perform 3 (.updateNode 1 []))).mvccManager =
      some (MvccHistory.step deletedVersions (.write 1 {createdTxId := 3, data := .node {id := 1}})) := by
    rw [step,updated]
    rfl
  have ended : (reached revived).mvccManager = some (run MvccHistory.step deletedVersions
      [.write 1 {createdTxId := 3, data := .node {id := 1}},.commit 3,.begin]) := by
    simp only [reached,revived,after,run_append,run_cons,run_nil]
    rw [step,manage,step,manage]
    rw [show (step unhashed (run (step unhashed) _ deleted) _).mvccManager = _ from written]
    rfl
  refine ⟨?_,⟨"Node not visible",?_⟩,by rw [updated],?_⟩
  · refine (guarded_append _ _ _).mpr ⟨history,?_,?_,trivial,trivial⟩
    · exact (stored_legal _ _ 3 _ stored.enabled (by decide)).2
    · exact (stored_legal _ _ 3 (.deleteNode 1) written (by decide)).1
  · refine (told_versions 3 stored.enabled).trans ?_
    rw [show VersionChain.newest (isVersionVisible deletedVersions.txnManager 3)
      (deletedVersions.chain 1) = none by decide]
    rfl
  · refine (told_versions 4 ended).trans ?_
    rw [show VersionChain.newest _ _ = some {createdTxId := 3, data := .node {id := 1}} by decide]
    rfl

/-- A node that was never created stays untouched, and one that was deleted stays out of sight of
the next transaction. -/
theorem invisible_refused_missing :
    Refused unhashed 1 5 (after unhashed (opened (FilePageStore.openFile []) none) [.begin])
        (.deleteNode 5) ∧
      Invisible 3 1 (after unhashed (opened (FilePageStore.openFile []) none) deleted) := by
  constructor
  · refine (invisible_refused unhashed none [.begin] ⟨trivial,trivial⟩ 1 5).1.mpr ?_
      ⟨"Node not visible",rfl⟩ (.deleteNode 5) rfl
    rintro _ ⟨page,_,_,index,_⟩
    cases index
  · obtain ⟨history,stored⟩ := created_stored
    have lasts := (invisible_refused unhashed none created history 2 1).2
    rw [show deleted = created ++ [.perform 2 (.deleteNode 1)] ++ [.commit 2] ++ [.begin] from rfl,
      after_append,after_append,after_perform]
    generalize after unhashed (opened (FilePageStore.openFile []) none) created = store at stored lasts ⊢
    have erased := stored_deleted store createdVersions stored
    rw [step] at erased
    obtain ⟨_,done⟩ := deletion_written unhashed 2 1 stored.enabled stored.free _ stored.found
    have versions := (stored_committed _ _ 2 erased).manager
    rw [← show after unhashed (perform unhashed 2 store (.deleteNode 1)).2 [.commit 2] = _ from
      (run_cons ..).trans (run_nil ..)] at versions
    refine lasts 2 ?_ ?_ (congrArg Prod.fst done) [.commit 2] [.begin] ?_ ?_ 3 ?_
    · exact (stored_legal store _ 2 (.deleteNode 1) stored.enabled (by decide)).2
    · rw [stored.manager]
      decide
    · have legal := (stored_legal _ _ 2 (.deleteNode 1) erased.enabled (by decide)).1
      exact ⟨⟨legal,trivial⟩,⟨trivial,trivial⟩,trivial⟩
    · rw [versions]
      decide
    · rw [versions]
      decide

end LoreDB.Storage.InvisibleWrites
