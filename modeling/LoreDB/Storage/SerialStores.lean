import LoreDB.Storage.OpenStores
import LoreDB.Storage.RefusedVersions
import LoreDB.Transaction.SerialHistory

/-! Serial histories of transactions on an open graph store. An operation goes through exactly when the record
that it names can be read from its page, and the running transaction then reads the version that was written. -/
namespace LoreDB.Storage.SerialStores
open LoreDB.Transaction LoreDB.Library LoreDB.Library.History GraphStore GraphHistory OpenStores RefusedVersions
open SerialHistory (current Follows follows_read)

/-- The record can be read from its page. -/
def OnPage (kind : Kind) (id : UInt64) (store : Store) : Prop := ∃ found, (get kind id store).1 = .ok found

def NodeRead (txId : Nat) (id : NodeId) (store : Store) : Prop := ∃ found, (getNodeTx txId id store).1 = .ok found

/-- Updates and deletions need the record on its page. -/
def Proceeds (store : Store) : Operation → Prop
  | .createNode _ | .createEdge _ _ _ _ _ => True
  | .updateNode id _ | .deleteNode id => OnPage .node id store
  | .updateEdge id _ | .deleteEdge id => OnPage .edge id store

/-- A new edge joins nodes that its transaction reads. -/
def JoinsRead (txId : Nat) (store : Store) : Operation → Prop
  | .createEdge _ fromNode toNode _ _ => NodeRead txId fromNode store ∧ NodeRead txId toNode store
  | _ => True

/-- The calls of one transaction after the other, each of which commits. Reads may come from anyone. -/
def Serial (store : Store) : Call → Prop
  | .begin => SerialHistory.Serial (mvcc store) .begin
  | .commit txId => SerialHistory.Serial (mvcc store) (.commit txId)
  | .collect minActiveTxId => SerialHistory.Serial (mvcc store) (.collect minActiveTxId)
  | .perform txId operation => txId = current (mvcc store).txnManager ∧
      (mvcc store).txnManager.activeTransactions txId = true ∧ JoinsRead txId store operation
  | .get _ _ | .getTx _ _ _ => True
  | .abort _ | .plain _ => False

variable {store : Store}

theorem get_store (kind : Kind) (id : UInt64) (store : Store) : (get kind id store).2 = store := by
  cases kind <;> exact getRecord_keeps ..

theorem get_found {kind : Kind} {id : UInt64} {found : kind.Record × List Property}
    (read : (get kind id store).1 = .ok found) : get kind id store = (.ok found,store) :=
  Prod.ext read (get_store kind id store)

theorem get_failed {kind : Kind} {id : UInt64} (missing : ¬OnPage kind id store) :
    ∃ e, get kind id store = (.error e,store) := by
  cases read : (get kind id store).1 with
  | error e => exact ⟨e,Prod.ext read (get_store kind id store)⟩
  | ok found => exact absurd ⟨found,read⟩ missing

/-! Operations. -/

section Operations

variable (hash : Bytes → UInt64)

theorem firstPart_proceeds (operation : Operation) (isOpen : IsOpen store) (proceeds : Proceeds store operation) :
    ∃ key, (firstPart hash store operation).1 = .ok key := by
  cases operation with
  | createNode properties =>
    obtain ⟨next,created,-⟩ := createNode_opens properties isOpen
    exact ⟨_,congrArg Prod.fst created⟩
  | updateNode id properties =>
    obtain ⟨e,failed,-⟩ | ⟨-,next,updated,-⟩ := updateNode_opens id properties isOpen
    · obtain ⟨found,read⟩ := proceeds
      cases failed.symm.trans read
    · exact ⟨id,congrArg (fun result => result.1.map fun _ => id) updated⟩
  | deleteNode id =>
    obtain ⟨found,read⟩ := proceeds
    exact ⟨id,congrArg (Except.map fun _ => id) read⟩
  | createEdge clock fromNode toNode label properties =>
    have counted : IsOpen {store with nextEdgeId := store.nextEdgeId + 1} := isOpen
    obtain ⟨next,stored,-⟩ := storeEdgeRecord_opens store.nextEdgeId {
      id := store.nextEdgeId
      fromNode := fromNode
      toNode := toNode
      labelId := (hash label).toUInt32
      propertyCount := UInt32.ofNat properties.length
      timestamp := clock} properties counted
    refine ⟨store.nextEdgeId,?_⟩
    simp only [firstPart,GraphRefinement.answer,createEdge,stored]
  | updateEdge id properties =>
    obtain ⟨found,read⟩ := proceeds
    obtain ⟨next,stored,-⟩ := storeEdgeRecord_opens id
      {found.1 with propertyCount := UInt32.ofNat properties.length} properties isOpen
    refine ⟨id,?_⟩
    simp only [firstPart,GraphRefinement.answer,updateEdge,show getEdge id store = _ from get_found read,stored]
    rfl
  | deleteEdge id =>
    obtain ⟨found,read⟩ := proceeds
    refine ⟨id,?_⟩
    simp only [firstPart,GraphRefinement.answer,deleteEdge,show getEdge id store = _ from get_found read]
    rfl

theorem firstPart_stays (operation : Operation) (missing : ¬Proceeds store operation) :
    ∃ e, firstPart hash store operation = (.error e,store) := by
  cases operation with
  | createNode properties => exact absurd trivial missing
  | createEdge clock fromNode toNode label properties => exact absurd trivial missing
  | updateNode id properties =>
    obtain ⟨e,failed⟩ := get_failed missing
    refine ⟨e,?_⟩
    simp only [firstPart,GraphRefinement.answer,GraphHistory.plain,updateNode,show getNode id store = _ from failed]
    rfl
  | deleteNode id =>
    obtain ⟨e,failed⟩ := get_failed missing
    refine ⟨e,?_⟩
    simp only [firstPart,show getNode id store = _ from failed]
    rfl
  | updateEdge id properties =>
    obtain ⟨e,failed⟩ := get_failed missing
    refine ⟨e,?_⟩
    simp only [firstPart,GraphRefinement.answer,GraphHistory.plain,updateEdge,show getEdge id store = _ from failed]
    rfl
  | deleteEdge id =>
    obtain ⟨e,failed⟩ := get_failed missing
    refine ⟨e,?_⟩
    simp only [firstPart,GraphRefinement.answer,GraphHistory.plain,deleteEdge,show getEdge id store = _ from failed]
    rfl

variable (txId : Nat) (operation : Operation) {manager : MVCCManager}

/-- An operation that goes through writes its version. -/
theorem perform_proceeds (isOpen : IsOpen store) (enabled : store.mvccManager = some manager)
    (free : ∀ key, manager.lockManager.lockTable key = []) (proceeds : Proceeds store operation) :
    ∃ next wal, Touches operation.kind (operation.key store) store next ∧
      perform hash txId store operation = (some (.ok (operation.key store)),{next with
        mvccManager := some (MvccHistory.step manager
          (.write (operation.key store) (operation.version hash txId store)))
        walManager := wal}) := by
  obtain ⟨next,touched,⟨e,failed⟩ | ⟨wal,done⟩⟩ := perform_spec hash txId store operation manager enabled free
  · obtain ⟨key,first⟩ := firstPart_proceeds hash operation isOpen proceeds
    have versions := firstPart_versions hash store operation
    rw [perform_parts hash txId store operation (by rw [enabled]; rfl)] at failed
    cases both : firstPart hash store operation with
    | mk result later =>
      rw [both] at first versions failed
      obtain rfl : result = .ok key := first
      obtain ⟨wal,wrote⟩ := versioned_spec (operation.key store) (refusal operation) (name operation)
        (operation.key store) (operation.version hash txId store) later manager (versions.trans enabled) free
      cases (congrArg Prod.fst failed).symm.trans (congrArg Prod.fst wrote)
  · exact ⟨next,wal,touched,done⟩

theorem perform_stays (enabled : store.mvccManager = some manager) (missing : ¬Proceeds store operation) :
    ∃ e, perform hash txId store operation = (some (.error e),store) := by
  obtain ⟨e,failed⟩ := firstPart_stays hash operation missing
  exact ⟨e,by rw [perform_parts hash txId store operation (by rw [enabled]; rfl),failed]⟩

end Operations

/-! Histories. -/

/-- What a serial history keeps. -/
structure Settled (store : Store) : Prop where
  sound : Sound store
  isOpen : IsOpen store
  follows : ∃ contents, Follows (mvcc store) contents

/-- The running transaction, or else the next one, reads the last live version. -/
theorem follows_newest {manager : MVCCManager} {contents : UInt64 → Option Version}
    (follows : Follows manager contents) (key : UInt64) :
    VersionChain.newest (isVersionVisible manager.txnManager (current manager.txnManager)) (manager.chain key) =
      contents key := by
  have reads := follows_read follows key
  cases bound : contents key with
  | some version =>
    rw [bound] at reads
    exact (MVCCManager.read_found ..).mp reads
  | none =>
    rw [bound] at reads
    have told := (MVCCManager.read_chain key (current manager.txnManager) manager).symm.trans reads
    split at told
    · cases told
    · assumption

theorem getTx_current {contents : UInt64 → Option Version} (sound : Sound store)
    (follows : Follows (mvcc store) contents) (kind : Kind) (id : UInt64) :
    (getTx kind (current (mvcc store).txnManager) id store).1 = told kind (get kind id store).1 (contents id) := by
  rw [(getTx_spec kind _ id store sound.enabled).1,follows_newest follows]

theorem manage_mvcc (call : MvccHistory.Call) (sound : Sound store) :
    mvcc (manage call store) = MvccHistory.step (mvcc store) call := by
  rw [mvcc,manage_versions call store sound.enabled]
  rfl

theorem getTx_store (kind : Kind) (txId : Nat) (id : UInt64) (sound : Sound store) :
    (getTx kind txId id store).2 = store :=
  (getTx_spec kind txId id store sound.enabled).2.elim (fun same => same) (·.trans (get_store kind id store))

variable (hash : Bytes → UInt64)

theorem step_legal (call : Call) (serial : Serial store call) (sound : Sound store) : Legal store call := by
  cases call with
  | commit txId => exact SerialHistory.active_issued sound.versions.wellformed serial.2
  | abort txId => exact serial.elim
  | perform txId operation => exact SerialHistory.active_issued sound.versions.wellformed serial.2.1
  | begin | collect _ | plain _ | get _ _ | getTx _ _ _ => trivial

theorem write_serial (txId : Nat) (operation : Operation) (serial : Serial store (.perform txId operation)) :
    SerialHistory.Serial (mvcc store) (.write (operation.key store) (operation.version hash txId store)) := by
  obtain ⟨running,active,-⟩ := serial
  obtain ⟨created,deleted⟩ := version_legal hash txId store operation
  exact ⟨created.trans running,created.symm ▸ active,created.symm ▸ deleted⟩

theorem step_settled (call : Call) (serial : Serial store call) (settled : Settled store) :
    Settled (GraphHistory.step hash store call) := by
  obtain ⟨sound,isOpen,contents,follows⟩ := settled
  refine ⟨step_sound hash store call (step_legal call serial sound) sound,step_opens hash call isOpen,?_⟩
  have managed (managed : MvccHistory.Call) (allowed : SerialHistory.Serial (mvcc store) managed) :
      ∃ contents, Follows (mvcc (manage managed store)) contents := by
    rw [manage_mvcc managed sound]
    exact ⟨_,SerialHistory.step_follows _ contents managed allowed follows⟩
  cases call with
  | begin => exact managed .begin serial
  | commit txId => exact managed (.commit txId) serial
  | collect minActiveTxId => exact managed (.collect minActiveTxId) serial
  | abort txId => exact serial.elim
  | plain operation => exact serial.elim
  | get kind id =>
    rw [GraphHistory.step,get_store]
    exact ⟨contents,follows⟩
  | getTx kind txId id =>
    rw [GraphHistory.step,getTx_store kind txId id sound]
    exact ⟨contents,follows⟩
  | perform txId operation =>
    rw [GraphHistory.step]
    by_cases proceeds : Proceeds store operation
    · obtain ⟨next,wal,-,done⟩ :=
        perform_proceeds hash txId operation isOpen sound.enabled sound.versions.free proceeds
      rw [done]
      exact ⟨_,SerialHistory.step_follows _ contents _ (write_serial hash txId operation serial) follows⟩
    · obtain ⟨e,failed⟩ := perform_stays hash txId operation sound.enabled proceeds
      rw [failed]
      exact ⟨contents,follows⟩

theorem opened_settled (file : Bytes) (wal : Option WALManager) :
    Settled (opened (FilePageStore.openFile file) wal) :=
  ⟨opened_sound _ wal,rfl,_,SerialHistory.initial_follows⟩

/-- Calls that are no operations change nothing that the running transaction, or else the next one, reads. -/
theorem step_reads (call : Call) (serial : Serial store call) (settled : Settled store)
    (other : ∀ txId operation, call ≠ .perform txId operation) :
    (∀ kind id, (getTx kind (current (mvcc (GraphHistory.step hash store call)).txnManager) id
        (GraphHistory.step hash store call)).1 = (getTx kind (current (mvcc store).txnManager) id store).1) ∧
      (GraphHistory.step hash store call).outgoingEdges = store.outgoingEdges ∧
      (GraphHistory.step hash store call).incomingEdges = store.incomingEdges := by
  have later := step_settled hash call serial settled
  obtain ⟨sound,isOpen,contents,follows⟩ := settled
  have managed (managed : MvccHistory.Call) (allowed : SerialHistory.Serial (mvcc store) managed)
      (unwritten : SerialHistory.plainStep contents managed = contents) (sound' : Sound (manage managed store))
      (kind : Kind) (id : UInt64) : (getTx kind (current (mvcc (manage managed store)).txnManager) id
        (manage managed store)).1 = (getTx kind (current (mvcc store).txnManager) id store).1 := by
    have followed := SerialHistory.step_follows _ contents managed allowed follows
    rw [unwritten,← manage_mvcc managed sound] at followed
    rw [getTx_current sound' followed,getTx_current sound follows,manage_reads]
  cases call with
  | begin => exact ⟨managed .begin serial rfl later.sound,rfl,rfl⟩
  | commit txId => exact ⟨managed (.commit txId) serial rfl later.sound,rfl,rfl⟩
  | collect minActiveTxId => exact ⟨managed (.collect minActiveTxId) serial rfl later.sound,rfl,rfl⟩
  | abort txId => exact serial.elim
  | plain operation => exact serial.elim
  | get kind id =>
    rw [GraphHistory.step,get_store]
    exact ⟨fun _ _ => rfl,rfl,rfl⟩
  | getTx kind txId id =>
    rw [GraphHistory.step,getTx_store kind txId id sound]
    exact ⟨fun _ _ => rfl,rfl,rfl⟩
  | perform txId operation => exact absurd rfl (other txId operation)

/-- The version that a transaction reads after it has written it; of its tombstone it reads nothing. -/
def lastWritten (version : Version) : Option Version := if version.deletedTxId = 0 then some version else none

/-- After an operation its transaction reads the version under the key, and all else as before. -/
theorem perform_reads (txId : Nat) (operation : Operation) (serial : Serial store (.perform txId operation))
    (settled : Settled store) (proceeds : Proceeds store operation) :
    let later := (perform hash txId store operation).2
    current (mvcc later).txnManager = txId ∧
      (∀ kind, (getTx kind txId (operation.key store) later).1 =
        told kind (get kind (operation.key store) later).1 (lastWritten (operation.version hash txId store))) ∧
      ∀ kind id, id ≠ operation.key store → (getTx kind txId id later).1 = (getTx kind txId id store).1 := by
  intro later
  have after : Sound later := (step_settled hash (.perform txId operation) serial settled).sound
  have written := write_serial hash txId operation serial
  obtain ⟨running,-,-⟩ := serial
  obtain ⟨sound,isOpen,contents,follows⟩ := settled
  have frame : Frame operation.kind (operation.key store) (operation.version hash txId store) store later :=
    (perform_frame hash txId store operation sound).1
  obtain ⟨next,wal,-,done⟩ :=
    perform_proceeds hash txId operation isOpen sound.enabled sound.versions.free proceeds
  have followed := SerialHistory.step_follows _ contents _ written follows
  rw [show MvccHistory.step (mvcc store) _ = mvcc later by rw [show later = _ from congrArg Prod.snd done]; rfl]
    at followed
  have same : current (mvcc later).txnManager = txId := by rw [frame.tables,← running]
  refine ⟨same,fun kind => ?_,fun kind id apart => ?_⟩
  · have read := getTx_current after followed kind (operation.key store)
    rwa [same,SerialHistory.plainStep,Function.update_self] at read
  · have read := getTx_current after followed kind id
    have before := getTx_current sound follows kind id
    rw [same,SerialHistory.plainStep,Function.update_of_ne apart] at read
    rw [← running] at before
    rw [read,before,frame.records kind id fun absurd => apart (congrArg Prod.snd absurd)]

end LoreDB.Storage.SerialStores
