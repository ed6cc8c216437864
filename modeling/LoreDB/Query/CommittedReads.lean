import LoreDB.Query.NodeReads
import LoreDB.Storage.CopiedNodes

/-! The node reads of a query executor against those of a transaction that begins with it on the store's own
transaction manager. The executor reads as the transaction 1 or from the pages, so the two agree as long as
that transaction alone writes nodes, does not abort and deletes none. -/
namespace LoreDB.Query.QueryExecutor
open LoreDB.Storage LoreDB.Transaction LoreDB.Library.History
open GraphStore GraphHistory GraphRefinement OpenStores CopiedNodes ExecutionContext

/-- What a transaction is told of a node. -/
def told (reader : Nat) (store : Store) (nodeId : NodeId) : Option (NodeRecord × List Property) :=
  (getNodeTx reader nodeId store).1.toOption

/-- The executor returns what the reader is told, and that has been committed. The reads are those that end:
with the largest limit of all the loop over the ids does not. -/
structure ReadsCommitted (executor : QueryExecutor) (reader : Nat) (index : SimpleIndexManager)
    (store : Store) : Prop where
  nodeById : ∀ nodeId, (executor.getNodeById nodeId store).toOption =
    (told reader store nodeId).map fun found => nodesToResult [found]
  allNodes : ∀ limit : UInt64, limit.toNat + 1 ≠ 2 ^ 64 → getAllNodes limit store =
    .value (nodesToResult ((List.range limit.toNat).filterMap fun i => told reader store (UInt64.ofNat (i + 1))))
  nodesByProperty : ∀ key value, getNodesByProperty key value index store =
    nodesToResult ((index.findNodesByProperty key value).filterMap (told reader store))
  batch : ∀ nodeIds, batchGetNodes nodeIds store = nodesToResult (nodeIds.filterMap (told reader store))
  committed : ∀ nodeId found, told reader store nodeId = some found →
    ∃ v ∈ (mvcc store).chain nodeId, v.data = .node found.1 ∧ v.properties = found.2 ∧
      (mvcc store).txnManager.stateOf v.createdTxId = some .committed

theorem constructed_versioned (store : Store) (enabled : hasMvcc store = true) : (constructed store).txId = 1 := by
  rw [constructed,if_pos enabled]
  rfl

theorem reads_agree (executor : QueryExecutor) (reader : Nat) (index : SimpleIndexManager) (store : Store)
    (first : executor.txId = 1) (copied : Copied store) (begun : Begun reader store) :
    ReadsCommitted executor reader index store := by
  have wellformed := copied.sound.versions.wellformed
  have own (id : NodeId) : (getNodeTx 1 id store).1.toOption = onPage store id :=
    reads_page 1 id copied fun _ => .inl rfl
  have tells (id : NodeId) : told reader store id = onPage store id := by
    refine reads_page reader id copied fun page => .inr ?_
    obtain ⟨later,committed⟩ := begun_committed reader id copied begun page
    have issued : (mvcc store).txnManager.Issued 1 := (wellformed.issued 1).mp
      (Option.isSome_of_mem (Option.map_eq_some_iff.mp committed).choose_spec.1)
    exact ⟨later,(wellformed.committed_state 1 issued).mpr committed⟩
  have same : told reader store = fun id => (GraphStore.getNode id store).1.toOption := funext tells
  have versioned : hasMvcc store = true := by rw [hasMvcc,copied.sound.enabled]; rfl
  refine ⟨fun id => ?_,fun limit small => ?_,fun key value => ?_,fun ids => ?_,fun id found page => ?_⟩
  · have fresh : executor.getNodeById id store =
        (getNodeTx 1 id store).1.map fun found => nodesToResult [found] := by
      rw [getNodeById,versioned,first]
      rfl
    rw [tells,← own,fresh]
    cases (getNodeTx 1 id store).1 <;> rfl
  · rw [getAllNodes,if_neg small,batchGetNodes,List.filterMap_map,same]
    rfl
  · rw [getNodesByProperty,batchGetNodes,same]
  · rw [batchGetNodes,same]
  · rw [tells] at page
    obtain ⟨older,copy,newer,split,copies,-,-⟩ := copied.mirrored id found page
    obtain ⟨-,committed⟩ := begun_committed reader id copied begun (by rw [page]; exact Option.some_ne_none _)
    exact ⟨copy,by simp [split],copies.record,copies.properties,copies.writer.symm ▸ committed⟩

theorem idle_of (store : Store) (sound : Sound store) (finished : ∀ t < (mvcc store).txnManager.nextTransactionId,
    (mvcc store).txnManager.stateOf t ≠ some .active) : Idle store := by
  intro t active
  have issued := (sound.versions.wellformed.issued t).mp
    (Option.isSome_of_mem (Option.map_eq_some_iff.mp active).choose_spec.1)
  exact finished t issued.2 active

/-- In every history in which the first transaction alone writes nodes, on one page each, and neither aborts after
that nor has its nodes or edges of the same ids deleted, an executor that is constructed while no transaction
is active reads what a transaction does that begins then and writes nothing itself, both at that time and later. -/
theorem reads_committed (hash : Bytes → UInt64) (file : Bytes) (wal : Option WALManager)
    (index : SimpleIndexManager) (before later : List Call) (reader : Nat)
    (transactions : ∀ call ∈ before ++ later, Transactional call)
    (history : History hash (opened (FilePageStore.openFile file) wal) (before ++ .begin::later))
    (idle : Idle (after hash (opened (FilePageStore.openFile file) wal) before))
    (begins : reader = (mvcc (after hash (opened (FilePageStore.openFile file) wal)
      before)).txnManager.nextTransactionId)
    (reads : ∀ operation, Call.perform reader operation ∉ later)
    (keeps : Guarded (step hash) KeepsCopies (opened (FilePageStore.openFile file) wal)
      (before ++ .begin::later)) :
    ReadsCommitted (constructed (after hash (opened (FilePageStore.openFile file) wal) before)) reader index
      (after hash (opened (FilePageStore.openFile file) wal) (before ++ .begin::later)) := by
  obtain ⟨earlier,-,rest⟩ := (guarded_append ..).mp history
  obtain ⟨kept,-,keeps⟩ := (guarded_append ..).mp keeps
  have copied : Copied (after hash (opened (FilePageStore.openFile file) wal) before) := by
    have guarded := (guarded_both (opened (FilePageStore.openFile file) wal) before).mpr ⟨earlier,
      (guarded_both _ _).mpr ⟨kept,(guarded_calls Transactional _ before).mpr
        fun call member => transactions call (List.mem_append_left _ member)⟩⟩
    exact run_preserves Copied (fun store call allowed copied =>
      step_copied hash call allowed.2.2 allowed.1 allowed.2.1 copied) _ before guarded (opened_copied file wal)
  change Guarded (step hash) Legal (step hash (after hash _ before) .begin) later at rest
  change Guarded (step hash) KeepsCopies (step hash (after hash _ before) .begin) later at keeps
  have reached : after hash (opened (FilePageStore.openFile file) wal) (before ++ .begin::later) =
      run (step hash) (step hash (after hash (opened (FilePageStore.openFile file) wal) before) .begin) later := by
    rw [after,run_append,run_cons]
    rfl
  rw [reached]
  generalize after hash (opened (FilePageStore.openFile file) wal) before = store at *
  have start : Copied (step hash store .begin) ∧ Begun reader (step hash store .begin) :=
    ⟨step_copied hash .begin trivial trivial trivial copied,begins ▸ begin_begun copied idle⟩
  have guarded := (guarded_both (step hash store .begin) later).mpr ⟨rest,
    (guarded_both _ _).mpr ⟨keeps,(guarded_calls (fun call => Transactional call ∧
      ∀ operation, call ≠ .perform reader operation) _ later).mpr
        fun call member => ⟨transactions call (List.mem_append_right _ member),
          fun operation same => reads operation (same ▸ member)⟩⟩⟩
  obtain ⟨copied',begun⟩ := run_preserves (fun next => Copied next ∧ Begun reader next)
    (fun next call allowed reached => ⟨step_copied hash call allowed.2.2.1 allowed.1 allowed.2.1 reached.1,
      step_begun hash reader call allowed.2.2.1 allowed.1 allowed.2.1 reached.1.sound allowed.2.2.2 reached.2⟩)
    _ later guarded start
  exact reads_agree _ _ index _ (constructed_versioned store (by rw [hasMvcc,copied.sound.enabled]; rfl)) copied' begun

abbrev fresh : Store := opened (FilePageStore.openFile []) none

def firstCreates : List Call := [.begin,.perform 1 (.createNode []),.commit 1]

theorem reads_committed_created :
    let reached := after (fun _ => 0) fresh
    ReadsCommitted (constructed (reached firstCreates)) 2 {}
      (reached (firstCreates ++ [.begin,.begin,.commit 3])) := by
  intro reached
  have facts : History (fun _ => 0) fresh (firstCreates ++ [.begin,.begin,.commit 3]) ∧
      2 = (mvcc (after (fun _ => 0) (opened (FilePageStore.openFile []) none)
        firstCreates)).txnManager.nextTransactionId ∧
      ∀ t < (mvcc (reached firstCreates)).txnManager.nextTransactionId,
        (mvcc (reached firstCreates)).txnManager.stateOf t ≠ some .active := by
    decide +kernel
  obtain ⟨history,begins,finished⟩ := facts
  have sound : Sound (reached firstCreates) := history_sound _ _ _ _ ((guarded_append _ _ _).mp history).1
  have idle : Idle (reached firstCreates) := idle_of _ sound finished
  have keeps : Guarded (step fun _ => 0) KeepsCopies fresh (firstCreates ++ [.begin,.begin,.commit 3]) :=
    ⟨trivial,⟨⟨rfl,by decide⟩,by decide +kernel⟩,trivial,trivial,trivial,trivial,trivial⟩
  exact reads_committed (fun _ => 0) [] none {} firstCreates [.begin,.commit 3] 2
    (by simp [firstCreates,Transactional]) history idle begins (by simp) keeps

/-- The second transaction creates a node and commits. -/
def secondCreates : List Call := [.begin,.commit 1,.begin,.perform 2 (.createNode []),.commit 2]

/-- The executor does not find the node that a transaction reads. -/
theorem second_unread :
    let reached := after (fun _ => 0) fresh
    (∀ call ∈ secondCreates ++ [], Transactional call) ∧
      History (fun _ => 0) fresh (secondCreates ++ [.begin]) ∧ Idle (reached secondCreates) ∧
      (constructed (reached secondCreates)).getNodeById 1 (reached (secondCreates ++ [.begin])) =
        .error ⟨.notFound,"Node not visible"⟩ ∧
      told 3 (reached (secondCreates ++ [.begin])) 1 = some (nodeRecord 1 [],[]) ∧
      ¬ReadsCommitted (constructed (reached secondCreates)) 3 {} (reached (secondCreates ++ [.begin])) := by
  intro reached
  have facts : History (fun _ => 0) fresh (secondCreates ++ [.begin]) ∧
      (∀ t < (mvcc (reached secondCreates)).txnManager.nextTransactionId,
        (mvcc (reached secondCreates)).txnManager.stateOf t ≠ some .active) ∧
      (constructed (reached secondCreates)).getNodeById 1 (reached (secondCreates ++ [.begin])) =
        .error ⟨.notFound,"Node not visible"⟩ ∧
      told 3 (reached (secondCreates ++ [.begin])) 1 = some (nodeRecord 1 [],[]) := by
    decide +kernel
  obtain ⟨history,finished,unread,tells⟩ := facts
  have sound : Sound (reached secondCreates) := history_sound _ _ _ _ ((guarded_append _ _ _).mp history).1
  refine ⟨by simp [secondCreates,Transactional],history,idle_of _ sound finished,unread,tells,fun reads => ?_⟩
  have same := reads.nodeById 1
  rw [unread,tells] at same
  cases same

end LoreDB.Query.QueryExecutor
