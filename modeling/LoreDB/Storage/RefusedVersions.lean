import LoreDB.Storage.KeptPages

/-! Operations in transactions when the lock on the id may be refused. The record is on its page before the
version is asked for. A node operation then reports the refusal and leaves the record there; an edge operation
reports success without a version. The deletion of a node alone waits with its change for the version. -/
namespace LoreDB.Storage.RefusedVersions
open LoreDB.Transaction LoreDB.Library.History GraphStore GraphHistory Outlines KeptPages

/-! What becomes of a version. -/

section Versions

variable {σ : Type} {α : Type} (result : α) (refused : Option String) (op : String) (key : UInt64)
  (version : Version) (store : GraphStore σ) (manager : MVCCManager)

/-- The lock that a version needs. -/
def asked : LockOutcome × LockManager := manager.lockManager.lock version.createdTxId key .exclusive

theorem versioned_waiting (enabled : store.mvccManager = some manager)
    (waits : (asked key version manager).1 = .waiting) :
    versioned result refused op key version store = (none,store) := by
  unfold asked at waits
  unfold versioned writeVersion MVCCManager.writeVersion
  rw [enabled]
  dsimp only
  cases locked : manager.lockManager.lock version.createdTxId key .exclusive with
  | mk outcome locks =>
    rw [locked] at waits
    dsimp only at waits
    subst waits
    rfl

theorem versioned_refused (enabled : store.mvccManager = some manager)
    (refusal : (asked key version manager).1 = .refused) :
    ∃ wal, versioned result refused op key version store =
      (some (refused.elim (.ok result) fun message => .error ⟨.corruption,message⟩),{store with
        mvccManager := some {manager with lockManager := (asked key version manager).2}
        walManager := wal}) := by
  unfold asked at refusal ⊢
  unfold versioned writeVersion MVCCManager.writeVersion
  rw [enabled]
  dsimp only
  cases locked : manager.lockManager.lock version.createdTxId key .exclusive with
  | mk outcome locks =>
    rw [locked] at refusal
    dsimp only at refusal
    subst refusal
    cases refused with
    | none => exact ⟨_,rfl⟩
    | some message => exact ⟨store.walManager,rfl⟩

theorem versioned_granted (enabled : store.mvccManager = some manager)
    (granted : (asked key version manager).1 = .granted) :
    ∃ later wal, later.chain key = MvccHistory.written version (manager.chain key) ∧
      versioned result refused op key version store =
        (some (.ok result),{store with mvccManager := some later, walManager := wal}) := by
  unfold asked at granted
  unfold versioned writeVersion MVCCManager.writeVersion
  rw [enabled]
  dsimp only
  cases locked : manager.lockManager.lock version.createdTxId key .exclusive with
  | mk outcome locks =>
    rw [locked] at granted
    dsimp only at granted
    subst granted
    refine ⟨_,_,?_,rfl⟩
    unfold MVCCManager.chain
    dsimp only
    rw [Function.update_self]
    rfl

end Versions

/-! The two parts of an operation. -/

section Parts

variable {σ : Type} [PageStore σ] (hash : Bytes → UInt64)

/-- What an operation does before it asks for its version. -/
def firstPart (store : GraphStore σ) : Operation → Except Error UInt64 × GraphStore σ
  | .deleteNode id => ((getNode id store).1.map fun _ => id,(getNode id store).2)
  | operation => (GraphRefinement.answer hash store operation,plain hash store operation)

/-- The text with which a refusal is reported. -/
def refusal : Operation → Option String
  | .createNode _ | .updateNode _ _ => some "MVCC write failed"
  | .deleteNode _ => some "Failed to write tombstone version"
  | .createEdge _ _ _ _ _ | .updateEdge _ _ | .deleteEdge _ => none

def name : Operation → String
  | .createNode _ => "create_node"
  | .updateNode _ _ => "update_node"
  | .deleteNode _ => "delete_node"
  | .createEdge _ _ _ _ _ => "create_edge"
  | .updateEdge _ _ => "update_edge"
  | .deleteEdge _ => "delete_edge"

omit [PageStore σ] in
theorem keyed_versioned (id : UInt64) (refused : Option String) (op : String) (key : UInt64) (version : Version)
    (store : GraphStore σ) : perform.keyed id (versioned () refused op key version store) =
      versioned id refused op key version store := by
  unfold versioned perform.keyed
  cases store.writeVersion key version with
  | mk written next =>
    cases written with
    | none => rfl
    | some written =>
      cases written with
      | ok _ => rfl
      | error e => cases refused <;> rfl

theorem createNode_key (properties : List Property) (store : GraphStore σ) (id : NodeId)
    (created : (createNode properties store).1 = .ok id) : id = store.nextNodeId := by
  unfold createNode at created
  dsimp only at created
  split at created
  · cases created
  · exact (Except.ok.inj created).symm

theorem createEdge_key (clock : UInt64) (fromNode toNode : NodeId) (label : Bytes) (properties : List Property)
    (store : GraphStore σ) (id : EdgeId)
    (created : (createEdge hash clock fromNode toNode label properties store).1 = .ok id) :
    id = store.nextEdgeId := by
  unfold createEdge at created
  dsimp only at created
  split at created
  · cases created
  · exact (Except.ok.inj created).symm

variable {keeping : Keeping σ}

theorem firstPart_keeps (store : GraphStore σ) (operation : Operation) :
    Kept keeping store (firstPart hash store operation).2 := by
  cases operation with
  | deleteNode id => exact get_keeps .node id store
  | createNode properties => exact plain_keeps hash store (.createNode properties)
  | updateNode id properties => exact plain_keeps hash store (.updateNode id properties)
  | createEdge clock fromNode toNode label properties =>
    exact plain_keeps hash store (.createEdge clock fromNode toNode label properties)
  | updateEdge id properties => exact plain_keeps hash store (.updateEdge id properties)
  | deleteEdge id => exact plain_keeps hash store (.deleteEdge id)

theorem firstPart_plain (store : GraphStore σ) (operation : Operation) (other : ∀ id, operation ≠ .deleteNode id) :
    firstPart hash store operation = (GraphRefinement.answer hash store operation,plain hash store operation) := by
  cases operation with
  | deleteNode id => exact absurd rfl (other id)
  | createNode properties => rfl
  | updateNode id properties => rfl
  | createEdge clock fromNode toNode label properties => rfl
  | updateEdge id properties => rfl
  | deleteEdge id => rfl

/-- Page stores of which nothing is asked. -/
def anything : Keeping σ where
  kept _ _ := True
  held _ _ := True
  refl _ := trivial
  trans _ _ _ _ _ := trivial
  held_kept _ _ _ _ _ := trivial
  read _ _ := trivial
  stored _ _ _ := ⟨trivial,fun _ _ => trivial⟩

theorem firstPart_versions (store : GraphStore σ) (operation : Operation) :
    (firstPart hash store operation).2.mvccManager = store.mvccManager := by
  have kept : Kept anything store _ := firstPart_keeps hash store operation
  exact kept.versions

/-- An operation that gets through its first part asks for its version. -/
theorem perform_parts (txId : Nat) (store : GraphStore σ) (operation : Operation)
    (enabled : store.mvccManager.isSome = true) :
    perform hash txId store operation =
      match firstPart hash store operation with
      | (.error e,next) => (some (.error e),next)
      | (.ok _,next) => versioned (operation.key store) (refusal operation) (name operation)
          (operation.key store) (operation.version hash txId store) next := by
  have versions := firstPart_versions hash store operation
  cases operation with
  | createNode properties =>
    have named := createNode_key properties store
    simp only [perform,createNodeTx,firstPart,GraphRefinement.answer,plain] at versions ⊢
    cases created : createNode properties store with
    | mk result next =>
      rw [created] at versions named
      cases result with
      | error e => rfl
      | ok id =>
        cases named id rfl
        have kept : next.mvccManager.isNone = false := by
          rw [versions]
          cases present : store.mvccManager with
          | none => rw [present] at enabled; cases enabled
          | some manager => rfl
        dsimp only
        rw [kept]
        rfl
  | updateNode id properties =>
    simp only [perform,updateNodeTx,firstPart,GraphRefinement.answer,plain]
    cases updated : updateNode id properties store with
    | mk result next =>
      cases result with
      | error e => rfl
      | ok _ => exact keyed_versioned ..
  | deleteNode id =>
    simp only [perform,deleteNodeTx,firstPart] at versions ⊢
    cases found : getNode id store with
    | mk result next =>
      rw [found] at versions
      cases result with
      | error e => rfl
      | ok _ =>
        dsimp only
        rw [versions,if_pos enabled]
        exact keyed_versioned ..
  | createEdge clock fromNode toNode label properties =>
    have named := createEdge_key hash clock fromNode toNode label properties store
    simp only [perform,createEdgeTx,firstPart,GraphRefinement.answer,plain]
    cases created : createEdge hash clock fromNode toNode label properties store with
    | mk result next =>
      rw [created] at named
      cases result with
      | error e => rfl
      | ok id =>
        cases named id rfl
        rfl
  | updateEdge id properties =>
    simp only [perform,updateEdgeTx,firstPart,GraphRefinement.answer,plain]
    cases updated : updateEdge id properties store with
    | mk result next =>
      cases result with
      | error e => rfl
      | ok _ => exact keyed_versioned ..
  | deleteEdge id =>
    simp only [perform,deleteEdgeTx,firstPart,GraphRefinement.answer,plain]
    cases deleted : deleteEdge id store with
    | mk result next =>
      cases result with
      | error e => rfl
      | ok _ => exact keyed_versioned ..

end Parts

/-! Calls while others take and leave locks. -/

section Events

variable {σ : Type} [LawfulPageStore σ] (hash : Bytes → UInt64)

/-- A call, or what others do to the locks. -/
inductive Event where
  | call (call : Call)
  | locks (locks : LockManager)

def step (store : GraphStore σ) : Event → GraphStore σ
  | .call call => GraphHistory.step hash store call
  | .locks locks =>
    {store with mvccManager := store.mvccManager.map fun manager => {manager with lockManager := locks}}

/-- An error leaves nothing that could be read without a transaction, and a success has written the version. -/
structure AllOrNothing (txId : Nat) (store : GraphStore σ) (operation : Operation) : Prop where
  nothing : ∀ e, (perform hash txId store operation).1 = some (.error e) →
    Unseen store (perform hash txId store operation).2
  all : ∀ key, (perform hash txId store operation).1 = some (.ok key) →
    (mvcc (perform hash txId store operation).2).chain (operation.key store) =
      MvccHistory.written (operation.version hash txId store) ((mvcc store).chain (operation.key store))

/-- The request for the lock on the id would close a circle. -/
def Refused (txId : Nat) (store : GraphStore σ) (operation : Operation) : Prop :=
  ((mvcc store).lockManager.lock txId (operation.key store) .exclusive).1 = .refused

/-- Nothing is done that a refusal would have to take back. -/
def Harmless (txId : Nat) (store : GraphStore σ) (operation : Operation) : Prop :=
  ¬Refused txId store operation ∨ (∃ id, operation = .deleteNode id) ∨
    ∃ e, GraphRefinement.answer hash store operation = .error e

def pagesKept : Keeping σ where
  kept := PagesKept
  held := LawfulPageStore.allocated
  refl := pages_refl
  trans _ _ _ := pages_trans
  held_kept _ _ kept page held := (kept page held).1
  read page pages other held := LawfulPageStore.read_keeps pages page other held
  stored type serialized store := by
    obtain ⟨pages,kept,same,placed⟩ := storeRecord_spec type serialized store
    rw [same]
    exact ⟨kept,placed⟩

theorem firstPart_failed (store : GraphStore σ) (operation : Operation) (e : Error) (next : GraphStore σ)
    (failed : firstPart hash store operation = (.error e,next)) :
    ∃ nodeId edgeId, outline next = {outline store with nextNodeId := nodeId, nextEdgeId := edgeId} := by
  have reads (id : NodeId) (found : firstPart hash store (.deleteNode id) = (.error e,next)) :
      outline next = outline store := by
    have kept := get_outline .node id store
    rwa [show (GraphHistory.get .node id store).2 = next from congrArg Prod.snd found] at kept
  have fails (answered : GraphRefinement.answer hash store operation = .error e)
      (moved : plain hash store operation = next) :=
    moved ▸ failed_outline hash store operation e answered
  cases operation with
  | deleteNode id => exact ⟨_,_,reads id failed⟩
  | createNode properties => exact fails (congrArg Prod.fst failed) (congrArg Prod.snd failed)
  | updateNode id properties => exact fails (congrArg Prod.fst failed) (congrArg Prod.snd failed)
  | createEdge clock fromNode toNode label properties =>
    exact fails (congrArg Prod.fst failed) (congrArg Prod.snd failed)
  | updateEdge id properties => exact fails (congrArg Prod.fst failed) (congrArg Prod.snd failed)
  | deleteEdge id => exact fails (congrArg Prod.fst failed) (congrArg Prod.snd failed)

theorem perform_enabled (txId : Nat) (store : GraphStore σ) (operation : Operation)
    (enabled : store.mvccManager.isSome = true) :
    (perform hash txId store operation).2.mvccManager.isSome = true := by
  have versions := firstPart_versions hash store operation
  rw [perform_parts hash txId store operation enabled]
  obtain ⟨manager,present⟩ := Option.isSome_iff_exists.mp enabled
  rw [present] at versions
  cases done : firstPart hash store operation with
  | mk result next =>
    rw [done] at versions
    dsimp only at versions
    cases result with
    | error e =>
      dsimp only
      rw [versions]
      rfl
    | ok _ =>
      dsimp only
      cases outcome : (asked (operation.key store) (operation.version hash txId store) manager).1 with
      | waiting =>
        rw [versioned_waiting _ _ _ _ _ next manager versions outcome,versions]
        rfl
      | refused =>
        obtain ⟨wal,same⟩ := versioned_refused (operation.key store) (refusal operation) (name operation)
          (operation.key store) (operation.version hash txId store) next manager versions outcome
        rw [same]
        rfl
      | granted =>
        obtain ⟨later,wal,-,same⟩ := versioned_granted (operation.key store) (refusal operation)
          (name operation) (operation.key store) (operation.version hash txId store) next manager versions outcome
        rw [same]
        rfl

/-- The pages of all records are in use, and versions are kept. -/
structure Ready (store : GraphStore σ) : Prop where
  placed : GraphHistory.Placed store
  enabled : store.mvccManager.isSome = true

theorem step_ready (store : GraphStore σ) (event : Event) (ready : Ready store) :
    Ready (step hash store event) := by
  cases event with
  | locks locks => exact ⟨ready.placed,(Option.isSome_map ..).trans ready.enabled⟩
  | call call =>
    have placed : KeptPages.Placed pagesKept (GraphHistory.step hash store call) :=
      KeptPages.step_placed hash store call ready.placed
    refine ⟨placed,?_⟩
    have reads (kind : Kind) (id : UInt64) : (GraphHistory.get kind id store).2.mvccManager.isSome = true := by
      have kept : Kept anything store _ := get_keeps kind id store
      rw [kept.versions]
      exact ready.enabled
    change (GraphHistory.step hash store call).mvccManager.isSome = true
    cases call with
    | begin | commit _ | abort _ | collect _ => exact (Option.isSome_map ..).trans ready.enabled
    | plain operation =>
      have kept : Kept anything store _ := plain_keeps hash store operation
      rw [GraphHistory.step,kept.versions]
      exact ready.enabled
    | perform txId operation => exact perform_enabled hash txId store operation ready.enabled
    | get kind id => exact reads kind id
    | getTx kind txId id =>
      have present : store.mvccManager = some (mvcc store) := by
        obtain ⟨manager,present⟩ := Option.isSome_iff_exists.mp ready.enabled
        rw [mvcc,present]
        rfl
      rcases (getTx_spec kind txId id store present).2 with same | read
      · rw [GraphHistory.step,same]
        exact ready.enabled
      · rw [GraphHistory.step,read]
        exact reads kind id

/-- Where the lock is refused, a harmless operation that gets through its first part deletes a node. -/
theorem succeeded_deletes (txId : Nat) (store : GraphStore σ) (operation : Operation)
    (refused : Refused txId store operation) (harmless : Harmless hash txId store operation) (key : UInt64)
    (succeeds : (firstPart hash store operation).1 = .ok key) : ∃ id, operation = .deleteNode id := by
  obtain free | deletes | ⟨e,fails⟩ := harmless
  · exact absurd refused free
  · exact deletes
  · cases operation with
    | deleteNode id => exact ⟨id,rfl⟩
    | createNode properties => exact (nomatch fails.symm.trans succeeds)
    | updateNode id properties => exact (nomatch fails.symm.trans succeeds)
    | createEdge clock fromNode toNode label properties => exact (nomatch fails.symm.trans succeeds)
    | updateEdge id properties => exact (nomatch fails.symm.trans succeeds)
    | deleteEdge id => exact (nomatch fails.symm.trans succeeds)

theorem harmless_all_or_nothing (txId : Nat) (store : GraphStore σ) (operation : Operation) (ready : Ready store)
    (harmless : Harmless hash txId store operation) : AllOrNothing hash txId store operation := by
  obtain ⟨manager,present⟩ := Option.isSome_iff_exists.mp ready.enabled
  have managed : mvcc store = manager := by rw [mvcc,present]; rfl
  have writer : (operation.version hash txId store).createdTxId = txId := (version_legal hash txId store operation).1
  have parts := perform_parts hash txId store operation ready.enabled
  have versions := firstPart_versions hash store operation
  have kept : Kept pagesKept store _ := firstPart_keeps hash store operation
  cases done : firstPart hash store operation with
  | mk result next =>
    rw [done] at parts versions kept
    rw [present] at versions
    cases result with
    | error e =>
      obtain ⟨nodeId,edgeId,same⟩ := firstPart_failed hash store operation e next done
      refine ⟨fun e' _ => ?_,fun key returned => ?_⟩
      · rw [parts]
        exact unseen_outline ready.placed kept.pages nodeId edgeId same
      · rw [parts] at returned
        cases returned
    | ok key =>
      dsimp only at parts
      cases outcome : (asked (operation.key store) (operation.version hash txId store) manager).1 with
      | waiting =>
        rw [versioned_waiting _ _ _ _ _ next manager versions outcome] at parts
        constructor
        · intro e returned
          rw [parts] at returned
          cases returned
        · intro key returned
          rw [parts] at returned
          cases returned
      | granted =>
        obtain ⟨later,wal,written,same⟩ := versioned_granted (operation.key store) (refusal operation)
          (name operation) (operation.key store) (operation.version hash txId store) next manager versions outcome
        rw [same] at parts
        constructor
        · intro e returned
          rw [parts] at returned
          cases returned
        · intro key _
          rw [parts,managed]
          exact written
      | refused =>
        have asks : Refused txId store operation := by
          unfold asked at outcome
          rwa [writer,← managed] at outcome
        obtain ⟨id,rfl⟩ := succeeded_deletes hash txId store operation asks harmless key (congrArg Prod.fst done)
        obtain ⟨wal,same⟩ := versioned_refused id (refusal (.deleteNode id)) "delete_node" id
          (Operation.version hash txId store (.deleteNode id)) next manager versions outcome
        have unread := get_outline .node id store
        rw [show (GraphHistory.get .node id store).2 = next from congrArg Prod.snd done] at unread
        have whole := parts.trans same
        constructor
        · intro e _
          rw [whole]
          exact unseen_outline ready.placed kept.pages _ _ unread
        · intro key returned
          rw [whole] at returned
          cases returned

theorem created_counts (properties : List Property) (store : GraphStore σ) (id : NodeId)
    (created : (createNode properties store).1 = .ok id) :
    (createNode properties store).2.nodeCount = store.nodeCount + 1 := by
  unfold createNode at created ⊢
  dsimp only at created ⊢
  obtain ⟨e,next,stored,-⟩ | ⟨page,next,stored,kept⟩ := storeNodeRecord_outline store.nextNodeId
    {id := store.nextNodeId, propertyCount := UInt32.ofNat properties.length} properties
    {store with nextNodeId := store.nextNodeId + 1}
  · rw [stored] at created
    cases created
  · rw [stored]
    exact congrArg (· + 1) (congrArg Outline.nodeCount kept)

omit [LawfulPageStore σ] in
theorem written_length (version : Version) (chain : List Version) :
    (MvccHistory.written version chain).length = chain.length + 1 := by
  rw [MvccHistory.written,List.length_append]
  cases chain using List.reverseRecOn with
  | nil => rfl
  | append_singleton front last => simp [List.modifyLast_concat]

/-- An operation that is not harmless leaves a record behind, or succeeds without its version. -/
theorem all_or_nothing_harmless (txId : Nat) (store : GraphStore σ) (operation : Operation) (ready : Ready store)
    (other : ∀ id properties, operation ≠ .updateNode id properties)
    (whole : AllOrNothing hash txId store operation) : Harmless hash txId store operation := by
  by_contra harmful
  obtain ⟨refused,rest⟩ := not_or.mp harmful
  obtain ⟨deletes,fails⟩ := not_or.mp rest
  obtain ⟨manager,present⟩ := Option.isSome_iff_exists.mp ready.enabled
  have managed : mvcc store = manager := by rw [mvcc,present]; rfl
  have writer : (operation.version hash txId store).createdTxId = txId := (version_legal hash txId store operation).1
  have parts := perform_parts hash txId store operation ready.enabled
  have versions := firstPart_versions hash store operation
  rw [present] at versions
  have outcome : (asked (operation.key store) (operation.version hash txId store) manager).1 = .refused := by
    unfold asked
    rw [writer,← managed]
    exact not_not.mp refused
  have plainly := firstPart_plain hash store operation fun id same => deletes ⟨id,same⟩
  obtain ⟨wal,same⟩ := versioned_refused (operation.key store) (refusal operation) (name operation)
    (operation.key store) (operation.version hash txId store) (plain hash store operation) manager
    (by rw [← versions,plainly]) outcome
  rw [plainly] at parts
  cases answered : GraphRefinement.answer hash store operation with
  | error e => exact fails ⟨e,answered⟩
  | ok key =>
    rw [answered] at parts
    have ends := parts.trans same
    have unwritten (silent : refusal operation = none) : False := by
      rw [silent] at ends
      have written := whole.all _ (congrArg Prod.fst ends)
      rw [ends,managed] at written
      have lengths := congrArg List.length written
      have kept : (mvcc {plain hash store operation with
          mvccManager := some {manager with
            lockManager := (asked (operation.key store) (operation.version hash txId store) manager).2}
          walManager := wal}).chain (operation.key store) = manager.chain (operation.key store) := rfl
      rw [kept,written_length] at lengths
      exact Nat.succ_ne_self _ lengths.symm
    cases operation with
    | createNode properties =>
      have unseen := whole.nothing _ (congrArg Prod.fst ends)
      rw [ends] at unseen
      have counts := created_counts properties store key answered
      have same : store.nodeCount + 1 = store.nodeCount := counts.symm.trans unseen.nodeCount
      exact absurd (UInt64.toNat_inj.mpr same) (by rw [UInt64.toNat_add]; have := store.nodeCount.toNat_lt; simp; omega)
    | updateNode id properties => exact other id properties rfl
    | deleteNode id => exact deletes ⟨id,rfl⟩
    | createEdge clock fromNode toNode label properties => exact unwritten rfl
    | updateEdge id properties => exact unwritten rfl
    | deleteEdge id => exact unwritten rfl

/-- Whatever was called before and whatever others hold, an operation in a transaction is all or nothing where
its lock is not refused, where it deletes a node, and where it fails without a transaction too. Apart from
the update of a node, which may store what is there already, it is so nowhere else. -/
theorem transactional_all_or_nothing (pages : σ) (wal : Option WALManager) (events : List Event) (txId : Nat)
    (operation : Operation) :
    (Harmless hash txId (run (step hash) (opened pages wal) events) operation →
      AllOrNothing hash txId (run (step hash) (opened pages wal) events) operation) ∧
    ((∀ id properties, operation ≠ .updateNode id properties) →
      AllOrNothing hash txId (run (step hash) (opened pages wal) events) operation →
        Harmless hash txId (run (step hash) (opened pages wal) events) operation) := by
  have ready : Ready (run (step hash) (opened pages wal) events) :=
    run_keeps Ready (step_ready hash) _ events
      ⟨fun kind id page found => (by cases kind <;> cases found),rfl⟩
  exact ⟨harmless_all_or_nothing hash txId _ operation ready,
    fun other => all_or_nothing_harmless hash txId _ operation ready other⟩

end Events

/-- Transaction 2 holds the locks on the ids to come and waits for transaction 1. -/
def crossed : LockManager where
  lockTable _ := [⟨2,.exclusive,true⟩]
  waitsForGraph := AList.singleton 2 [1]

/-- The node that transaction 1 is refused is stored and counted, and the edge that it creates gets no version. -/
theorem crossed_half_done :
    let store := run (step fun _ => 0) (opened (FilePageStore.openFile []) none)
      [.call .begin,.call .begin,.locks crossed]
    ¬AllOrNothing (fun _ => 0) 1 store (.createNode []) ∧
      ¬AllOrNothing (fun _ => 0) 1 store (.createEdge 0 1 2 [] []) := by
  intro store
  have ready : Ready store :=
    run_keeps Ready (step_ready _) _ _ ⟨fun kind id page found => (by cases kind <;> cases found),rfl⟩
  have harmful (operation : Operation) (key : UInt64) (refused : Refused 1 store operation)
      (other : ∀ id, operation ≠ .deleteNode id)
      (answered : GraphRefinement.answer (fun _ => 0) store operation = .ok key) :
      ¬Harmless (fun _ => 0) 1 store operation := by
    rintro (free | ⟨id,deletes⟩ | ⟨e,fails⟩)
    · exact free refused
    · exact other id deletes
    · cases answered.symm.trans fails
  constructor
  · intro whole
    refine harmful (.createNode []) 1 (by unfold Refused; decide +kernel) (fun _ absurd => nomatch absurd)
      (by decide +kernel) ?_
    exact all_or_nothing_harmless _ 1 store _ ready (fun _ _ absurd => nomatch absurd) whole
  · intro whole
    refine harmful (.createEdge 0 1 2 [] []) 1 (by unfold Refused; decide +kernel)
      (fun _ absurd => nomatch absurd) (by decide +kernel) ?_
    exact all_or_nothing_harmless _ 1 store _ ready (fun _ _ absurd => nomatch absurd) whole

end LoreDB.Storage.RefusedVersions
