import LoreDB.Storage.OpenStores
import LoreDB.Storage.GraphRefinement
import LoreDB.Storage.SkippedTransaction

/-! Stores whose nodes are written by the first transaction alone. Such a node has a version that is a copy
of its page, and what was written under its id since are versions of edges. So its readers are told what
the page says, whichever of these versions they see. -/
namespace LoreDB.Storage.CopiedNodes
open LoreDB.Transaction LoreDB.Transaction.TransactionManager LoreDB.Library LoreDB.Library.VersionChain
open GraphStore GraphHistory GraphRefinement OpenStores RecordSerializer

def onPage (store : Store) (id : NodeId) : Option (NodeRecord × List Property) := (getNode id store).1.toOption

/-- The writer of the version after this one. -/
def overwriter (v : Version) : Option Nat := if v.deletedTxId = 0 then none else some v.deletedTxId

structure Copy (found : NodeRecord × List Property) (v : Version) : Prop where
  writer : v.createdTxId = 1
  record : v.data = .node found.1
  properties : v.properties = found.2

def Mirrored (found : NodeRecord × List Property) (chain : List Version) : Prop :=
  ∃ older copy newer, chain = older ++ copy::newer ∧ Copy found copy ∧
    (∀ v ∈ newer, asNode v.data = none) ∧ Linked Version.createdTxId overwriter (copy::newer)

structure Copied (store : Store) : Prop where
  sound : Sound store
  isOpen : IsOpen store
  records : ∀ id found, onPage store id = some found → found.1 = nodeRecord id found.2
  mirrored : ∀ id found, onPage store id = some found → Mirrored found ((mvcc store).chain id)
  edges : ∀ id, onPage store id = none → ∀ v ∈ (mvcc store).chain id, asNode v.data = none
  writer : ∀ id, onPage store id ≠ none →
    (mvcc store).txnManager.stateOf 1 = some .active ∨ (mvcc store).txnManager.stateOf 1 = some .committed

variable {store : Store}

/-! Chains. -/

theorem node_mirrored (found : NodeRecord × List Property) (version : Version) (chain : List Version)
    (copy : Copy found version) (live : version.deletedTxId = 0) :
    Mirrored found (MvccHistory.written version chain) := by
  refine ⟨chain.modifyLast (stamp version.createdTxId),version,[],rfl,copy,?_,List.isChain_singleton _,?_⟩
  · intro v member
    cases member
  · intro v final
    obtain rfl := Option.some.inj final
    exact if_pos live

theorem stamp_copy (found : NodeRecord × List Property) (txId : Nat) (v : Version) (copy : Copy found v) :
    Copy found (stamp txId v) := by
  unfold stamp
  split
  · exact ⟨copy.writer,copy.record,copy.properties⟩
  · exact copy

/-- A version that is one of an edge, and not its deletion, keeps the copy of a node under the same id. -/
theorem edge_mirrored (found : NodeRecord × List Property) (version : Version) (chain : List Version)
    (edge : asNode version.data = none) (live : version.deletedTxId = 0) (issued : version.createdTxId ≠ 0)
    (mirrored : Mirrored found chain) : Mirrored found (MvccHistory.written version chain) := by
  obtain ⟨older,copy,newer,rfl,copies,edges,linked⟩ := mirrored
  have links : Linked Version.createdTxId overwriter (MvccHistory.written version (copy::newer)) := by
    refine Linked.write _ _ version linked (fun old => ?_) (fun old open' => ?_) (if_pos live)
    · unfold stamp
      split <;> rfl
    · have live : old.deletedTxId = 0 := by
        by_contra written
        rw [overwriter,if_neg written] at open'
        cases open'
      rw [stamp,if_pos live]
      exact if_neg issued
  have split : MvccHistory.written version (older ++ copy::newer) =
      older ++ MvccHistory.written version (copy::newer) := by
    rw [MvccHistory.written,List.modifyLast_append_of_right_ne_nil _ _ _ (List.cons_ne_nil _ _),
      List.append_assoc]
    rfl
  rw [split]
  cases newer with
  | nil =>
    refine ⟨older,stamp version.createdTxId copy,[version],rfl,stamp_copy found _ copy copies,?_,links⟩
    intro v member
    rw [List.mem_singleton.mp member]
    exact edge
  | cons next newer =>
    have later : MvccHistory.written version (copy::next::newer) =
        copy::MvccHistory.written version (next::newer) := by
      rw [MvccHistory.written,show copy::next::newer = [copy] ++ next::newer from rfl,
        List.modifyLast_append_of_right_ne_nil _ _ _ (List.cons_ne_nil _ _)]
      rfl
    rw [later] at links ⊢
    refine ⟨older,copy,_,rfl,copies,fun v member => ?_,links⟩
    rcases MvccHistory.written_mem version v _ member with rfl | old | ⟨old,inside,-,rfl⟩
    · exact edge
    · exact edges v old
    · exact edges old inside

/-! Operations. -/

/-- Operations after which every node on a page still has its copy. -/
def Harmless (store : Store) (txId : Nat) : Operation → Prop
  | .createNode properties => (txId = 1 ∧ (mvcc store).txnManager.stateOf 1 ≠ some .aborted) ∧
      FitsPage (serializeNode (nodeRecord store.nextNodeId properties) properties)
  | .updateNode id properties => onPage store id ≠ none →
      (txId = 1 ∧ (mvcc store).txnManager.stateOf 1 ≠ some .aborted) ∧
        FitsPage (serializeNode (nodeRecord id properties) properties)
  | .deleteNode id => onPage store id = none
  | .deleteEdge id => (∃ found, (getEdge id store).1 = .ok found) → onPage store id = none
  | .createEdge _ _ _ _ _ | .updateEdge _ _ => True

theorem onPage_none (id : NodeId) : onPage store id = none ↔ ∃ e, (getNode id store).1 = .error e := by
  unfold onPage
  cases (getNode id store).1 <;> simp [Except.toOption]

theorem onPage_some (id : NodeId) (found : NodeRecord × List Property) :
    onPage store id = some found ↔ (getNode id store).1 = .ok found := by
  unfold onPage
  cases (getNode id store).1 <;> simp [Except.toOption]

theorem Copied.running (copied : Copied store) (issued : (mvcc store).txnManager.Issued 1)
    (unaborted : (mvcc store).txnManager.stateOf 1 ≠ some .aborted) :
    (mvcc store).txnManager.stateOf 1 = some .active ∨
      (mvcc store).txnManager.stateOf 1 = some .committed := by
  have known := (copied.sound.versions.wellformed.issued 1).mpr issued
  unfold stateOf at unaborted ⊢
  cases found : (mvcc store).txnManager.transactions 1 with
  | none => simp [found] at known
  | some txn =>
    rw [found] at unaborted
    simp only [Option.map_some] at unaborted ⊢
    cases state : txn.state with
    | active => exact .inl rfl
    | committed => exact .inr rfl
    | aborted => exact absurd (congrArg some state) unaborted

/-- The first transaction writes a node on its page and as a version. -/
theorem Copied.wrote {later : Store} (copied : Copied store) (sound : Sound later) (isOpen : IsOpen later)
    (id : NodeId) (properties : List Property)
    (frame : Frame .node id
      {createdTxId := 1, data := .node (nodeRecord id properties), properties := properties} store later)
    (read : (getNode id later).1 = .ok (nodeRecord id properties,properties))
    (chain : (mvcc later).chain id = MvccHistory.written
      {createdTxId := 1, data := .node (nodeRecord id properties), properties := properties}
      ((mvcc store).chain id))
    (running : (mvcc store).txnManager.stateOf 1 = some .active ∨
      (mvcc store).txnManager.stateOf 1 = some .committed) : Copied later := by
  have pages (other : NodeId) (apart : other ≠ id) : onPage later other = onPage store other :=
    congrArg Except.toOption (frame.records .node other fun same => apart (congrArg Prod.snd same))
  have chains (other : NodeId) (apart : other ≠ id) :
      (mvcc later).chain other = (mvcc store).chain other :=
    (frame.chains other).resolve_right fun written => apart written.1
  have here := (onPage_some id _).mpr read
  refine ⟨sound,isOpen,fun other found page => ?_,fun other found page => ?_,fun other page => ?_,fun _ _ => ?_⟩
  · by_cases same : other = id
    · subst same
      obtain rfl := Option.some.inj (here.symm.trans page)
      rfl
    · exact copied.records other found (pages other same ▸ page)
  · by_cases same : other = id
    · subst same
      obtain rfl := Option.some.inj (here.symm.trans page)
      rw [chain]
      exact node_mirrored _ _ _ ⟨rfl,rfl,rfl⟩ rfl
    · rw [chains other same]
      exact copied.mirrored other found (pages other same ▸ page)
  · have apart : other ≠ id := by
      rintro rfl
      rw [here] at page
      cases page
    rw [chains other apart]
    exact copied.edges other (pages other apart ▸ page)
  · rw [frame.tables]
    exact running

/-- Edges have pages of their own. Only the deletion of an edge can hide a node under the same id. -/
theorem Copied.linked {later : Store} (copied : Copied store) (sound : Sound later) (isOpen : IsOpen later)
    (id : EdgeId) (version : Version) (frame : Frame .edge id version store later)
    (edge : asNode version.data = none) (issued : version.createdTxId ≠ 0)
    (live : version.deletedTxId = 0 ∨ onPage store id = none) : Copied later := by
  have pages (other : NodeId) : onPage later other = onPage store other :=
    congrArg Except.toOption (frame.records .node other fun same => nomatch same)
  refine ⟨sound,isOpen,fun other found page => ?_,fun other found page => ?_,fun other page v member => ?_,
    fun other page => ?_⟩
  · exact copied.records other found (pages other ▸ page)
  · have mirrored := copied.mirrored other found (pages other ▸ page)
    rcases frame.chains other with same | ⟨rfl,written⟩
    · rwa [same]
    · rw [written]
      have stays : version.deletedTxId = 0 := live.resolve_right fun none => by
        rw [pages,none] at page
        cases page
      exact edge_mirrored found version _ edge stays issued mirrored
  · have edges := copied.edges other (pages other ▸ page)
    rcases frame.chains other with same | ⟨rfl,written⟩
    · exact edges v (same ▸ member)
    · rw [written] at member
      rcases MvccHistory.written_mem version v _ member with rfl | old | ⟨old,inside,-,rfl⟩
      · exact edge
      · exact edges v old
      · exact edges old inside
  · rw [frame.tables]
    exact copied.writer other (pages other ▸ page)

/-- What an operation in a transaction has written once its work on the pages is done. -/
theorem written_version {α : Type} (before next : Store) (result : α) (refused : Option String) (op : String)
    (key : UInt64) (version : Version) (sound : Sound before) (kept : next.mvccManager = before.mvccManager) :
    (mvcc (versioned result refused op key version next).2).chain key =
        MvccHistory.written version ((mvcc before).chain key) ∧
      ∀ kind id, (GraphHistory.get kind id (versioned result refused op key version next).2).1 =
        (GraphHistory.get kind id next).1 := by
  obtain ⟨wal,wrote⟩ := versioned_spec result refused op key version next (mvcc before)
    (kept.trans sound.enabled) sound.versions.free
  obtain ⟨-,-,chains⟩ := MvccHistory.write_step (mvcc before) sound.versions.free key version
  rw [wrote]
  exact ⟨(chains key).trans (if_pos rfl),fun kind id => get_same kind id _ _ rfl (by cases kind <;> rfl)⟩

theorem createNode_copied (hash : Bytes → UInt64) (properties : List Property) (copied : Copied store)
    (sound : Sound (perform hash 1 store (.createNode properties)).2)
    (running : (mvcc store).txnManager.stateOf 1 = some .active ∨
      (mvcc store).txnManager.stateOf 1 = some .committed)
    (fits : FitsPage (serializeNode (nodeRecord store.nextNodeId properties) properties)) :
    Copied (perform hash 1 store (.createNode properties)).2 := by
  obtain ⟨frame,-⟩ := perform_frame hash 1 store (.createNode properties) copied.sound
  obtain ⟨next,created,-⟩ := createNode_opens properties copied.isOpen
  have touched := (createNode_touches properties store).1.versions
  have read := createNode_reads properties copied.isOpen fits
  rw [created] at touched read
  obtain ⟨chain,same⟩ := written_version store next store.nextNodeId (some "MVCC write failed") "create_node"
    store.nextNodeId {
      createdTxId := 1
      data := .node (nodeRecord store.nextNodeId properties)
      properties := properties} copied.sound touched
  have performed : (perform hash 1 store (.createNode properties)).2 =
      (versioned store.nextNodeId (some "MVCC write failed") "create_node" store.nextNodeId {
        createdTxId := 1
        data := .node (nodeRecord store.nextNodeId properties)
        properties := properties} next).2 := by
    simp only [perform,createNodeTx,created]
    rw [touched,copied.sound.enabled]
    rfl
  refine copied.wrote sound (perform_opens hash 1 _ copied.isOpen) store.nextNodeId properties frame ?_ ?_ running
  · rw [performed]
    exact (same .node _).trans read
  · rw [performed]
    exact chain

theorem updateNode_reads (id : NodeId) (properties : List Property) (isOpen : IsOpen store)
    (found : NodeRecord × List Property) (read : (getNode id store).1 = .ok found)
    (fits : FitsPage (serializeNode {found.1 with propertyCount := UInt32.ofNat properties.length} properties)) :
    (getNode id (updateNode id properties store).2).1 =
      .ok ({found.1 with propertyCount := UInt32.ofNat properties.length},properties) := by
  have whole : getNode id store = (.ok found,store) := Prod.ext read (getRecord_keeps ..)
  obtain ⟨pages,page,-,stored,reads⟩ := storeNodeRecord_reads id _ properties store isOpen fits
  unfold updateNode
  rw [whole]
  dsimp only
  rw [stored]
  exact reads

theorem updateNode_copied (hash : Bytes → UInt64) (id : NodeId) (properties : List Property)
    (copied : Copied store) (sound : Sound (perform hash 1 store (.updateNode id properties)).2)
    (found : NodeRecord × List Property) (read : (getNode id store).1 = .ok found)
    (running : (mvcc store).txnManager.stateOf 1 = some .active ∨
      (mvcc store).txnManager.stateOf 1 = some .committed)
    (fits : FitsPage (serializeNode (nodeRecord id properties) properties)) :
    Copied (perform hash 1 store (.updateNode id properties)).2 := by
  obtain ⟨frame,-⟩ := perform_frame hash 1 store (.updateNode id properties) copied.sound
  have record : {found.1 with propertyCount := UInt32.ofNat properties.length} = nodeRecord id properties := by
    rw [copied.records id found ((onPage_some id found).mpr read)]
    rfl
  have reads := updateNode_reads id properties copied.isOpen found read (record ▸ fits)
  rw [record] at reads
  obtain ⟨e,failed,-⟩ | ⟨-,next,updated,-,-⟩ := updateNode_opens id properties copied.isOpen
  · rw [read] at failed
    cases failed
  · have touched := (updateNode_touches id properties store).versions
    rw [updated] at touched reads
    obtain ⟨chain,same⟩ := written_version store next () (some "MVCC write failed") "update_node" id {
      createdTxId := 1
      data := .node (nodeRecord id properties)
      properties := properties} copied.sound touched
    have performed : (perform hash 1 store (.updateNode id properties)).2 =
        (versioned () (some "MVCC write failed") "update_node" id {
          createdTxId := 1
          data := .node (nodeRecord id properties)
          properties := properties} next).2 := by
      simp only [perform,perform.keyed,updateNodeTx,updated]
      rfl
    refine copied.wrote sound (perform_opens hash 1 _ copied.isOpen) id properties frame ?_ ?_ running
    · rw [performed]
      exact (same .node id).trans reads
    · rw [performed]
      exact chain

/-- What fails on the pages of a file leaves the store as it is. -/
theorem updateNode_refused (hash : Bytes → UInt64) (txId : Nat) (id : NodeId) (properties : List Property)
    (missing : onPage store id = none) : (perform hash txId store (.updateNode id properties)).2 = store := by
  obtain ⟨e,read⟩ := (onPage_none id).mp missing
  have whole : getNode id store = (.error e,store) := Prod.ext read (getRecord_keeps ..)
  simp only [perform,perform.keyed,updateNodeTx,updateNode,whole]

theorem deleteNode_refused (hash : Bytes → UInt64) (txId : Nat) (id : NodeId)
    (missing : onPage store id = none) : (perform hash txId store (.deleteNode id)).2 = store := by
  obtain ⟨e,read⟩ := (onPage_none id).mp missing
  have whole : getNode id store = (.error e,store) := Prod.ext read (getRecord_keeps ..)
  simp only [perform,perform.keyed,deleteNodeTx,whole]

theorem deleteEdge_refused (hash : Bytes → UInt64) (txId : Nat) (id : EdgeId) (e : Error)
    (read : (getEdge id store).1 = .error e) : (perform hash txId store (.deleteEdge id)).2 = store := by
  have whole : getEdge id store = (.error e,store) := Prod.ext read (getRecord_keeps ..)
  simp only [perform,perform.keyed,deleteEdgeTx,deleteEdge,whole]

theorem perform_copied (hash : Bytes → UInt64) (txId : Nat) (operation : Operation) (copied : Copied store)
    (issued : (mvcc store).txnManager.Issued txId) (sound : Sound (perform hash txId store operation).2)
    (harmless : Harmless store txId operation) : Copied (perform hash txId store operation).2 := by
  obtain ⟨frame,-⟩ := perform_frame hash txId store operation copied.sound
  have isOpen := perform_opens hash txId operation copied.isOpen
  have nonzero : txId ≠ 0 := Nat.ne_of_gt issued.1
  cases operation with
  | createNode properties =>
    obtain ⟨⟨rfl,unaborted⟩,fits⟩ := harmless
    exact createNode_copied hash properties copied sound (copied.running issued unaborted) fits
  | updateNode id properties =>
    cases page : onPage store id with
    | none =>
      rw [updateNode_refused hash txId id properties page]
      exact copied
    | some found =>
      obtain ⟨⟨rfl,unaborted⟩,fits⟩ := harmless (by simp [page])
      exact updateNode_copied hash id properties copied sound found ((onPage_some id found).mp page)
        (copied.running issued unaborted) fits
  | deleteNode id =>
    rw [deleteNode_refused hash txId id harmless]
    exact copied
  | createEdge clock fromNode toNode label properties =>
    exact copied.linked sound isOpen _ _ frame rfl nonzero (.inl rfl)
  | updateEdge id properties => exact copied.linked sound isOpen _ _ frame rfl nonzero (.inl rfl)
  | deleteEdge id =>
    cases read : (getEdge id store).1 with
    | error e =>
      rw [deleteEdge_refused hash txId id e read]
      exact copied
    | ok found => exact copied.linked sound isOpen _ _ frame rfl nonzero (.inr (harmless ⟨found,read⟩))

/-! Runs. -/

/-- The calls that a history of transactions consists of. -/
def Transactional : Call → Prop
  | .plain _ | .collect _ => False
  | _ => True

/-- Calls after which every node on a page still has its copy, and the copy is not one of an aborted
transaction. -/
def KeepsCopies (store : Store) : Call → Prop
  | .perform txId operation => Harmless store txId operation
  | .abort txId => txId = 1 → (mvcc store).txnManager.stateOf 1 = some .active → ∀ id, onPage store id = none
  | _ => True

theorem managed (call : MvccHistory.Call) (sound : Sound store) :
    mvcc (manage call store) = MvccHistory.step (mvcc store) call := by
  rw [mvcc,manage_versions call store sound.enabled]
  rfl

/-- A call on the version store that writes nothing. -/
theorem Copied.managed (call : MvccHistory.Call) (copied : Copied store) (sound : Sound (manage call store))
    (chains : ∀ key, (MvccHistory.step (mvcc store) call).chain key = (mvcc store).chain key)
    (writer : ∀ id, onPage store id ≠ none →
      (MvccHistory.step (mvcc store) call).txnManager.stateOf 1 = some .active ∨
        (MvccHistory.step (mvcc store) call).txnManager.stateOf 1 = some .committed) :
    Copied (manage call store) := by
  have pages (id : NodeId) : onPage (manage call store) id = onPage store id :=
    congrArg Except.toOption (manage_reads call .node id store)
  have versions := CopiedNodes.managed call copied.sound
  refine ⟨sound,copied.isOpen,fun id found page => ?_,fun id found page => ?_,fun id page => ?_,fun id page => ?_⟩
  · exact copied.records id found (pages id ▸ page)
  · rw [versions,chains]
    exact copied.mirrored id found (pages id ▸ page)
  · rw [versions,chains]
    exact copied.edges id (pages id ▸ page)
  · rw [versions]
    exact writer id (pages id ▸ page)

theorem step_copied (hash : Bytes → UInt64) (call : Call) (transactional : Transactional call)
    (legal : Legal store call) (keeps : KeepsCopies store call) (copied : Copied store) :
    Copied (step hash store call) := by
  have sound := step_sound hash store call legal copied.sound
  cases call with
  | begin =>
    refine copied.managed .begin sound (fun _ => rfl) fun id page => ?_
    have running := copied.writer id page
    rw [MvccHistory.step,SkippedId.begin_state]
    split
    · exact .inl rfl
    · exact running
  | commit txId =>
    refine copied.managed (.commit txId) sound (fun _ => rfl) fun id page => ?_
    have running := copied.writer id page
    rw [MvccHistory.step,SkippedId.commit_state]
    split
    · exact .inr rfl
    · exact running
  | abort txId =>
    refine copied.managed (.abort txId) sound (fun _ => rfl) fun id page => ?_
    have running := copied.writer id page
    rw [MvccHistory.step,SkippedId.abort_state]
    split
    · rename_i aborts
      obtain ⟨rfl,active⟩ := aborts
      exact absurd (keeps rfl active id) page
    · exact running
  | collect least => exact transactional.elim
  | perform txId operation => exact perform_copied hash txId operation copied legal sound keeps
  | plain operation => exact transactional.elim
  | get kind id =>
    rw [step,SkippedTransaction.get_keeps]
    exact copied
  | getTx kind txId id =>
    rcases (getTx_spec kind txId id store copied.sound.enabled).2 with same | same
    · rw [step,same]
      exact copied
    · rw [step,same,SkippedTransaction.get_keeps]
      exact copied

/-- No transaction is active. -/
def Idle (store : Store) : Prop := ∀ t, (mvcc store).txnManager.stateOf t ≠ some .active

/-- The writer of the nodes had finished when the reader began, or the reader is the writer itself and has
not written yet. -/
def Begun (reader : Nat) (store : Store) : Prop :=
  (reader = 1 ∧ ∀ id, onPage store id = none) ∨
    1 < reader ∧ ∃ txn, (mvcc store).txnManager.transactions 1 = some txn ∧ txn.state ≠ .active

theorem begin_begun (copied : Copied store) (idle : Idle store) :
    Begun (mvcc store).txnManager.nextTransactionId (manage .begin store) := by
  have wellformed := copied.sound.versions.wellformed
  rcases Nat.lt_or_eq_of_le (Nat.succ_le_of_lt wellformed.positive) with later | first
  · obtain ⟨txn,found⟩ := Option.isSome_iff_exists.mp ((wellformed.issued 1).mpr ⟨Nat.one_pos,later⟩)
    have finished : txn.state ≠ .active := fun active => idle 1 (by rw [stateOf,found,Option.map_some,active])
    obtain ⟨same,moved,-,kept⟩ := begin_continues wellformed 1 txn found
    refine .inr ⟨later,txn,?_,finished⟩
    rw [managed .begin copied.sound,MvccHistory.step,moved,kept finished]
  · refine .inl ⟨first.symm,fun id => ?_⟩
    rw [onPage,show (getNode id (manage .begin store)).1 = (getNode id store).1 from
      manage_reads .begin .node id store]
    by_contra page
    have known : ((mvcc store).txnManager.transactions 1).isSome = true := by
      rcases copied.writer id page with state | state <;>
        exact Option.isSome_of_mem (Option.map_eq_some_iff.mp state).choose_spec.1
    exact Nat.lt_irrefl _ (first ▸ ((wellformed.issued 1).mp known).2)

theorem perform_pages (hash : Bytes → UInt64) (txId : Nat) (operation : Operation) (sound : Sound store)
    (other : txId ≠ 1) (harmless : Harmless store txId operation) (id : NodeId) :
    onPage (perform hash txId store operation).2 id = onPage store id := by
  obtain ⟨frame,-⟩ := perform_frame hash txId store operation sound
  have edges (edge : operation.kind = .edge) :
      onPage (perform hash txId store operation).2 id = onPage store id :=
    congrArg Except.toOption (frame.records .node id fun same => nomatch edge ▸ congrArg Prod.fst same)
  cases operation with
  | createNode properties => exact absurd harmless.1.1 other
  | updateNode key properties =>
    by_cases missing : onPage store key = none
    · rw [updateNode_refused hash txId key properties missing]
    · exact absurd (harmless missing).1.1 other
  | deleteNode key => rw [deleteNode_refused hash txId key harmless]
  | createEdge clock fromNode toNode label properties => exact edges rfl
  | updateEdge key properties => exact edges rfl
  | deleteEdge key => exact edges rfl

theorem step_begun (hash : Bytes → UInt64) (reader : Nat) (call : Call) (transactional : Transactional call)
    (legal : Legal store call) (keeps : KeepsCopies store call) (sound : Sound store)
    (reads : ∀ operation, call ≠ .perform reader operation) (begun : Begun reader store) :
    Begun reader (step hash store call) := by
  rcases begun with ⟨rfl,pages⟩ | ⟨later,txn,found,finished⟩
  · refine .inl ⟨rfl,fun id => ?_⟩
    rw [← pages id]
    cases call with
    | begin => exact congrArg Except.toOption (manage_reads .begin .node id store)
    | commit txId => exact congrArg Except.toOption (manage_reads (.commit txId) .node id store)
    | abort txId => exact congrArg Except.toOption (manage_reads (.abort txId) .node id store)
    | collect least => exact transactional.elim
    | perform txId operation =>
      refine perform_pages hash txId operation sound ?_ keeps id
      rintro rfl
      exact reads operation rfl
    | plain operation => exact transactional.elim
    | get kind key => rw [step,SkippedTransaction.get_keeps]
    | getTx kind txId key =>
      rcases (getTx_spec kind txId key store sound.enabled).2 with same | same
      · rw [step,same]
      · rw [step,same,SkippedTransaction.get_keeps]
  · refine .inr ⟨later,txn,?_,finished⟩
    rcases step_versions hash store call legal sound with same | ⟨managed,-,moved⟩
    · rw [mvcc,same]
      exact found
    · obtain ⟨same,kept,-,stays⟩ := MvccHistory.step_continues (mvcc store) managed sound.versions 1 txn found
      rw [mvcc,moved,Option.getD_some,kept,stays finished]

theorem begun_committed (reader : Nat) (id : NodeId) (copied : Copied store) (begun : Begun reader store)
    (page : onPage store id ≠ none) :
    1 < reader ∧ (mvcc store).txnManager.stateOf 1 = some .committed := by
  rcases begun with ⟨-,pages⟩ | ⟨later,txn,found,finished⟩
  · exact absurd (pages id) page
  · refine ⟨later,(copied.writer id page).resolve_left fun active => finished ?_⟩
    rw [stateOf,found] at active
    exact Option.some.inj active

theorem opened_copied (file : Bytes) (wal : Option WALManager) :
    Copied (opened (FilePageStore.openFile file) wal) where
  sound := opened_sound _ wal
  isOpen := rfl
  records _ _ page := nomatch page
  mirrored _ _ page := nomatch page
  edges _ _ _ member := absurd member List.not_mem_nil
  writer _ page := absurd rfl page

/-! Reads. -/

/-- The writers whose versions a reader sees, unless another of them has overwritten these. -/
def accepted (manager : TransactionManager) (reader t : Nat) : Bool :=
  t == reader || (decide (t < reader) && manager.isTransactionCommitted t)

theorem accepted_iff (manager : TransactionManager) (reader t : Nat) :
    accepted manager reader t = true ↔ t = reader ∨ t < reader ∧ manager.isTransactionCommitted t = true := by
  simp [accepted]

theorem accepted_seen (manager : TransactionManager) (reader : Nat) (v : Version)
    (accepts : accepted manager reader v.createdTxId = true)
    (kept : ∀ t ∈ overwriter v, accepted manager reader t = false) :
    isVersionVisible manager reader v = true := by
  rw [visible_iff]
  rw [accepted_iff] at accepts
  have stays : v.deletedTxId = 0 ∨ v.deletedTxId ≠ reader ∧
      ¬(manager.isTransactionCommitted v.deletedTxId = true ∧ v.deletedTxId < reader) := by
    by_cases live : v.deletedTxId = 0
    · exact .inl live
    · have refuses := kept v.deletedTxId (if_neg live)
      rw [← Bool.not_eq_true,accepted_iff,not_or] at refuses
      exact .inr ⟨refuses.1,fun takes => refuses.2 takes.symm⟩
  rcases accepts with own | ⟨before,committed⟩
  · exact .inl ⟨own,stays.imp_right And.left⟩
  · exact .inr ⟨before,committed,stays⟩

theorem refused_unseen (manager : TransactionManager) (reader : Nat) (v : Version)
    (refuses : accepted manager reader v.createdTxId = false) : isVersionVisible manager reader v = false := by
  rw [← Bool.not_eq_true,accepted_iff,not_or] at refuses
  rw [← Bool.not_eq_true,visible_iff]
  rintro (⟨own,-⟩ | ⟨before,committed,-⟩)
  · exact refuses.1 own
  · exact refuses.2 ⟨before,committed⟩

/-- The reader of the first transaction sees what that one wrote last. Any later reader sees it as soon as it
is committed. -/
theorem reads_page (reader : Nat) (id : NodeId) (copied : Copied store)
    (accepts : onPage store id ≠ none → reader = 1 ∨
      1 < reader ∧ (mvcc store).txnManager.isTransactionCommitted 1 = true) :
    (getNodeTx reader id store).1.toOption = onPage store id := by
  have told := (getTx_spec .node reader id store copied.sound.enabled).1
  have transactional : (getNodeTx reader id store).1 = (getTx .node reader id store).1 := rfl
  rw [transactional,told]
  cases page : onPage store id with
  | none =>
    cases seen : newest (isVersionVisible (mvcc store).txnManager reader) ((mvcc store).chain id) with
    | none => rfl
    | some v =>
      have edge := copied.edges id page v (newest_mem _ _ v seen).1
      simp only [GraphHistory.told,Kind.pick,edge]
      exact page
  | some found =>
    obtain ⟨older,copy,newer,split,copies,edges,linked⟩ := copied.mirrored id found page
    have taken : accepted (mvcc store).txnManager reader copy.createdTxId = true := by
      rw [copies.writer,accepted_iff]
      exact (accepts (by simp [page])).imp_left Eq.symm
    obtain ⟨v,member,seen⟩ := Linked.newest (isVersionVisible (mvcc store).txnManager reader)
      (accepted (mvcc store).txnManager reader) _ linked
      (fun v _ => accepted_seen (mvcc store).txnManager reader v)
      (fun v _ => refused_unseen (mvcc store).txnManager reader v) ⟨copy,List.mem_cons_self,taken⟩
    rw [split,newest_append,seen,Option.some_or]
    rcases List.mem_cons.mp member with rfl | later
    · simp only [GraphHistory.told,Kind.pick,copies.record,asNode,copies.properties]
      rfl
    · simp only [GraphHistory.told,Kind.pick,edges v later]
      exact page

end LoreDB.Storage.CopiedNodes
