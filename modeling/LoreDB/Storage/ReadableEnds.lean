import LoreDB.Library.References
import LoreDB.Storage.SerialStores

/-! Edges and the nodes at their ends, as transactions read them one after the other. A deletion in a transaction
writes a tombstone whatever edges there are. A node and an edge with the same number share their versions, so
whoever writes one of them also decides how the other is read. -/
namespace LoreDB.Storage.ReadableEnds
open LoreDB.Transaction LoreDB.Library LoreDB.Library.History GraphStore GraphHistory OpenStores SerialStores
open SerialHistory (current)

variable (txId : Nat) (store : Store)

def Listed (id : EdgeId) : Prop := ∃ node, id ∈ store.getOutgoingEdges node ∨ id ∈ store.getIncomingEdges node

/-- The listed edges that a transaction reads, with the ends that it is told, and the nodes that it reads. -/
def reading : References UInt64 where
  links id ends := Listed store id ∧ ∃ edge properties, (getEdgeTx txId id store).1 = .ok (edge,properties) ∧
    ends = (edge.fromNode,edge.toNode)
  entries id := NodeRead txId id store

/-- Every listed edge that a transaction reads lies between nodes that it reads. -/
def EndsRead : Prop :=
  ∀ id edge properties, Listed store id → (getEdgeTx txId id store).1 = .ok (edge,properties) →
    NodeRead txId edge.fromNode store ∧ NodeRead txId edge.toNode store

/-- Between the ends of the edge on the page are nodes that the transaction reads, or the node with its number. -/
def PageJoins (id : UInt64) : Prop :=
  Listed store id → ∀ edge properties, (getEdge id store).1 = .ok (edge,properties) →
    (edge.fromNode = id ∨ NodeRead txId edge.fromNode store) ∧
      (edge.toNode = id ∨ NodeRead txId edge.toNode store)

/-- A deletion meets no other edge that ends at its number. A new or an updated edge sends the readers of the node
with its number to the page, and an updated one leads between nodes 0. A new or an updated node sends the readers of
the edge with its number to the page. -/
def Spares : Operation → Prop
  | .createNode _ => PageJoins txId store store.nextNodeId
  | .updateNode id _ => OnPage .node id store → PageJoins txId store id
  | .deleteNode id => OnPage .node id store → ¬(reading txId store).Attached id
  | .deleteEdge id => OnPage .edge id store → ¬(reading txId store).Attached id
  | .createEdge _ fromNode toNode _ _ =>
    (reading txId store).Attached store.nextEdgeId ∨ fromNode = store.nextEdgeId ∨ toNode = store.nextEdgeId →
      OnPage .node store.nextEdgeId store
  | .updateEdge id _ => OnPage .edge id store → ((reading txId store).Attached id → OnPage .node id store) ∧
    (Listed store id → if id = 0 then OnPage .node 0 store else NodeRead txId 0 store)

def SparesEnds (store : Store) : Call → Prop
  | .perform txId operation => Spares txId store operation
  | _ => True

variable {txId store} (hash : Bytes → UInt64)

theorem endsRead_intact : EndsRead txId store ↔ (reading txId store).Intact := by
  constructor
  · rintro reads id ends ⟨listed,edge,properties,read,rfl⟩
    exact reads id edge properties listed read
  · intro intact id edge properties listed read
    exact intact id _ ⟨listed,edge,properties,read,rfl⟩

theorem listed_same {later : Store} (outgoing : later.outgoingEdges = store.outgoingEdges)
    (incoming : later.incomingEdges = store.incomingEdges) (id : EdgeId) : Listed later id ↔ Listed store id := by
  unfold Listed getOutgoingEdges getIncomingEdges
  rw [outgoing,incoming]

/-- Everything under another number is read as before. -/
theorem reading_apart (operation : Operation) (serial : Serial store (.perform txId operation))
    (settled : Settled store) (proceeds : Proceeds store operation) (id : UInt64)
    (apart : id ≠ operation.key store) :
    (∀ ends, (reading txId (perform hash txId store operation).2).links id ends ↔
        (reading txId store).links id ends) ∧
      ((reading txId (perform hash txId store operation).2).entries id ↔ (reading txId store).entries id) := by
  obtain ⟨-,-,same⟩ := perform_reads hash txId operation serial settled proceeds
  have frame := (perform_frame hash txId store operation settled.sound).1
  have other : (Kind.edge,id) ≠ (operation.kind,operation.key store) :=
    fun absurd => apart (congrArg Prod.snd absurd)
  have listed : Listed (perform hash txId store operation).2 id ↔ Listed store id :=
    exists_congr fun node => or_congr (frame.outgoing node id other) (frame.incoming node id other)
  have edges := same .edge id apart
  have nodes := same .node id apart
  constructor
  · intro ends
    simp only [reading,listed]
    rw [show (getEdgeTx txId id (perform hash txId store operation).2).1 = _ from edges]
    rfl
  · simp only [reading,NodeRead]
    rw [show (getNodeTx txId id (perform hash txId store operation).2).1 = _ from nodes]
    rfl

/-! What is read under the number of an operation. -/

section Here

variable (operation : Operation) (serial : Serial store (.perform txId operation)) (settled : Settled store)
  (proceeds : Proceeds store operation)
include serial settled proceeds

theorem node_written (version : Version) (record : NodeRecord) (node : operation.kind = .node)
    (wrote : lastWritten (operation.version hash txId store) = some version) (data : version.data = .node record) :
    (reading txId (perform hash txId store operation).2).entries (operation.key store) ∧
      ∀ ends, (reading txId (perform hash txId store operation).2).links (operation.key store) ends ↔
        Listed store (operation.key store) ∧ ∃ edge properties,
          (getEdge (operation.key store) store).1 = .ok (edge,properties) ∧ ends = (edge.fromNode,edge.toNode) := by
  obtain ⟨-,here,-⟩ := perform_reads hash txId operation serial settled proceeds
  have frame := (perform_frame hash txId store operation settled.sound).1
  have other : (Kind.edge,operation.key store) ≠ (operation.kind,operation.key store) := by
    rw [node]
    exact fun absurd => nomatch absurd
  have nodes := here .node
  have edges := here .edge
  rw [wrote,told,data] at nodes edges
  have page : (getEdge (operation.key store) (perform hash txId store operation).2).1 =
      (getEdge (operation.key store) store).1 := frame.records .edge _ other
  refine ⟨⟨_,nodes⟩,fun ends => and_congr ?_ ?_⟩
  · exact exists_congr fun tip => or_congr (frame.outgoing tip _ other) (frame.incoming tip _ other)
  · rw [show (getEdgeTx txId (operation.key store) (perform hash txId store operation).2).1 = _ from
      edges.trans page]

theorem edge_written (version : Version) (record : EdgeRecord) (edge : operation.kind = .edge)
    (wrote : lastWritten (operation.version hash txId store) = some version) (data : version.data = .edge record) :
    ((reading txId (perform hash txId store operation).2).entries (operation.key store) ↔
        OnPage .node (operation.key store) store) ∧
      ∀ ends, (reading txId (perform hash txId store operation).2).links (operation.key store) ends ↔
        Listed (perform hash txId store operation).2 (operation.key store) ∧
          ends = (record.fromNode,record.toNode) := by
  obtain ⟨-,here,-⟩ := perform_reads hash txId operation serial settled proceeds
  have frame := (perform_frame hash txId store operation settled.sound).1
  have other : (Kind.node,operation.key store) ≠ (operation.kind,operation.key store) := by
    rw [edge]
    exact fun absurd => nomatch absurd
  have nodes := here .node
  have edges := here .edge
  rw [wrote,told,data] at nodes edges
  have page := nodes.trans (frame.records .node _ other)
  refine ⟨?_,fun ends => and_congr Iff.rfl ?_⟩
  · simp only [reading,NodeRead,OnPage]
    rw [show (getNodeTx txId (operation.key store) (perform hash txId store operation).2).1 = _ from page]
    exact Iff.rfl
  · rw [show (getEdgeTx txId (operation.key store) (perform hash txId store operation).2).1 = _ from edges]
    constructor
    · rintro ⟨_,_,same,rfl⟩
      cases same
      rfl
    · rintro rfl
      exact ⟨record,_,rfl,rfl⟩

theorem removed (wrote : lastWritten (operation.version hash txId store) = none) :
    ¬(reading txId (perform hash txId store operation).2).entries (operation.key store) ∧
      ∀ ends, ¬(reading txId (perform hash txId store operation).2).links (operation.key store) ends := by
  obtain ⟨-,here,-⟩ := perform_reads hash txId operation serial settled proceeds
  have nodes := here .node
  have edges := here .edge
  rw [wrote,told] at nodes edges
  constructor
  · rintro ⟨found,read⟩
    cases nodes.symm.trans read
  · rintro ends ⟨-,edge,properties,read,-⟩
    cases edges.symm.trans read

end Here

theorem createEdge_incoming (txId : Nat) (clock : UInt64) (fromNode toNode : NodeId) (label : Bytes)
    (properties : List Property) (isOpen : IsOpen store) : store.nextEdgeId ∈
      (perform hash txId store (.createEdge clock fromNode toNode label properties)).2.getIncomingEdges toNode := by
  have counted : IsOpen {store with nextEdgeId := store.nextEdgeId + 1} := isOpen
  obtain ⟨next,stored,-⟩ := storeEdgeRecord_opens store.nextEdgeId {
    id := store.nextEdgeId
    fromNode := fromNode
    toNode := toNode
    labelId := (hash label).toUInt32
    propertyCount := UInt32.ofNat properties.length
    timestamp := clock} properties counted
  obtain ⟨_,_,same⟩ := createEdgeTx_keeps hash clock txId fromNode toNode label properties store
  rw [perform,same]
  simp [createEdge,stored,updateAdjacencyLists,getIncomingEdges]

theorem updateEdge_listed (txId : Nat) (id : EdgeId) (properties : List Property) (other : EdgeId) :
    Listed (perform hash txId store (.updateEdge id properties)).2 other ↔ Listed store other := by
  have kept : (perform hash txId store (.updateEdge id properties)).2.outgoingEdges = store.outgoingEdges ∧
      (perform hash txId store (.updateEdge id properties)).2.incomingEdges = store.incomingEdges := by
    obtain same | ⟨-,same⟩ := Outlines.perform_outline hash txId store (.updateEdge id properties)
    · exact ⟨congrArg Outlines.Outline.outgoingEdges same,congrArg Outlines.Outline.incomingEdges same⟩
    · obtain still | ⟨-,page,still⟩ := Outlines.updateEdge_outline id properties store
      · have whole := same.trans still
        exact ⟨congrArg Outlines.Outline.outgoingEdges whole,congrArg Outlines.Outline.incomingEdges whole⟩
      · have whole := same.trans still
        exact ⟨congrArg Outlines.Outline.outgoingEdges whole,congrArg Outlines.Outline.incomingEdges whole⟩
  exact listed_same kept.1 kept.2 other

theorem spares_missing (operation : Operation) (missing : ¬Proceeds store operation) :
    Spares txId store operation := by
  cases operation with
  | createNode properties => exact absurd trivial missing
  | createEdge clock fromNode toNode label properties => exact absurd trivial missing
  | updateNode id properties => exact fun found => absurd found missing
  | deleteNode id => exact fun found => absurd found missing
  | updateEdge id properties => exact fun found => absurd found missing
  | deleteEdge id => exact fun found => absurd found missing

section Parts

variable {later : References UInt64} {id : UInt64}

theorem gone_joins (attached placed : Prop) (proceeds : placed) (gone : ¬later.entries id)
    (unlinked : ∀ ends, ¬later.links id ends) : (attached → later.entries id) ∧
      (∀ ends, later.links id ends → later.entries ends.1 ∧ later.entries ends.2) ↔ (placed → ¬attached) := by
  constructor
  · exact fun both _ here => gone (both.1 here)
  · intro free
    exact ⟨fun here => absurd here (free proceeds),fun ends linked => absurd linked (unlinked ends)⟩

variable (others : ∀ other, other ≠ id → (later.entries other ↔ NodeRead txId other store))
include others

theorem node_joins (found : later.entries id) (links : ∀ ends, later.links id ends ↔ Listed store id ∧
      ∃ edge properties, (getEdge id store).1 = .ok (edge,properties) ∧ ends = (edge.fromNode,edge.toNode)) :
    (∀ ends, later.links id ends → later.entries ends.1 ∧ later.entries ends.2) ↔ PageJoins txId store id := by
  have finds (other : NodeId) : later.entries other ↔ other = id ∨ NodeRead txId other store := by
    by_cases here : other = id
    · exact iff_of_true (here ▸ found) (.inl here)
    · exact (others other here).trans (or_iff_right here).symm
  constructor
  · intro joins listed edge properties read
    have both := joins _ ((links _).mpr ⟨listed,edge,properties,read,rfl⟩)
    exact ⟨(finds _).mp both.1,(finds _).mp both.2⟩
  · intro joins ends linked
    obtain ⟨listed,edge,properties,read,rfl⟩ := (links ends).mp linked
    have both := joins listed edge properties read
    exact ⟨(finds _).mpr both.1,(finds _).mpr both.2⟩

theorem edge_joins (fromNode toNode : NodeId) (reads : NodeRead txId fromNode store ∧ NodeRead txId toNode store) :
    later.entries fromNode ∧ later.entries toNode ↔ (fromNode = id ∨ toNode = id → later.entries id) := by
  constructor
  · rintro both (same | same)
    · exact same ▸ both.1
    · exact same ▸ both.2
  · intro needed
    constructor
    · by_cases here : fromNode = id
      · rw [here]
        exact needed (.inl here)
      · exact (others _ here).mpr reads.1
    · by_cases here : toNode = id
      · rw [here]
        exact needed (.inr here)
      · exact (others _ here).mpr reads.2

theorem zero_joins (page : later.entries id ↔ OnPage .node id store) :
    later.entries 0 ↔ if id = 0 then OnPage .node 0 store else NodeRead txId 0 store := by
  split
  · rename_i here
    rw [here] at page
    exact page
  · rename_i apart
    exact others 0 (Ne.symm apart)

end Parts

theorem running_positive {operation : Operation} (serial : Serial store (.perform txId operation))
    (settled : Settled store) : txId ≠ 0 :=
  Nat.ne_of_gt (step_legal (.perform txId operation) serial settled.sound).1

/-- While one transaction runs after the other, an operation keeps the ends of edges readable exactly when it
spares them. -/
theorem perform_intact (operation : Operation) (serial : Serial store (.perform txId operation))
    (settled : Settled store) (intact : (reading txId store).Intact) :
    (reading txId (perform hash txId store operation).2).Intact ↔ Spares txId store operation := by
  by_cases proceeds : Proceeds store operation
  swap
  · obtain ⟨e,failed⟩ := perform_stays hash txId operation settled.sound.enabled proceeds
    rw [failed]
    exact iff_of_true intact (spares_missing operation proceeds)
  have apart := reading_apart hash operation serial settled proceeds
  rw [References.intact_changed (operation.key store) intact (fun id ends other => (apart id other).1 ends)
    fun id other => (apart id other).2]
  have others (id : NodeId) (other : id ≠ operation.key store) :
      (reading txId (perform hash txId store operation).2).entries id ↔ NodeRead txId id store := (apart id other).2
  cases operation with
  | createNode properties =>
    obtain ⟨found,links⟩ := node_written hash _ serial settled proceeds _ _ rfl rfl rfl
    exact (and_iff_right fun _ => found).trans (node_joins others found links)
  | updateNode id properties =>
    obtain ⟨found,links⟩ := node_written hash _ serial settled proceeds _ _ rfl rfl rfl
    refine ((and_iff_right fun _ => found).trans (node_joins others found links)).trans ?_
    exact ⟨fun joins _ => joins,fun joins => joins proceeds⟩
  | deleteNode id =>
    obtain ⟨gone,unlinked⟩ := removed hash _ serial settled proceeds (if_neg (running_positive serial settled))
    exact gone_joins _ _ proceeds gone unlinked
  | createEdge clock fromNode toNode label properties =>
    obtain ⟨page,links⟩ := edge_written hash _ serial settled proceeds _ _ rfl rfl rfl
    have listed := createEdge_incoming hash txId clock fromNode toNode label properties settled.isOpen
    have joins := edge_joins others fromNode toNode serial.2.2
    constructor
    · rintro ⟨reached,own⟩ (attached | here)
      · exact page.mp (reached attached)
      · exact page.mp (joins.mp (own _ ((links _).mpr ⟨⟨toNode,.inr listed⟩,rfl⟩)) here)
    · intro needed
      refine ⟨fun attached => page.mpr (needed (.inl attached)),fun ends linked => ?_⟩
      obtain ⟨-,rfl⟩ := (links ends).mp linked
      exact joins.mpr fun here => page.mpr (needed (.inr here))
  | updateEdge id properties =>
    obtain ⟨page,links⟩ := edge_written hash _ serial settled proceeds _ _ rfl rfl rfl
    have listed : Listed _ id ↔ Listed store id := updateEdge_listed hash txId id properties id
    have joins := zero_joins others page
    constructor
    · rintro ⟨reached,own⟩ -
      exact ⟨fun attached => page.mp (reached attached),
        fun here => joins.mp (own _ ((links _).mpr ⟨listed.mpr here,rfl⟩)).1⟩
    · intro needed
      obtain ⟨reached,own⟩ := needed proceeds
      refine ⟨fun attached => page.mpr (reached attached),fun ends linked => ?_⟩
      obtain ⟨here,rfl⟩ := (links ends).mp linked
      have found := joins.mpr (own (listed.mp here))
      exact ⟨found,found⟩
  | deleteEdge id =>
    obtain ⟨gone,unlinked⟩ := removed hash _ serial settled proceeds (if_neg (running_positive serial settled))
    exact gone_joins _ _ proceeds gone unlinked

/-! Runs. -/

abbrev RunningReads (store : Store) : Prop := (reading (current (mvcc store).txnManager) store).Intact

theorem step_intact (call : Call) (serial : Serial store call) (settled : Settled store)
    (intact : RunningReads store) : RunningReads (step hash store call) ↔ SparesEnds store call := by
  have others (other : ∀ txId operation, call ≠ .perform txId operation) :
      RunningReads (step hash store call) := by
    obtain ⟨reads,outgoing,incoming⟩ := step_reads hash call serial settled other
    have same : ∀ id, Listed (step hash store call) id ↔ Listed store id := listed_same outgoing incoming
    refine (References.intact_congr (fun id ends => ?_) fun id => ?_).mpr intact
    · exact and_congr (same id) (exists_congr fun edge => exists_congr fun properties =>
        and_congr_left fun _ => iff_of_eq (congrArg (· = _) (reads .edge id)))
    · exact exists_congr fun found => iff_of_eq (congrArg (· = _) (reads .node id))
  cases call with
  | perform txId operation =>
    have running := serial.1
    have tables := (perform_frame hash txId store operation settled.sound).1.tables
    have still : current (mvcc (perform hash txId store operation).2).txnManager = txId := by rw [tables,← running]
    have exact := perform_intact hash operation serial settled (running ▸ intact)
    rw [RunningReads,step,still]
    exact exact
  | begin => exact iff_of_true (others (by simp)) trivial
  | commit txId => exact iff_of_true (others (by simp)) trivial
  | abort txId => exact serial.elim
  | collect minActiveTxId => exact iff_of_true (others (by simp)) trivial
  | plain operation => exact serial.elim
  | get kind id => exact iff_of_true (others (by simp)) trivial
  | getTx kind txId id => exact iff_of_true (others (by simp)) trivial

/-- Whoever runs. -/
def AllRead (store : Store) : Prop :=
  ∀ reader, (mvcc store).txnManager.activeTransactions reader = true → EndsRead reader store

theorem running_all (settled : Settled store) (intact : RunningReads store) : AllRead store := by
  obtain ⟨-,-,contents,follows⟩ := settled
  intro reader active
  rw [follows.idle reader active]
  exact endsRead_intact.mpr intact

theorem all_spares (calls : List Call) (serial : Guarded (step hash) Serial store calls) (settled : Settled store)
    (intact : RunningReads store) (reads : Always (step hash) AllRead store calls) :
    Guarded (step hash) SparesEnds store calls := by
  induction calls generalizing store with
  | nil => trivial
  | cons call rest ih =>
    have later := step_settled hash call serial.1 settled
    have next := step_intact hash call serial.1 settled intact
    have spares : SparesEnds store call := by
      cases call with
      | perform txId operation =>
        have tables := (perform_frame hash txId store operation settled.sound).1.tables
        have active : (mvcc (perform hash txId store operation).2).txnManager.activeTransactions txId = true :=
          tables ▸ serial.1.2.1
        have found := always_start AllRead _ rest reads.2 txId active
        exact (perform_intact hash operation serial.1 settled (serial.1.1 ▸ intact)).mp (endsRead_intact.mp found)
      | begin | commit _ | collect _ | get _ _ | getTx _ _ _ => trivial
      | abort txId => exact serial.1.elim
      | plain operation => exact serial.1.elim
    exact ⟨spares,ih serial.2 later (next.mpr spares) reads.2⟩

theorem opened_reads (file : Bytes) (wal : Option WALManager) :
    RunningReads (opened (FilePageStore.openFile file) wal) := by
  rintro id ends ⟨⟨node,absurd | absurd⟩,-⟩
  · cases absurd
  · cases absurd

/-- In a serial history every transaction reads the nodes at the ends of the listed edges that it reads, exactly
as long as each operation spares these ends. -/
theorem ends_stay_readable (file : Bytes) (wal : Option WALManager) (calls : List Call)
    (serial : Guarded (step hash) Serial (opened (FilePageStore.openFile file) wal) calls) :
    Always (step hash) AllRead (opened (FilePageStore.openFile file) wal) calls ↔
      Guarded (step hash) SparesEnds (opened (FilePageStore.openFile file) wal) calls := by
  have settled := opened_settled file wal
  have reads := opened_reads file wal
  constructor
  · exact all_spares hash calls serial settled reads
  · intro spares
    refine always_follows (fun store => Settled store ∧ RunningReads store) (fun store call allowed held => ?_)
      (fun store held => running_all held.1 held.2) _ calls ((guarded_both _ calls).mpr ⟨serial,spares⟩) ⟨settled,reads⟩
    exact ⟨step_settled hash call allowed.1 held.1,(step_intact hash call allowed.1 held.1 held.2).mpr allowed.2⟩

/-! An edge between two nodes, and the deletion of one of them by the next transaction. -/

section Severed

/-- A store with the given transactions, of which one runs. -/
structure Runs (txId : Nat) (transactions : TransactionManager) (store : Store) : Prop where
  settled : Settled store
  tables : (mvcc store).txnManager = transactions
  running : txId = current transactions
  active : transactions.activeTransactions txId = true

variable {transactions : TransactionManager}

theorem Runs.serial (runs : Runs txId transactions store) (operation : Operation)
    (joins : JoinsRead txId store operation) : Serial store (.perform txId operation) := by
  obtain ⟨-,rfl,running,active⟩ := runs
  exact ⟨running,active,joins⟩

theorem Runs.performed (runs : Runs txId transactions store) (operation : Operation)
    (joins : JoinsRead txId store operation) : Runs txId transactions (step hash store (.perform txId operation)) :=
  ⟨step_settled hash _ (runs.serial operation joins) runs.settled,
    (perform_frame hash txId store operation runs.settled.sound).1.tables.trans runs.tables,
    runs.running,runs.active⟩

theorem Runs.commits (runs : Runs txId transactions store) : Serial store (.commit txId) := by
  obtain ⟨-,rfl,running,active⟩ := runs
  exact ⟨running,active⟩

theorem createNode_next (txId : Nat) (properties : List Property) (store : Store) :
    (perform hash txId store (.createNode properties)).2.nextNodeId = store.nextNodeId + 1 ∧
      (perform hash txId store (.createNode properties)).2.nextEdgeId = store.nextEdgeId := by
  obtain ⟨_,_,same⟩ := createNodeTx_keeps txId properties store
  rw [perform,same]
  obtain kept | ⟨-,page,kept⟩ := Outlines.createNode_outline properties store
  · exact ⟨congrArg Outlines.Outline.nextNodeId kept,congrArg Outlines.Outline.nextEdgeId kept⟩
  · exact ⟨congrArg Outlines.Outline.nextNodeId kept,congrArg Outlines.Outline.nextEdgeId kept⟩

theorem empty_fits (node : NodeRecord) : FitsPage (RecordSerializer.serializeNode node []) := by
  rw [FitsPage,RecordSerializer.serializeNode,List.length_append,RecordSerializer.nodeBytes_length]
  decide

theorem created_onPage (isOpen : IsOpen store) :
    OnPage .node store.nextNodeId (perform hash txId store (.createNode [])).2 := by
  have created := createNode_reads [] isOpen (empty_fits _)
  obtain ⟨_,_,same⟩ := createNodeTx_keeps txId [] store
  refine ⟨_,Eq.trans ?_ created⟩
  rw [perform,same]
  exact get_same .node store.nextNodeId _ _ rfl rfl

/-- The next transaction begins and reads what the one before it read. -/
structure Follows (hash : Bytes → UInt64) (txId next : Nat) (store later : Store) : Prop where
  commits : Serial store (.commit txId)
  begins : Serial (step hash store (.commit txId)) .begin
  reads : ∀ kind id, (getTx kind next id later).1 = (getTx kind txId id store).1
  incoming : ∀ node, later.getIncomingEdges node = store.getIncomingEdges node
  pages : ∀ kind id, OnPage kind id store → OnPage kind id later

theorem Runs.followed (runs : Runs txId transactions store) (next : Nat)
    (idle : (transactions.commitTransaction txId).2.activeTransactions
      (current (transactions.commitTransaction txId).2) = false)
    (running : next = current (transactions.commitTransaction txId).2.beginTransaction.2)
    (active : (transactions.commitTransaction txId).2.beginTransaction.2.activeTransactions next = true) :
    let later := step hash (step hash store (.commit txId)) .begin
    Runs next (transactions.commitTransaction txId).2.beginTransaction.2 later ∧
      Follows hash txId next store later := by
  intro later
  have commits : Serial store (.commit txId) := runs.commits
  have before := runs.running
  obtain ⟨settled,rfl,-,-⟩ := runs
  have ended := step_settled hash (.commit txId) commits settled
  have committed : (mvcc (step hash store (.commit txId))).txnManager =
      ((mvcc store).txnManager.commitTransaction txId).2 :=
    congrArg MVCCManager.txnManager (manage_mvcc (.commit txId) settled.sound)
  have begins : Serial (step hash store (.commit txId)) .begin := by
    rw [Serial,SerialHistory.Serial,committed]
    exact idle
  have begun := step_settled hash .begin begins ended
  have tables : (mvcc later).txnManager =
      ((mvcc store).txnManager.commitTransaction txId).2.beginTransaction.2 := by
    rw [← committed]
    exact congrArg MVCCManager.txnManager (manage_mvcc .begin ended.sound)
  refine ⟨⟨begun,tables,running,active⟩,commits,begins,fun kind id => ?_,fun node => rfl,?_⟩
  swap
  · rintro kind id ⟨found,stored⟩
    exact ⟨found,(manage_reads .begin kind id _).trans ((manage_reads (.commit txId) kind id _).trans stored)⟩
  have first := (step_reads hash (.commit txId) commits settled fun _ _ => nofun).1 kind id
  have second := (step_reads hash .begin begins ended fun _ _ => nofun).1 kind id
  rw [show current (mvcc (step hash (step hash store (.commit txId)) .begin)).txnManager = next from
    (congrArg current tables).trans running.symm] at second
  rw [← before] at first
  exact second.trans first

/-- The same nodes and pages, and no edges yet. -/
theorem Runs.another (runs : Runs txId transactions store) (empty : ∀ id, ¬Listed store id) :
    let later := step hash store (.perform txId (.createNode []))
    Spares txId store (.createNode []) ∧ (∀ id, ¬Listed later id) ∧
      NodeRead txId store.nextNodeId later ∧ OnPage .node store.nextNodeId later ∧
      ∀ id, id ≠ store.nextNodeId → (NodeRead txId id store → NodeRead txId id later) ∧
        (OnPage .node id store → OnPage .node id later) := by
  intro later
  have serial := runs.serial (.createNode []) trivial
  have frame := (perform_frame hash txId store (.createNode []) runs.settled.sound).1
  have apart := reading_apart hash (.createNode []) serial runs.settled trivial
  have written := node_written hash (.createNode []) serial runs.settled trivial _ _ rfl rfl rfl
  refine ⟨fun listed => absurd listed (empty _),fun id => ?_,written.1,created_onPage hash runs.settled.isOpen,
    fun id other => ⟨(apart id other).2.mpr,?_⟩⟩
  · rintro ⟨node,listed⟩
    have same : (Kind.edge,id) ≠ (Kind.node,store.nextNodeId) := fun absurd => nomatch absurd
    exact empty id ⟨node,listed.imp (frame.outgoing node id same).mp (frame.incoming node id same).mp⟩
  · have same : (Kind.node,id) ≠ (Kind.node,store.nextNodeId) := fun absurd => other (congrArg Prod.snd absurd)
    rintro ⟨found,read⟩
    exact ⟨found,(frame.records .node id same).trans read⟩

def unhashed : Bytes → UInt64 := fun _ => 0

/-- Two nodes and an edge between them. -/
def joining : List Call := [.perform 1 (.createNode []),.perform 1 (.createNode []),
  .perform 1 (.createEdge 0 1 2 [] [])]

theorem joining_reads (runs : Runs 1 transactions store) (empty : ∀ id, ¬Listed store id)
    (nodes : store.nextNodeId = 1) (edges : store.nextEdgeId = 1) :
    let later := after unhashed store joining
    Guarded (step unhashed) Serial store joining ∧ Guarded (step unhashed) SparesEnds store joining ∧
      Runs 1 transactions later ∧ 1 ∈ later.getIncomingEdges 2 ∧ OnPage .node 2 later ∧
      (getEdgeTx 1 1 later).1 = .ok ({id := 1, fromNode := 1, toNode := 2},[]) := by
  intro later
  have one := runs.performed unhashed (.createNode []) trivial
  have two := one.performed unhashed (.createNode []) trivial
  obtain ⟨spares,empty,found,page,-⟩ := runs.another unhashed empty
  obtain ⟨nextNode,nextEdge⟩ := createNode_next unhashed 1 [] store
  obtain ⟨-,lastEdge⟩ := createNode_next unhashed 1 [] (step unhashed store (.perform 1 (.createNode [])))
  obtain ⟨spares',-,found',page',others⟩ := one.another unhashed empty
  have second : (step unhashed store (.perform 1 (.createNode []))).nextNodeId = 2 :=
    nextNode.trans (by rw [nodes]; rfl)
  have edgeId : (step unhashed (step unhashed store (.perform 1 (.createNode [])))
      (.perform 1 (.createNode []))).nextEdgeId = 1 := lastEdge.trans (nextEdge.trans edges)
  rw [nodes] at found page
  rw [second] at found' page' others
  obtain ⟨still,stays⟩ := others 1 (by decide)
  have joins : JoinsRead 1 _ (.createEdge 0 1 2 [] []) := ⟨still found,found'⟩
  have serial := two.serial (.createEdge 0 1 2 [] []) joins
  have three := two.performed unhashed (.createEdge 0 1 2 [] []) joins
  have listed := createEdge_incoming unhashed 1 0 1 2 [] [] two.settled.isOpen
  have told := (perform_reads unhashed 1 (.createEdge 0 1 2 [] []) serial two.settled trivial).2.1 .edge
  have frame := (perform_frame unhashed 1 _ (.createEdge 0 1 2 [] []) two.settled.sound).1
  refine ⟨⟨runs.serial _ trivial,one.serial _ trivial,serial,trivial⟩,
    ⟨spares,spares',fun _ => ?_,trivial⟩,three,?_,?_,?_⟩
  · rw [edgeId]
    exact stays page
  · rwa [edgeId] at listed
  · obtain ⟨record,read⟩ := page'
    exact ⟨record,(frame.records .node 2 fun absurd => nomatch absurd).trans read⟩
  · rw [Operation.key,Operation.version,edgeId] at told
    exact told

def started : Store := opened (FilePageStore.openFile []) none

def joined : List Call := .begin::joining ++ [.commit 1,.begin]

theorem joined_reads :
    let reached := after unhashed started joined
    Guarded (step unhashed) Serial started joined ∧ Guarded (step unhashed) SparesEnds started joined ∧
      Runs 2 (({} : TransactionManager).beginTransaction.2.commitTransaction 1).2.beginTransaction.2 reached ∧
      1 ∈ reached.getIncomingEdges 2 ∧ OnPage .node 2 reached ∧
      (getEdgeTx 2 1 reached).1 = .ok ({id := 1, fromNode := 1, toNode := 2},[]) := by
  intro reached
  have begins : Serial started .begin := rfl
  have begun : Runs 1 ({} : TransactionManager).beginTransaction.2 (step unhashed started .begin) :=
    ⟨step_settled unhashed .begin begins (opened_settled [] none),rfl,by decide,by decide⟩
  have empty (id : EdgeId) : ¬Listed (step unhashed started .begin) id := by
    rintro ⟨node,absurd | absurd⟩
    · cases absurd
    · cases absurd
  obtain ⟨serial,spares,runs,listed,page,read⟩ := joining_reads begun empty rfl rfl
  obtain ⟨next,follows⟩ := runs.followed unhashed 2 (by decide) (by decide) (by decide)
  have ends : reached = step unhashed (step unhashed (after unhashed (step unhashed started .begin) joining)
      (.commit 1)) .begin := by
    simp only [reached,joined,after,List.cons_append,run_cons,run_append,run_nil]
  rw [ends]
  refine ⟨⟨begins,(guarded_append _ _ _).mpr ⟨serial,follows.commits,follows.begins,trivial⟩⟩,
    ⟨trivial,(guarded_append _ _ _).mpr ⟨spares,trivial,trivial,trivial⟩⟩,next,?_,follows.pages .node 2 page,
    (follows.reads .edge 1).trans read⟩
  rw [follows.incoming]
  exact listed

theorem ends_stay_readable_joined : Always (step unhashed) AllRead started joined :=
  (ends_stay_readable unhashed [] none joined joined_reads.1).mpr joined_reads.2.1

/-- The next transaction deletes the second node, and the one after it begins. -/
def severing : List Call := [.perform 2 (.deleteNode 2),.commit 2,.begin]

def severed : List Call := joined ++ severing

theorem severing_reads (edge : EdgeRecord × List Property)
    (runs : Runs 2 (({} : TransactionManager).beginTransaction.2.commitTransaction 1).2.beginTransaction.2 store)
    (listed : 1 ∈ store.getIncomingEdges 2) (page : OnPage .node 2 store)
    (read : (getEdgeTx 2 1 store).1 = .ok edge) :
    let later := after unhashed store severing
    Guarded (step unhashed) Serial store severing ∧ (perform unhashed 2 store (.deleteNode 2)).1 = some (.ok 2) ∧
      (∃ e, (deleteNode 2 store).1 = .error e) ∧ Listed later 1 ∧ (getEdgeTx 3 1 later).1 = .ok edge ∧
      (getNodeTx 3 2 later).1 = .error ⟨.notFound,"Node not visible"⟩ := by
  intro later
  have deletes := runs.serial (.deleteNode 2) trivial
  have deleted := runs.performed unhashed (.deleteNode 2) trivial
  obtain ⟨next,wal,-,done⟩ := perform_proceeds unhashed 2 (.deleteNode 2) runs.settled.isOpen
    runs.settled.sound.enabled runs.settled.sound.versions.free page
  have frame := (perform_frame unhashed 2 _ (.deleteNode 2) runs.settled.sound).1
  obtain ⟨-,here,others⟩ := perform_reads unhashed 2 (.deleteNode 2) deletes runs.settled page
  obtain ⟨-,follows⟩ := deleted.followed unhashed 3 (by decide) (by decide) (by decide)
  refine ⟨⟨deletes,follows.commits,follows.begins,trivial⟩,congrArg Prod.fst done,?_,⟨2,.inr ?_⟩,?_,?_⟩
  · unfold deleteNode
    split
    · exact ⟨_,rfl⟩
    · rw [if_pos (List.ne_nil_of_mem listed)]
      exact ⟨_,rfl⟩
  · exact (follows.incoming 2).symm ▸ (frame.incoming 2 1 fun absurd => nomatch absurd).mpr listed
  · have apart : (1 : UInt64) ≠ 2 := by decide
    exact (follows.reads .edge 1).trans ((others .edge 1 apart).trans read)
  · exact (follows.reads .node 2).trans (here .node)

/-- The deletion goes through, where one without a transaction is refused. From then on the edge is read and the
node at its end is not. -/
theorem edge_severed :
    let reached := after unhashed started
    Guarded (step unhashed) Serial started severed ∧
      (perform unhashed 2 (reached joined) (.deleteNode 2)).1 = some (.ok 2) ∧
      (∃ e, (deleteNode 2 (reached joined)).1 = .error e) ∧ Listed (reached severed) 1 ∧
      (getEdgeTx 3 1 (reached severed)).1 = .ok ({id := 1, fromNode := 1, toNode := 2},[]) ∧
      (getNodeTx 3 2 (reached severed)).1 = .error ⟨.notFound,"Node not visible"⟩ := by
  intro reached
  obtain ⟨serial,-,runs,listed,page,read⟩ := joined_reads
  obtain ⟨later,reads⟩ := severing_reads _ runs listed page read
  have ends : reached severed = after unhashed (reached joined) severing := run_append ..
  rw [ends]
  exact ⟨(guarded_append _ _ _).mpr ⟨serial,later⟩,reads⟩

end Severed

end LoreDB.Storage.ReadableEnds
