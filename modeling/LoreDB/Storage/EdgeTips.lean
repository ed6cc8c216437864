import LoreDB.Storage.CountedNodes
import LoreDB.Storage.Wiring

/-! The ends that versions of edges tell. A version has the ends under which its edge is listed, or it is
one of an update or a deletion, which leave the ends out. No node has the id that is left in their place. -/
namespace LoreDB.Storage.EdgeTips
open LoreDB.Transaction LoreDB.Library.History GraphStore GraphHistory Outlines CountedNodes OpenStores Wiring

/-- Some version under the id has this record of an edge. -/
def Told (store : Store) (id : EdgeId) (record : EdgeRecord) : Prop :=
  ∃ v ∈ (mvcc store).chain id, asEdge v.data = some record

structure Tipped (o : Outline) (told : EdgeId → EdgeRecord → Prop) : Prop where
  issued : ∀ id record, told id record → id < o.nextEdgeId
  outgoing : ∀ id record, told id record → record.toNode ≠ 0 →
    ∀ node, id ∈ o.outgoingEdges node → record.fromNode = node
  incoming : ∀ id record, told id record → record.toNode ≠ 0 →
    ∀ node, id ∈ o.incomingEdges node → record.toNode = node

/-- There is no node 0, on a page or under a version. -/
structure NoZero (store : Store) : Prop where
  next : store.nextNodeId ≠ 0
  unplaced : store.nodePageIndex 0 = none
  unversioned : ¬NodeVersion store 0

variable {store : Store} {ends : EdgeId → NodeId × NodeId}

/-! Lists. -/

/-- What an operation does to the lists of the edges that are there. -/
structure Lists (before later : Outline) : Prop where
  next : before.nextEdgeId ≤ later.nextEdgeId
  outgoing : ∀ id node, id < before.nextEdgeId → id ∈ later.outgoingEdges node → id ∈ before.outgoingEdges node
  incoming : ∀ id node, id < before.nextEdgeId → id ∈ later.incomingEdges node → id ∈ before.incomingEdges node

theorem Lists.same {before later : Outline} (next : later.nextEdgeId = before.nextEdgeId)
    (outgoing : later.outgoingEdges = before.outgoingEdges)
    (incoming : later.incomingEdges = before.incomingEdges) : Lists before later where
  next := next ▸ UInt64.le_refl _
  outgoing _ _ _ listed := outgoing ▸ listed
  incoming _ _ _ listed := incoming ▸ listed

theorem mem_update (lists : NodeId → List EdgeId) (target node : NodeId) (edges : List EdgeId) (id : EdgeId)
    (old : id ∈ edges → id ∈ lists target) (listed : id ∈ Function.update lists target edges node) :
    id ∈ lists node := by
  by_cases here : node = target
  · subst here
    rw [Function.update_self] at listed
    exact old listed
  · rwa [Function.update_of_ne here] at listed

theorem plain_lists (hash : Bytes → UInt64) (store : Store) (operation : Operation)
    (last : GraphRefinement.Counts store.nextNodeId store.nextEdgeId operation) :
    Lists (outline store) (outline (plain hash store operation)) := by
  cases operation with
  | createNode properties =>
    obtain same | ⟨-,page,same⟩ := createNode_outline properties store
    · exact same ▸ Lists.same rfl rfl rfl
    · exact same ▸ Lists.same rfl rfl rfl
  | updateNode id properties =>
    obtain same | ⟨-,page,same⟩ := updateNode_outline id properties store
    · exact same ▸ Lists.same rfl rfl rfl
    · exact same ▸ Lists.same rfl rfl rfl
  | deleteNode id =>
    obtain same | ⟨-,-,-,same⟩ := deleteNode_outline id store
    · exact same ▸ Lists.same rfl rfl rfl
    · exact same ▸ ⟨UInt64.le_refl _,
        fun edge node _ => mem_update _ id node [] edge fun none => absurd none List.not_mem_nil,
        fun edge node _ => mem_update _ id node [] edge fun none => absurd none List.not_mem_nil⟩
  | createEdge clock fromNode toNode label properties =>
    have above : store.nextEdgeId ≤ store.nextEdgeId + 1 := UInt64.le_of_lt (next_above last (.inr rfl))
    have old (edge : EdgeId) (edges : List EdgeId) (issued : edge < store.nextEdgeId)
        (listed : edge ∈ edges ++ [store.nextEdgeId]) : edge ∈ edges := by
      rcases List.mem_append.mp listed with listed | new
      · exact listed
      · exact absurd issued (List.mem_singleton.mp new ▸ UInt64.lt_irrefl _)
    obtain same | ⟨page,same⟩ := createEdge_outline hash clock fromNode toNode label properties store
    · exact same ▸ ⟨above,fun _ _ _ listed => listed,fun _ _ _ listed => listed⟩
    · exact same ▸ ⟨above,
        fun edge node issued => mem_update _ fromNode node _ edge (old edge _ issued),
        fun edge node issued => mem_update _ toNode node _ edge (old edge _ issued)⟩
  | updateEdge id properties =>
    obtain same | ⟨-,page,same⟩ := updateEdge_outline id properties store
    · exact same ▸ Lists.same rfl rfl rfl
    · exact same ▸ Lists.same rfl rfl rfl
  | deleteEdge id =>
    obtain same | ⟨-,fromNode,toNode,same⟩ := deleteEdge_outline id store
    · exact same ▸ Lists.same rfl rfl rfl
    · exact same ▸ ⟨UInt64.le_refl _,
        fun edge node _ => mem_update _ fromNode node _ edge fun kept => (List.mem_filter.mp kept).1,
        fun edge node _ => mem_update _ toNode node _ edge fun kept => (List.mem_filter.mp kept).1⟩

theorem step_lists (hash : Bytes → UInt64) (call : Call) (last : CountersLast store call) :
    Lists (outline store) (outline (GraphHistory.step hash store call)) := by
  obtain same | ⟨operation,performs,same⟩ := step_outline hash store call
  · exact same ▸ Lists.same rfl rfl rfl
  · exact same ▸ plain_lists hash store operation (last operation performs)

/-! Versions. -/

theorem Tipped.kept {before later : Outline} {told : EdgeId → EdgeRecord → Prop} (lists : Lists before later)
    (tipped : Tipped before told) : Tipped later told where
  issued id record kept := UInt64.lt_of_lt_of_le (tipped.issued id record kept) lists.next
  outgoing id record kept ends node listed :=
    tipped.outgoing id record kept ends node (lists.outgoing id node (tipped.issued id record kept) listed)
  incoming id record kept ends node listed :=
    tipped.incoming id record kept ends node (lists.incoming id node (tipped.issued id record kept) listed)

theorem updateEdge_reads (edgeId : EdgeId) (properties : List Property)
    (updated : (updateEdge edgeId properties store).1 = .ok ()) : store.edgePageIndex edgeId ≠ none := by
  have placed := get_placed .edge edgeId store
  unfold updateEdge at updated
  cases found : getEdge edgeId store with
  | mk result next =>
    simp only [GraphHistory.get,found] at updated placed
    cases result with
    | error e => cases updated
    | ok record => exact placed record rfl

theorem deleteEdge_reads (edgeId : EdgeId) (deleted : (deleteEdge edgeId store).1 = .ok ()) :
    store.edgePageIndex edgeId ≠ none := by
  have placed := get_placed .edge edgeId store
  unfold deleteEdge at deleted
  cases found : getEdge edgeId store with
  | mk result next =>
    simp only [GraphHistory.get,found] at deleted placed
    cases result with
    | error e => cases deleted
    | ok record => exact placed record rfl

/-- The edge of a version that is written has been issued, and is listed as the version tells. -/
theorem written_tips (hash : Bytes → UInt64) (txId : Nat) (operation : Operation)
    (last : CountersLast store (.perform txId operation)) (wired : Wired store ends)
    (writes : Writes hash store operation) (record : EdgeRecord)
    (edge : asEdge (operation.version hash txId store).data = some record) :
    Tipped (outline (perform hash txId store operation).2)
      fun id other => id = operation.key store ∧ other = record := by
  have lists := step_lists hash (.perform txId operation) last
  have endless (id : EdgeId) (placed : store.edgePageIndex id ≠ none) (none : record.toNode = 0) :
      Tipped (outline (perform hash txId store operation).2) fun other told => other = id ∧ told = record := by
    refine ⟨?_,?_,?_⟩
    · rintro _ _ ⟨rfl,rfl⟩
      exact UInt64.lt_of_lt_of_le ((wired.joins _).issued placed) lists.next
    · rintro _ _ ⟨rfl,rfl⟩ some
      exact absurd none some
    · rintro _ _ ⟨rfl,rfl⟩ some
      exact absurd none some
  cases operation with
  | createNode properties => cases edge
  | updateNode id properties => cases edge
  | deleteNode id => cases edge
  | createEdge clock fromNode toNode label properties =>
    obtain rfl := Option.some.inj edge
    have above : store.nextEdgeId < store.nextEdgeId + 1 :=
      next_above (last (.createEdge clock fromNode toNode label properties) ⟨rfl,trivial⟩) (.inr rfl)
    have joins := wired.joins store.nextEdgeId
    have unleft (node : NodeId) (listed : store.nextEdgeId ∈ store.outgoingEdges node) : False :=
      UInt64.lt_irrefl _ (joins.issued ((joins.outgoing node).mp listed).1)
    have unreached (node : NodeId) (listed : store.nextEdgeId ∈ store.incomingEdges node) : False :=
      UInt64.lt_irrefl _ (joins.issued ((joins.incoming node).mp listed).1)
    have added (lists : NodeId → List EdgeId) (target node : NodeId)
        (unlisted : ∀ node, store.nextEdgeId ∉ lists node)
        (listed : store.nextEdgeId ∈
          Function.update lists target (lists target ++ [store.nextEdgeId]) node) : target = node := by
      by_contra apart
      rw [Function.update_of_ne (Ne.symm apart)] at listed
      exact unlisted node listed
    obtain ⟨m,wal,same⟩ := createEdgeTx_keeps hash clock txId fromNode toNode label properties store
    simp only [perform]
    rw [same]
    obtain same | ⟨page,same⟩ := createEdge_outline hash clock fromNode toNode label properties store
    · change Tipped (outline (createEdge hash clock fromNode toNode label properties store).2) _
      rw [same]
      refine ⟨?_,?_,?_⟩
      · rintro _ _ ⟨rfl,rfl⟩
        exact above
      · rintro _ _ ⟨rfl,rfl⟩ - node listed
        exact (unleft node listed).elim
      · rintro _ _ ⟨rfl,rfl⟩ - node listed
        exact (unreached node listed).elim
    · change Tipped (outline (createEdge hash clock fromNode toNode label properties store).2) _
      rw [same]
      refine ⟨?_,?_,?_⟩
      · rintro _ _ ⟨rfl,rfl⟩
        exact above
      · rintro _ _ ⟨rfl,rfl⟩ - node listed
        exact added _ fromNode node unleft listed
      · rintro _ _ ⟨rfl,rfl⟩ - node listed
        exact added _ toNode node unreached listed
  | updateEdge id properties =>
    obtain rfl := Option.some.inj edge
    exact endless id (updateEdge_reads id properties writes) rfl
  | deleteEdge id =>
    obtain rfl := Option.some.inj edge
    exact endless id (deleteEdge_reads id writes) rfl

theorem step_tipped (hash : Bytes → UInt64) (call : Call) (last : CountersLast store call)
    (wired : Wired store ends) (tipped : Tipped (outline store) (Told store)) :
    Tipped (outline (GraphHistory.step hash store call)) (Told (GraphHistory.step hash store call)) := by
  have kept := tipped.kept (step_lists hash call last)
  have told (id : EdgeId) (record : EdgeRecord) (told : Told (GraphHistory.step hash store call) id record) :
      ∃ among : EdgeId → EdgeRecord → Prop, among id record ∧
        Tipped (outline (GraphHistory.step hash store call)) among := by
    obtain ⟨v,member,edge⟩ := told
    rcases step_adds hash store call id v member with ⟨old,inside,same⟩ | ⟨txId,operation,rfl,rfl,rfl,writes⟩
    · exact ⟨Told store,⟨old,inside,same ▸ edge⟩,kept⟩
    · exact ⟨_,⟨rfl,rfl⟩,written_tips hash txId operation last wired writes record edge⟩
  refine ⟨fun id record version => ?_,fun id record version => ?_,fun id record version => ?_⟩
  · obtain ⟨among,here,tipped⟩ := told id record version
    exact tipped.issued id record here
  · obtain ⟨among,here,tipped⟩ := told id record version
    exact tipped.outgoing id record here
  · obtain ⟨among,here,tipped⟩ := told id record version
    exact tipped.incoming id record here

/-! The node 0. -/

theorem plain_zero (hash : Bytes → UInt64) (store : Store) (operation : Operation)
    (last : GraphRefinement.Counts store.nextNodeId store.nextEdgeId operation)
    (next : store.nextNodeId ≠ 0) (unplaced : store.nodePageIndex 0 = none) :
    (outline (plain hash store operation)).nextNodeId ≠ 0 ∧
      (outline (plain hash store operation)).nodePageIndex 0 = none := by
  cases operation with
  | createNode properties =>
    obtain same | ⟨-,page,same⟩ := createNode_outline properties store
    · exact same ▸ ⟨last,unplaced⟩
    · exact same ▸ ⟨last,(Function.update_of_ne (Ne.symm next) ..).trans unplaced⟩
  | updateNode id properties =>
    obtain same | ⟨placed,page,same⟩ := updateNode_outline id properties store
    · exact same ▸ ⟨next,unplaced⟩
    · have apart : (0 : NodeId) ≠ id := by
        rintro rfl
        exact placed unplaced
      exact same ▸ ⟨next,(Function.update_of_ne apart ..).trans unplaced⟩
  | deleteNode id =>
    obtain same | ⟨-,-,-,same⟩ := deleteNode_outline id store
    · exact same ▸ ⟨next,unplaced⟩
    · refine same ▸ ⟨next,?_⟩
      by_contra kept
      exact ((dropped_index ..).mp kept).2 unplaced
  | createEdge clock fromNode toNode label properties =>
    obtain same | ⟨page,same⟩ := createEdge_outline hash clock fromNode toNode label properties store
    · exact same ▸ ⟨next,unplaced⟩
    · exact same ▸ ⟨next,unplaced⟩
  | updateEdge id properties =>
    obtain same | ⟨-,page,same⟩ := updateEdge_outline id properties store
    · exact same ▸ ⟨next,unplaced⟩
    · exact same ▸ ⟨next,unplaced⟩
  | deleteEdge id =>
    obtain same | ⟨-,fromNode,toNode,same⟩ := deleteEdge_outline id store
    · exact same ▸ ⟨next,unplaced⟩
    · exact same ▸ ⟨next,unplaced⟩

theorem step_noZero (hash : Bytes → UInt64) (call : Call) (last : CountersLast store call)
    (noZero : NoZero store) : NoZero (GraphHistory.step hash store call) := by
  have outlined : (outline (GraphHistory.step hash store call)).nextNodeId ≠ 0 ∧
      (outline (GraphHistory.step hash store call)).nodePageIndex 0 = none := by
    obtain same | ⟨operation,performs,same⟩ := step_outline hash store call
    · exact same ▸ ⟨noZero.next,noZero.unplaced⟩
    · exact same ▸ plain_zero hash store operation (last operation performs) noZero.next noZero.unplaced
  refine ⟨outlined.1,outlined.2,fun version => ?_⟩
  rcases step_places hash store call 0 version with old | placed
  · exact noZero.unversioned old
  · exact placed outlined.2

/-! Whole runs. -/

/-- The lists of a store, its versions and its pages agree on the ends of edges. -/
structure Agreed (store : Store) : Prop where
  wired : ∃ ends, Wired store ends
  tipped : Tipped (outline store) (Told store)
  noZero : NoZero store

theorem started_agreed (file : Bytes) (versions : Bool) (wal : Option WALManager) :
    Agreed (started (FilePageStore.openFile file) (if versions then some {} else none) wal) := by
  have unversioned (id : UInt64) (v : Version) : v ∉ (mvcc (started (FilePageStore.openFile file)
      (if versions then some {} else none) wal)).chain id := by
    cases versions <;> exact List.not_mem_nil
  refine ⟨⟨_,started_wired file _ wal⟩,⟨?_,?_,?_⟩,⟨show (1 : NodeId) ≠ 0 by decide,rfl,?_⟩⟩
  · rintro id record ⟨v,member,-⟩
    exact absurd member (unversioned id v)
  · rintro id record ⟨v,member,-⟩
    exact absurd member (unversioned id v)
  · rintro id record ⟨v,member,-⟩
    exact absurd member (unversioned id v)
  · rintro ⟨v,member,-⟩
    exact unversioned 0 v member

theorem after_agreed (hash : Bytes → UInt64) (start : Store) (calls : List Call)
    (last : Guarded (GraphHistory.step hash) CountersLast start calls) (agreed : Agreed start) :
    Agreed (after hash start calls) := by
  refine run_preserves Agreed (fun store call last agreed => ?_) start calls last agreed
  obtain ⟨⟨ends,wired⟩,tipped,noZero⟩ := agreed
  exact ⟨step_wired hash call last wired,step_tipped hash call last wired tipped,
    step_noZero hash call last noZero⟩

end LoreDB.Storage.EdgeTips
