import LoreDB.Storage.RecordPages
import Mathlib.Data.Set.Basic

/-! Adjacency lists as other transactions see them. An edge counts for a reader when a
list names it and the reader can get it. The lists are edited in place when an edge is
created or deleted, so what keeps an uncommitted change from a reader is only that it
sees no version of the edge. -/
namespace LoreDB.Storage.Topology
open LoreDB.Transaction LoreDB.Library LoreDB.Library.History GraphHistory GraphStore

variable {σ : Type}

/-- The listed edges that a reader can get. -/
def seenEdges [PageStore σ] (reader : Nat) (listed : List EdgeId) (store : GraphStore σ) :
    Set EdgeId :=
  {edge | edge ∈ listed ∧ ∃ record, (getEdgeTx reader edge store).1 = .ok record}

def rewires : Operation → Bool
  | .createEdge _ _ _ _ _ | .deleteEdge _ => true
  | _ => false

/-- The call leaves the reader's edges alone, and in the later state its own edge is
where it was before the call. -/
def Isolated [PageStore σ] (reader : Nat) (edge : EdgeId) (before next later : GraphStore σ) : Prop :=
  (∀ node,
    seenEdges reader (next.getOutgoingEdges node) next =
        seenEdges reader (before.getOutgoingEdges node) before ∧
      seenEdges reader (next.getIncomingEdges node) next =
        seenEdges reader (before.getIncomingEdges node) before) ∧
  ∀ node,
    (edge ∈ seenEdges reader (later.getOutgoingEdges node) later ↔
        edge ∈ seenEdges reader (before.getOutgoingEdges node) before) ∧
      (edge ∈ seenEdges reader (later.getIncomingEdges node) later ↔
        edge ∈ seenEdges reader (before.getIncomingEdges node) before)

/-- The reader sees no version under the id but perhaps the writer's. -/
def Unseen (writer reader : Nat) (id : UInt64) (store : GraphStore σ) : Prop :=
  ∀ v ∈ (mvcc store).chain id, v.createdTxId ≠ writer →
    isVersionVisible (mvcc store).txnManager reader v = false

/-- While the writer has not committed, such a reader is told of no record. -/
theorem unseen_none (writer reader : Nat) (id : UInt64) (store : GraphStore σ)
    (other : reader ≠ writer)
    (pending : (mvcc store).txnManager.isTransactionCommitted writer = false)
    (unseen : Unseen writer reader id store) :
    VersionChain.newest (isVersionVisible (mvcc store).txnManager reader) ((mvcc store).chain id) =
      none := by
  rw [VersionChain.newest_none]
  intro v member
  by_cases mine : v.createdTxId = writer
  · rw [← Bool.not_eq_true,visible_iff,mine,pending]
    rintro (⟨own,_⟩ | ⟨_,absurd,_⟩)
    · exact other own.symm
    · contradiction
  · exact unseen v member mine

theorem unseen_edge [LawfulPageStore σ] (writer reader : Nat) (edge : EdgeId) (store : GraphStore σ)
    (sound : Sound store) (other : reader ≠ writer)
    (pending : (mvcc store).txnManager.isTransactionCommitted writer = false)
    (unseen : Unseen writer reader edge store) (listed : List EdgeId) :
    edge ∉ seenEdges reader listed store := by
  rintro ⟨_,record,found⟩
  have told := (getTx_spec .edge reader edge store sound.enabled).1
  rw [unseen_none writer reader edge store other pending unseen] at told
  have absurd := told.symm.trans found
  contradiction

theorem committed_stays [LawfulPageStore σ] (hash : Bytes → UInt64) (t : Nat) (store : GraphStore σ)
    (calls : List Call) (history : History hash store calls) (sound : Sound store)
    (issued : (mvcc store).txnManager.Issued t)
    (committed : (mvcc store).txnManager.isTransactionCommitted t = true) :
    (mvcc (after hash store calls)).txnManager.isTransactionCommitted t = true := by
  refine (run_preserves (fun store => Sound store ∧ (mvcc store).txnManager.Issued t ∧
    (mvcc store).txnManager.isTransactionCommitted t = true) ?_ store calls history
    ⟨sound,issued,committed⟩).2.2
  intro store call legal ⟨sound,issued,committed⟩
  refine ⟨step_sound hash store call legal sound,?_⟩
  obtain same | ⟨managed,allowed,moved⟩ := step_versions hash store call legal sound
  · rw [mvcc,same]
    exact ⟨issued,committed⟩
  · rw [mvcc,moved]
    exact MvccHistory.step_committed true _ managed allowed sound.versions t issued committed

/-- A write by the uncommitted transaction brings no version of the others into sight. -/
theorem unseen_written (writer reader : Nat) (id : UInt64) (store next : GraphStore σ)
    (version : Version) (mine : version.createdTxId = writer)
    (tables : (mvcc next).txnManager = (mvcc store).txnManager)
    (chain : (mvcc next).chain id = MvccHistory.written version ((mvcc store).chain id))
    (unseen : Unseen writer reader id store) : Unseen writer reader id next := by
  intro v member foreign
  rw [chain] at member
  rw [tables]
  rcases MvccHistory.written_mem version v _ member with rfl | old | ⟨old,inside,live,rfl⟩
  · exact absurd mine foreign
  · exact unseen v old foreign
  · rw [← Bool.not_eq_true]
    intro seen
    have before := stamp_hides (mvcc store).txnManager reader version.createdTxId old
      (by simpa [stamp,live] using seen)
    rw [unseen old inside foreign] at before
    contradiction

/-- A call of an uncommitted transaction on an edge that the reader does not see leaves
the reader's edges alone. -/
theorem perform_isolated [LawfulPageStore σ] (hash : Bytes → UInt64) (store : GraphStore σ)
    (sound : Sound store) (writer reader : Nat) (operation : Operation)
    (edges : operation.kind = .edge) (other : reader ≠ writer)
    (pending : (mvcc store).txnManager.isTransactionCommitted writer = false)
    (unseen : Unseen writer reader (operation.key store) store) (listed edited : List EdgeId)
    (later : Sound (perform hash writer store operation).2)
    (sameLists : ∀ edge, edge ≠ operation.key store → (edge ∈ edited ↔ edge ∈ listed)) :
    seenEdges reader edited (perform hash writer store operation).2 =
      seenEdges reader listed store := by
  have frame := (perform_frame hash writer store operation sound).1
  generalize (perform hash writer store operation).2 = next at frame later ⊢
  obtain ⟨created,_⟩ := version_legal hash writer store operation
  have unseenNext : Unseen writer reader (operation.key store) next := by
    rcases frame.chains (operation.key store) with same | ⟨_,wrote⟩
    · intro v member foreign
      rw [frame.tables]
      exact unseen v (same ▸ member) foreign
    · exact unseen_written writer reader _ store next _ created frame.tables wrote unseen
  ext edge
  by_cases here : edge = operation.key store
  · subst here
    exact iff_of_false
      (unseen_edge writer reader _ next later other (by rw [frame.tables,pending]) unseenNext edited)
      (unseen_edge writer reader _ store sound other pending unseen listed)
  · have chain := (frame.chains edge).resolve_right fun wrote => here wrote.1
    have page := frame.records .edge edge (by simp [edges,here])
    have before := (getTx_spec .edge reader edge store sound.enabled).1
    have after := (getTx_spec .edge reader edge next later.enabled).1
    rw [chain,page,frame.tables,← before] at after
    have told : (getEdgeTx reader edge next).1 = (getEdgeTx reader edge store).1 := after
    simp only [seenEdges,Set.mem_ofPred_eq,told,sameLists edge here]

/-- Creations and deletions of edges stay isolated as long as their transaction has not
committed, wherever the reader sees no version of other transactions under the edge's id. -/
theorem topology_isolated [LawfulPageStore σ] (hash : Bytes → UInt64) (pages : σ)
    (wal : Option WALManager) (front rest : List Call) (writer reader : Nat) (operation : Operation)
    (rewiring : rewires operation = true) (other : reader ≠ writer)
    (history : History hash (opened pages wal) (front ++ .perform writer operation::rest)) :
    let reached := after hash (opened pages wal)
    let edge := operation.key (reached front)
    let later := reached (front ++ .perform writer operation::rest)
    (mvcc later).txnManager.isTransactionCommitted writer = false →
      Unseen writer reader edge (reached front) → Unseen writer reader edge later →
        Isolated reader edge (reached front) (reached (front ++ [.perform writer operation])) later := by
  intro reached edge later pending unseen still
  have edges : operation.kind = .edge := by
    cases operation <;> first | rfl | cases rewiring
  obtain ⟨earlier,legal,_⟩ := (guarded_append _ _ _).mp history
  have sound : Sound (reached front) := history_sound hash pages wal front earlier
  have final : Sound later := history_sound hash pages wal _ history
  have called : reached (front ++ [.perform writer operation]) =
      (perform hash writer (reached front) operation).2 := after_perform ..
  have next : Sound (perform hash writer (reached front) operation).2 :=
    step_sound hash (reached front) (.perform writer operation) legal sound
  have early : (mvcc (reached front)).txnManager.isTransactionCommitted writer = false := by
    rw [← Bool.not_eq_true]
    intro committed
    have stays := committed_stays hash writer (reached front) _
      ((guarded_append _ _ _).mp history).2 sound legal committed
    have same : after hash (reached front) (.perform writer operation::rest) = later := by
      simp [later,reached,after]
    rw [same,pending] at stays
    contradiction
  have frame := (perform_frame hash writer (reached front) operation sound).1
  constructor
  · intro node
    rw [called]
    constructor
    · apply perform_isolated hash (reached front) sound writer reader operation edges other early unseen
        _ _ next
      exact fun edge apart => frame.outgoing node edge (by simpa [edges] using apart)
    · apply perform_isolated hash (reached front) sound writer reader operation edges other early unseen
        _ _ next
      exact fun edge apart => frame.incoming node edge (by simpa [edges] using apart)
  · intro node
    have before := unseen_edge writer reader edge (reached front) sound other early unseen
    have after := unseen_edge writer reader edge later final other pending still
    exact ⟨iff_of_false (after _) (before _),iff_of_false (after _) (before _)⟩

def unhashed : Bytes → UInt64 := fun _ => 0

theorem created_on_page (txId : Nat) (store : GraphStore FilePageStore)
    (isOpen : store.pageStore.isClosed = false) (first : store.nextEdgeId = 1) :
    (getEdge 1 (perform unhashed txId store (.createEdge 0 1 1 [] [])).2).1 =
      .ok ({id := 1, fromNode := 1, toNode := 1},[]) := by
  have created := createEdge_reads unhashed 0 1 1 [] [] isOpen {id := 1, fromNode := 1, toNode := 1}
    (by rw [first]; rfl) (by decide +kernel)
  obtain ⟨_,_,same⟩ := createEdgeTx_keeps unhashed 0 txId 1 1 [] [] store
  rw [first] at created
  rw [perform,same,← created]
  exact get_same .edge 1 _ _ rfl rfl

/-- Another transaction deletes a committed edge and stays active. -/
def deletedEdge : List Call :=
  [.begin,.perform 1 (.createEdge 0 1 1 [] []),.commit 1,.begin,.begin]

theorem edge_on_page :
    (getEdge 1 (after unhashed (opened ({} : FilePageStore) none) deletedEdge)).1 =
      .ok ({id := 1, fromNode := 1, toNode := 1},[]) := by
  simp only [after,deletedEdge,run_cons,run_nil,step]
  exact (manage_reads .begin .edge 1 _).trans ((manage_reads .begin .edge 1 _).trans
    ((manage_reads (.commit 1) .edge 1 _).trans
      (created_on_page 1 (manage .begin (opened {} none)) rfl rfl)))

theorem deletion_unlists (txId : Nat) (store : GraphStore FilePageStore)
    (read : (getEdge 1 store).1 = .ok ({id := 1, fromNode := 1, toNode := 1},[])) :
    1 ∉ (perform unhashed txId store (.deleteEdge 1)).2.getOutgoingEdges 1 := by
  obtain ⟨_,_,same⟩ := deleteEdgeTx_keeps txId 1 store
  have unlisted := deleteEdge_unlists 1 _ _ read
  rw [perform,perform.keyed,same]
  exact unlisted

/-- The reader sees the edge, and the deletion takes it off the list at once. -/
theorem deletion_leaks :
    let reached := after unhashed (opened ({} : FilePageStore) none)
    History unhashed (opened ({} : FilePageStore) none) (deletedEdge ++ [.perform 2 (.deleteEdge 1)]) ∧
      (mvcc (reached (deletedEdge ++ [.perform 2 (.deleteEdge 1)]))).txnManager.stateOf 2 = some .active ∧
      ¬Isolated 3 1 (reached deletedEdge) (reached (deletedEdge ++ [.perform 2 (.deleteEdge 1)]))
        (reached (deletedEdge ++ [.perform 2 (.deleteEdge 1)])) := by
  intro reached
  have facts : History unhashed (opened ({} : FilePageStore) none)
        (deletedEdge ++ [.perform 2 (.deleteEdge 1)]) ∧
      (mvcc (reached deletedEdge)).txnManager.stateOf 2 = some .active ∧
      (1 : EdgeId) ∈ (reached deletedEdge).getOutgoingEdges 1 ∧
      (getEdgeTx 3 1 (reached deletedEdge)).1 = .ok ({id := 1, fromNode := 1, toNode := 1},[]) := by
    decide +kernel
  obtain ⟨history,active,listed,read⟩ := facts
  have sound : Sound (reached deletedEdge) :=
    history_sound _ _ _ _ ((guarded_append _ _ _).mp history).1
  have called : reached (deletedEdge ++ [.perform 2 (.deleteEdge 1)]) =
      (perform unhashed 2 (reached deletedEdge) (.deleteEdge 1)).2 := after_perform ..
  refine ⟨history,?_,fun isolated => ?_⟩
  · rw [called,(perform_frame unhashed 2 (reached deletedEdge) (.deleteEdge 1) sound).1.tables]
    exact active
  · have seen : (1 : EdgeId) ∈ seenEdges 3 ((reached deletedEdge).getOutgoingEdges 1) (reached deletedEdge) :=
      ⟨listed,_,read⟩
    rw [← (isolated.1 1).1,called] at seen
    exact deletion_unlists 2 _ edge_on_page seen.1

/-- The new edge of a transaction that aborts is never seen by another one. -/
theorem topology_isolated_aborted :
    let reached := after unhashed (opened ({} : FilePageStore) none)
    Isolated 2 1 (reached [.begin,.begin]) (reached [.begin,.begin,.perform 1 (.createEdge 0 1 1 [] [])])
      (reached [.begin,.begin,.perform 1 (.createEdge 0 1 1 [] []),.abort 1]) := by
  intro reached
  have facts : History unhashed (opened ({} : FilePageStore) none)
        ([.begin,.begin] ++ .perform 1 (.createEdge 0 1 1 [] [])::[.abort 1]) ∧
      (mvcc (reached ([.begin,.begin] ++
        .perform 1 (.createEdge 0 1 1 [] [])::[.abort 1]))).txnManager.isTransactionCommitted 1 = false ∧
      Unseen 1 2 1 (reached [.begin,.begin]) ∧
      Unseen 1 2 1 (reached ([.begin,.begin] ++ .perform 1 (.createEdge 0 1 1 [] [])::[.abort 1])) := by
    unfold Unseen
    decide +kernel
  obtain ⟨history,pending,unseen,still⟩ := facts
  exact topology_isolated unhashed ({} : FilePageStore) none [.begin,.begin] [.abort 1] 1 2
    (.createEdge 0 1 1 [] []) rfl (by decide) history pending unseen still

end LoreDB.Storage.Topology
