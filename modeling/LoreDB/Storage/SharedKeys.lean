import LoreDB.Storage.RecordPages

/-! Reads of one kind of record across a transactional operation on the other kind. Node
and edge ids come from two counters but share the keys of the version store, so a
version of the other kind under the same id sends its readers to the pages, and its stamp
hides what they read before. -/
namespace LoreDB.Storage.SharedKeys
open LoreDB.Transaction LoreDB.Library LoreDB.Library.History GraphHistory GraphStore

variable {σ : Type}

/-- No reader of the kind is told anything new by a version of the other kind. Whoever
sees it is told what the page tells already. Whoever does not see it, but loses the
last version to its stamp, is told the same by the version before. -/
def Undisturbed [PageStore σ] (kind : Kind) (key : UInt64) (version : Version)
    (store : GraphStore σ) : Prop :=
  let page := (get kind key store).1
  ∀ reader, let seen := isVersionVisible (mvcc store).txnManager reader
    (seen version = true → told kind page (VersionChain.newest seen ((mvcc store).chain key)) = page) ∧
    (seen version = false → ∀ older last, (mvcc store).chain key = older ++ [last] →
      seen last = true → seen (stamp version.createdTxId last) = false →
        told kind page (VersionChain.newest seen older) = told kind page (some last))

theorem told_stamp (kind : Kind) (page : Except Error (kind.Record × List Property)) (writer : Nat)
    (v : Version) : told kind page (some (stamp writer v)) = told kind page (some v) := by
  unfold stamp
  split <;> rfl

/-- What a reader is told after a write, against what it was told before. -/
theorem told_written (kind : Kind) (page : Except Error (kind.Record × List Property))
    (txnManager : TransactionManager) (reader : Nat) (version : Version)
    (other : kind.pick version.data = none) (chain : List Version) :
    let seen := isVersionVisible txnManager reader
    (told kind page (VersionChain.newest seen (MvccHistory.written version chain)) =
        told kind page (VersionChain.newest seen chain)) ↔
      (seen version = true → told kind page (VersionChain.newest seen chain) = page) ∧
      (seen version = false → ∀ older last, chain = older ++ [last] → seen last = true →
        seen (stamp version.createdTxId last) = false →
          told kind page (VersionChain.newest seen older) = told kind page (some last)) := by
  intro seen
  rw [MvccHistory.written,VersionChain.newest_concat]
  cases sees : seen version with
  | true =>
    have sent : told kind page (some version) = page := by simp [told,other]
    simp only [if_true,sent,forall_const,Bool.true_eq_false,false_implies,and_true]
    exact eq_comm
  | false =>
    simp only [Bool.false_eq_true,if_false,false_implies,true_and,forall_const]
    cases chain using List.reverseRecOn with
    | nil => simp [MvccHistory.modifyLast_nil]
    | append_singleton front last =>
      rw [List.modifyLast_concat,VersionChain.newest_concat,VersionChain.newest_concat]
      have split : (∀ older final, front ++ [last] = older ++ [final] → seen final = true →
          seen (stamp version.createdTxId final) = false →
            told kind page (VersionChain.newest seen older) = told kind page (some final)) ↔
          (seen last = true → seen (stamp version.createdTxId last) = false →
            told kind page (VersionChain.newest seen front) = told kind page (some last)) := by
        refine ⟨fun all => all front last rfl,fun one older final same => ?_⟩
        obtain ⟨rfl,final⟩ := List.append_inj' same rfl
        cases final
        exact one
      rw [split]
      cases kept : seen (stamp version.createdTxId last) with
      | true =>
        have before : seen last = true := stamp_hides _ _ _ _ kept
        simp [before,told_stamp]
      | false =>
        cases before : seen last with
        | true => simp
        | false => simp

/-- In every state that a history reaches, a successful operation on one kind of record
leaves all reads of the other kind alone exactly when its version disturbs no reader. -/
theorem kinds_apart_iff [LawfulPageStore σ] (hash : Bytes → UInt64) (pages : σ)
    (wal : Option WALManager) (calls : List Call) (txId : Nat) (operation : Operation) (id : UInt64)
    (history : History hash (opened pages wal) (calls ++ [.perform txId operation]))
    (finished : (perform hash txId (after hash (opened pages wal) calls) operation).1 =
      some (.ok id)) :
    let before := after hash (opened pages wal) calls
    let later := after hash (opened pages wal) (calls ++ [.perform txId operation])
    (∀ reader key, (getTx operation.kind.other reader key later).1 =
        (getTx operation.kind.other reader key before).1) ↔
      Undisturbed operation.kind.other (operation.key before)
        (operation.version hash txId before) before := by
  intro before later
  have sound : Sound before := history_sound hash pages wal calls ((guarded_append _ _ _).mp history).1
  have reached : later = (perform hash txId before operation).2 := after_perform ..
  obtain ⟨next,touched,⟨e,failed⟩ | ⟨log,done⟩⟩ :=
    perform_spec hash txId before operation (mvcc before) sound.enabled sound.versions.free
  · rw [failed] at finished
    cases finished
  rw [done] at reached
  obtain ⟨sameTables,_,chains⟩ := MvccHistory.write_step (mvcc before) sound.versions.free
    (operation.key before) (operation.version hash txId before)
  have versions : mvcc later = MvccHistory.step (mvcc before)
      (.write (operation.key before) (operation.version hash txId before)) := by
    rw [reached]
    rfl
  have enabled : later.mvccManager = some (mvcc later) := by
    rw [versions,reached]
  have page (key : UInt64) :
      (get operation.kind.other key later).1 = (get operation.kind.other key before).1 := by
    apply get_congr _ _ before later sound.placed
    · rw [reached]
      exact touched.pages
    · rw [reached]
      refine touched.index _ _ fun same => ?_
      cases found : operation.kind <;> simp [found,Kind.other] at same
  have foreign : operation.kind.other.pick (operation.version hash txId before).data = none := by
    cases operation <;> rfl
  have reads (reader : Nat) (key : UInt64) :
      (getTx operation.kind.other reader key later).1 =
        told operation.kind.other (get operation.kind.other key before).1
          (VersionChain.newest (isVersionVisible (mvcc before).txnManager reader)
            (if key = operation.key before then
              MvccHistory.written (operation.version hash txId before) ((mvcc before).chain key)
            else (mvcc before).chain key)) := by
    rw [(getTx_spec _ reader key later enabled).1,page,versions,sameTables,chains]
    split
    · rename_i here
      rw [here]
    · rfl
  have compared (reader : Nat) := told_written operation.kind.other
    (get operation.kind.other (operation.key before) before).1 (mvcc before).txnManager reader
    (operation.version hash txId before) foreign ((mvcc before).chain (operation.key before))
  constructor
  · intro unchanged reader
    apply (compared reader).mp
    have same := unchanged reader (operation.key before)
    rwa [reads,if_pos rfl,(getTx_spec _ reader _ before sound.enabled).1] at same
  · intro undisturbed reader key
    rw [reads,(getTx_spec _ reader key before sound.enabled).1]
    split
    · rename_i here
      subst here
      exact (compared reader).mpr (undisturbed reader)
    · rfl

/-- A live version of an active transaction disturbs nobody where the only version under
the key is committed and unchanged on its page. -/
theorem settled_undisturbed [PageStore σ] (kind : Kind) (key : UInt64) (version : Version)
    (store : GraphStore σ) (v : Version) (chain : (mvcc store).chain key = [v])
    (live : v.deletedTxId = 0)
    (committed : (mvcc store).txnManager.isTransactionCommitted v.createdTxId = true)
    (order : v.createdTxId < version.createdTxId) (fresh : version.deletedTxId = 0)
    (pending : (mvcc store).txnManager.isTransactionCommitted version.createdTxId = false)
    (record : kind.Record) (picked : kind.pick v.data = some record)
    (page : (get kind key store).1 = .ok (record,v.properties)) :
    Undisturbed kind key version store := by
  intro reader
  have sees : isVersionVisible (mvcc store).txnManager reader v = true ↔ v.createdTxId ≤ reader := by
    rw [visible_iff]
    simp only [live,committed,true_or,and_true]
    omega
  have own : isVersionVisible (mvcc store).txnManager reader version = true ↔
      version.createdTxId = reader := by
    simp [visible_iff,fresh,pending]
  dsimp only
  constructor
  · intro mine
    have below := sees.mpr (own.mp mine ▸ Nat.le_of_lt order)
    simp [chain,VersionChain.newest,below,told,picked,page]
  · intro foreign older last split before hidden
    obtain ⟨_,final⟩ := List.append_inj' (show [] ++ [v] = older ++ [last] from chain.symm.trans split) rfl
    cases final
    -- the stamp of an active transaction hides the version from that transaction alone
    have kept : isVersionVisible (mvcc store).txnManager reader (stamp version.createdTxId v) = true := by
      have other : version.createdTxId ≠ reader := fun same => by simp [own.mpr same] at foreign
      have start := sees.mp before
      simp only [stamp,live,if_true]
      rw [visible_iff]
      rcases Nat.eq_or_lt_of_le start with same | below
      · exact .inl ⟨same,.inr other⟩
      · exact .inr ⟨below,committed,.inr ⟨other,by simp [pending]⟩⟩
    rw [kept] at hidden
    contradiction

def unhashed : Bytes → UInt64 := fun _ => 0

theorem created_on_page (txId : Nat) (store : GraphStore FilePageStore)
    (isOpen : store.pageStore.isClosed = false) (first : store.nextNodeId = 1) :
    (getNode 1 (perform unhashed txId store (.createNode [])).2).1 = .ok ({id := 1},[]) := by
  have created := createNode_reads [] isOpen (by rw [first]; decide +kernel)
  obtain ⟨_,_,same⟩ := createNodeTx_keeps txId [] store
  rw [first] at created
  rw [perform,same,← show _ = Except.ok (({id := 1},[]) : NodeRecord × List Property) from created]
  exact get_same .node 1 _ _ rfl rfl

/-- An uncommitted node and an edge of another transaction get the same id. -/
def sharedId : List Call := [.begin,.begin,.perform 1 (.createNode [])]

def sharing : Operation := .createEdge 0 1 1 [] []

theorem shared_id_disturbs :
    let before := after unhashed (opened ({} : FilePageStore) none) sharedId
    let later := after unhashed (opened ({} : FilePageStore) none) (sharedId ++ [.perform 2 sharing])
    History unhashed (opened ({} : FilePageStore) none) (sharedId ++ [.perform 2 sharing]) ∧
      (perform unhashed 2 before sharing).1 = some (.ok 1) ∧
      (getNodeTx 2 1 before).1 = .error ⟨.notFound,"Node not visible"⟩ ∧
      (getNodeTx 2 1 later).1 ≠ (getNodeTx 2 1 before).1 := by
  intro before later
  have facts : History unhashed (opened ({} : FilePageStore) none) (sharedId ++ [.perform 2 sharing]) ∧
      (perform unhashed 2 before sharing).1 = some (.ok 1) ∧
      (getNodeTx 2 1 before).1 = .error ⟨.notFound,"Node not visible"⟩ ∧
      VersionChain.newest (isVersionVisible (mvcc later).txnManager 2) ((mvcc later).chain 1) =
        some (sharing.version unhashed 2 before) := by decide +kernel
  obtain ⟨history,finished,hidden,newest⟩ := facts
  refine ⟨history,finished,hidden,?_⟩
  have sound : Sound before := history_sound _ _ _ _ ((guarded_append _ _ _).mp history).1
  have final : Sound later := history_sound _ _ _ _ history
  have frame := (perform_frame unhashed 2 before sharing sound).1
  have read : (getNode 1 before).1 = .ok ({id := 1},[]) := by
    simp only [before,after,sharedId,run_cons,run_nil,step]
    exact created_on_page 1 (manage .begin (manage .begin (opened {} none))) rfl rfl
  rw [← show (getNode 1 later).1 = (getNode 1 before).1 from
    frame.records .node 1 (by simp [sharing,Operation.kind])] at read
  have sent := (getTx_spec .node 2 1 later final.enabled).1
  rw [newest,show (GraphHistory.get .node 1 later).1 = _ from read] at sent
  rw [hidden,show (getNodeTx 2 1 later).1 = .ok ({id := 1},[]) from sent]
  intro absurd
  cases absurd

/-- The node is committed and unchanged on its page when the edge gets its id. -/
def sharedCommitted : List Call := [.begin,.perform 1 (.createNode []),.commit 1,.begin]

theorem committed_on_page :
    (getNode 1 (after unhashed (opened ({} : FilePageStore) none) sharedCommitted)).1 =
      .ok ({id := 1},[]) := by
  simp only [after,sharedCommitted,run_cons,run_nil,step]
  exact (manage_reads .begin .node 1 _).trans ((manage_reads (.commit 1) .node 1 _).trans
    (created_on_page 1 (manage .begin (opened {} none)) rfl rfl))

theorem kinds_apart_committed :
    (fun reader key => (getNodeTx reader key
        (after unhashed (opened ({} : FilePageStore) none) (sharedCommitted ++ [.perform 2 sharing]))).1) =
      fun reader key =>
        (getNodeTx reader key (after unhashed (opened ({} : FilePageStore) none) sharedCommitted)).1 := by
  let before := after unhashed (opened ({} : FilePageStore) none) sharedCommitted
  have facts : History unhashed (opened ({} : FilePageStore) none)
        (sharedCommitted ++ [.perform 2 sharing]) ∧
      (perform unhashed 2 before sharing).1 = some (.ok 1) ∧
      sharing.key before = 1 ∧
      (mvcc before).chain 1 = [{createdTxId := 1, data := .node {id := 1}}] ∧
      (mvcc before).txnManager.isTransactionCommitted 1 = true ∧
      (sharing.version unhashed 2 before).createdTxId = 2 ∧
      (mvcc before).txnManager.isTransactionCommitted 2 = false := by decide +kernel
  obtain ⟨history,finished,key,chain,committed,writer,pending⟩ := facts
  have undisturbed := settled_undisturbed .node 1 (sharing.version unhashed 2 before)
    before {createdTxId := 1, data := .node {id := 1}} chain rfl committed
    (by rw [writer]; decide) rfl (by rw [writer]; exact pending) {id := 1} rfl committed_on_page
  rw [← key] at undisturbed
  ext1 reader
  ext1 id
  exact (kinds_apart_iff unhashed ({} : FilePageStore) none sharedCommitted 2 sharing 1
    history finished).mpr undisturbed reader id

end LoreDB.Storage.SharedKeys
