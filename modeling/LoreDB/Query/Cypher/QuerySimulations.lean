import LoreDB.Query.Cypher.QueryAgreement
import LoreDB.Storage.OpenStores
import LoreDB.Storage.SkippedTransaction

/-! The simulations between databases that queries respect: equality, with and without versions, and
one more transaction id used up on one side. -/
namespace LoreDB.Query.Cypher
open LoreDB.Storage LoreDB.Storage.GraphHistory LoreDB.Storage.OpenStores
  LoreDB.Storage.SkippedTransaction LoreDB.Transaction LoreDB.Transaction.SkippedId GraphStore

section Unversioned

/-- A graph store without versions, as a shell session has it. -/
def Unversioned (store : Graph) : Prop := store.mvccManager = none ∧ IsOpen store

theorem manage_unversioned (change : MVCCManager → MVCCManager) (db : Database)
    (unversioned : Unversioned db.graphStore) : (db.manage change).graphStore = db.graphStore := by
  unfold Database.manage
  rw [unversioned.1]

theorem chosen_plain {α : Type} (transactional : Option (Except Error α) × Graph)
    (plain : Except Error α × Graph) (store : Graph) (unversioned : Unversioned store) :
    ExecutionContext.choose transactional plain store = (some plain.1,plain.2) := by
  simp [ExecutionContext.choose,ExecutionContext.hasMvcc,unversioned.1]

theorem plain_agree {α : Type} (first second : Option (Except Error α) × Graph)
    (plain : Except Error α × Graph) (store : Graph) (unversioned : Unversioned store)
    (kind : Kind) (id : UInt64) (touched : Touches kind id store plain.2) (isOpen : IsOpen plain.2) :
    Agree (fun s s' => s = s' ∧ Unversioned s) (ExecutionContext.choose first plain store)
      (ExecutionContext.choose second plain store) := by
  rw [chosen_plain first plain store unversioned,chosen_plain second plain store unversioned]
  exact ⟨rfl,rfl,touched.versions.trans unversioned.1,isOpen⟩

theorem unversioned_alike (t u : Nat) : Alike (fun s s' => s = s' ∧ Unversioned s) t u where
  views := by
    rintro store _ ⟨rfl,unversioned⟩
    simp [ExecutionContext.view,ExecutionContext.getNode,ExecutionContext.getEdge,
      ExecutionContext.hasMvcc,unversioned.1]
  createNode := by
    rintro properties store _ ⟨rfl,unversioned⟩
    exact plain_agree _ _ _ store unversioned _ _ (createNode_touches properties store).1
      (plain_opens (fun _ => 0) (.createNode properties) unversioned.2)
  updateNode := by
    rintro nodeId properties store _ ⟨rfl,unversioned⟩
    exact plain_agree _ _ _ store unversioned _ _ (updateNode_touches nodeId properties store)
      (plain_opens (fun _ => 0) (.updateNode nodeId properties) unversioned.2)
  deleteNode := by
    rintro nodeId store _ ⟨rfl,unversioned⟩
    exact plain_agree _ _ _ store unversioned _ _ (deleteNode_touches nodeId store)
      (plain_opens (fun _ => 0) (.deleteNode nodeId) unversioned.2)
  deleteEdge := by
    rintro edgeId store _ ⟨rfl,unversioned⟩
    exact plain_agree _ _ _ store unversioned _ _ (deleteEdge_touches edgeId store)
      (plain_opens (fun _ => 0) (.deleteEdge edgeId) unversioned.2)

theorem unversioned_simulates :
    Simulates (fun s s' => s = s' ∧ Unversioned s) fun _ _ s s' => s = s' ∧ Unversioned s := by
  have managed (change other : MVCCManager → MVCCManager) (d e : Database)
      (start : d.graphStore = e.graphStore ∧ Unversioned d.graphStore) :
      (d.manage change).graphStore = (e.manage other).graphStore ∧
        Unversioned (d.manage change).graphStore := by
    rw [manage_unversioned change d start.2,manage_unversioned other e (start.1 ▸ start.2)]
    exact start
  exact ⟨fun d e => managed _ _ d e,unversioned_alike,
    fun t u d e start => managed _ _ _ _ (managed _ _ d e start),
    fun t u d e start => managed _ _ _ _ (managed _ _ d e start)⟩

end Unversioned

section Versioned

/-- A graph store with versions that a history has left. -/
def Versioned (store : Graph) : Prop := Sound store ∧ IsOpen store

/-- The transaction of a query runs in it. -/
def Runs (t : Nat) (store : Graph) : Prop :=
  Versioned store ∧ (mvcc store).txnManager.Issued t

theorem Versioned.enabled {store : Graph} (versioned : Versioned store) :
    ExecutionContext.hasMvcc store = true := by
  rw [ExecutionContext.hasMvcc,versioned.1.enabled]
  rfl

theorem chosen_transactional {α : Type} (transactional : Option (Except Error α) × Graph)
    (plain : Except Error α × Graph) (store : Graph) (versioned : Versioned store) :
    ExecutionContext.choose transactional plain store = transactional := by
  rw [ExecutionContext.choose,if_pos versioned.enabled]

theorem runs_tables {t : Nat} {store next : Graph} (runs : Runs t store) (versioned : Versioned next)
    (same : tables next = tables store) : Runs t next := by
  unfold tables at same
  rw [versioned.1.enabled,runs.1.1.enabled] at same
  refine ⟨versioned,?_⟩
  rw [show (mvcc next).txnManager = (mvcc store).txnManager from Option.some.inj same]
  exact runs.2

theorem perform_runs {t : Nat} {store : Graph} (runs : Runs t store) (operation : Operation) :
    Versioned (perform (fun _ => 0) t store operation).2 :=
  ⟨step_sound (fun _ => 0) store (.perform t operation) runs.2 runs.1.1,
    perform_opens (fun _ => 0) t operation runs.1.2⟩

theorem createNode_runs {t : Nat} {store : Graph} (runs : Runs t store) (properties : List Property) :
    Runs t (ExecutionContext.createNode t properties store).2 := by
  refine runs_tables runs ?_ (createNode_tables t properties store)
  rw [ExecutionContext.createNode,chosen_transactional _ _ store runs.1]
  exact perform_runs runs (.createNode properties)

theorem updateNode_runs {t : Nat} {store : Graph} (runs : Runs t store) (nodeId : NodeId)
    (properties : List Property) :
    Runs t (ExecutionContext.updateNode t nodeId properties store).2 := by
  refine runs_tables runs ?_ (updateNode_tables t nodeId properties store)
  rw [ExecutionContext.updateNode,chosen_transactional _ _ store runs.1]
  exact perform_runs runs (.updateNode nodeId properties)

theorem deleteNode_runs {t : Nat} {store : Graph} (runs : Runs t store) (nodeId : NodeId) :
    Runs t (ExecutionContext.deleteNode t nodeId store).2 := by
  refine runs_tables runs ?_ (deleteNode_tables t nodeId store)
  rw [ExecutionContext.deleteNode,chosen_transactional _ _ store runs.1]
  exact perform_runs runs (.deleteNode nodeId)

theorem deleteEdge_runs {t : Nat} {store : Graph} (runs : Runs t store) (edgeId : EdgeId) :
    Runs t (ExecutionContext.deleteEdge t edgeId store).2 := by
  refine runs_tables runs ?_ (deleteEdge_tables t edgeId store)
  rw [ExecutionContext.deleteEdge,chosen_transactional _ _ store runs.1]
  exact perform_runs runs (.deleteEdge edgeId)

theorem manage_versioned (call : MvccHistory.Call) (db : Database) (versioned : Versioned db.graphStore) :
    (db.manage fun manager => MvccHistory.step manager call).graphStore =
      GraphHistory.manage call db.graphStore := by
  unfold Database.manage GraphHistory.manage
  rw [versioned.1.enabled]
  rfl

theorem begin_runs (db : Database) (versioned : Versioned db.graphStore) :
    db.beginTransaction.1.id = (mvcc db.graphStore).txnManager.nextTransactionId ∧
      db.beginTransaction.2.graphStore = GraphHistory.manage .begin db.graphStore ∧
      Runs db.beginTransaction.1.id db.beginTransaction.2.graphStore := by
  have manager : db.mvccManager = mvcc db.graphStore := by
    rw [Database.mvccManager,versioned.1.enabled]
    rfl
  have moved : db.beginTransaction.2.graphStore = GraphHistory.manage .begin db.graphStore :=
    manage_versioned .begin db versioned
  have identity : db.beginTransaction.1.id = (mvcc db.graphStore).txnManager.nextTransactionId := by
    rw [← manager]
    rfl
  refine ⟨identity,moved,?_⟩
  rw [moved,identity]
  have sound := step_sound (fun _ => 0) db.graphStore .begin trivial versioned.1
  refine ⟨⟨sound,versioned.2⟩,versioned.1.versions.wellformed.positive,?_⟩
  have same : mvcc (GraphHistory.manage .begin db.graphStore) =
      MvccHistory.step (mvcc db.graphStore) .begin := by
    rw [mvcc,manage_versions .begin db.graphStore versioned.1.enabled]
    rfl
  rw [same]
  exact Nat.lt_succ_self _

/-- The store after `unlock_all`. -/
def released (t : Nat) (store : Graph) : Graph :=
  swap (some {mvcc store with lockManager := (mvcc store).lockManager.unlockAll t}) store

theorem unlockAll_versioned (t : Nat) (db : Database) (versioned : Versioned db.graphStore) :
    (db.unlockAll t).graphStore = released t db.graphStore := by
  unfold Database.unlockAll Database.manage
  rw [versioned.1.enabled]
  rfl

theorem released_versioned (t : Nat) {store : Graph} (versioned : Versioned store) :
    Versioned (released t store) := by
  obtain ⟨⟨placed,_,wellformed,free,creators,stamps,linked⟩,isOpen⟩ := versioned
  refine ⟨⟨fun kind id page found => placed kind id page ?_,rfl,wellformed,fun key => ?_,creators,
    stamps,linked⟩,isOpen⟩
  · cases kind <;> exact found
  · simp [released,swap,mvcc,LockManager.unlockAll]
    simp [mvcc] at free
    simp [free]

theorem manage_swap (call : MvccHistory.Call) {store : Graph} (versioned : Versioned store) :
    GraphHistory.manage call store = swap (some (MvccHistory.step (mvcc store) call)) store := by
  unfold GraphHistory.manage
  rw [versioned.1.enabled]
  rfl

theorem ends_released (call : MvccHistory.Call) (t : Nat) (db : Database) (versioned : Versioned db.graphStore)
    (kept : Versioned (GraphHistory.manage call db.graphStore)) :
    ((db.manage fun manager => MvccHistory.step manager call).unlockAll t).graphStore =
      released t (GraphHistory.manage call db.graphStore) := by
  have moved := manage_versioned call db versioned
  rw [unlockAll_versioned t _ (moved ▸ kept),moved]

section Endings

variable {t : Nat} {db : Database} (runs : Runs t db.graphStore)
include runs

theorem commit_versioned :
    ((db.commitTransaction t).unlockAll t).graphStore =
        released t (GraphHistory.manage (.commit t) db.graphStore) ∧
      Versioned (GraphHistory.manage (.commit t) db.graphStore) := by
  have kept : Versioned (GraphHistory.manage (.commit t) db.graphStore) :=
    ⟨step_sound (fun _ => 0) db.graphStore (.commit t) runs.2 runs.1.1,runs.1.2⟩
  exact ⟨ends_released (.commit t) t db runs.1 kept,kept⟩

theorem abort_versioned :
    ((db.abortTransaction t).unlockAll t).graphStore =
        released t (GraphHistory.manage (.abort t) db.graphStore) ∧
      Versioned (GraphHistory.manage (.abort t) db.graphStore) := by
  have kept : Versioned (GraphHistory.manage (.abort t) db.graphStore) :=
    ⟨step_sound (fun _ => 0) db.graphStore (.abort t) runs.2 runs.1.1,runs.1.2⟩
  exact ⟨ends_released (.abort t) t db runs.1 kept,kept⟩

end Endings

/-- A database compared with itself: queries leave what a history guarantees. -/
theorem versioned_simulates : Simulates (fun s s' => s = s' ∧ Versioned s)
    fun t u s s' => t = u ∧ s = s' ∧ Runs t s where
  begins d e start := by
    obtain ⟨identity,moved,runs⟩ := begin_runs d start.2
    obtain ⟨same,later,_⟩ := begin_runs e (start.1 ▸ start.2)
    rw [start.1] at identity moved
    exact ⟨identity.trans same.symm,moved.trans later.symm,runs⟩
  alike t u := {
    views := by
      rintro store _ ⟨rfl,rfl,_⟩
      rfl
    createNode := by
      rintro properties store _ ⟨rfl,rfl,runs⟩
      exact ⟨rfl,rfl,rfl,createNode_runs runs properties⟩
    updateNode := by
      rintro nodeId properties store _ ⟨rfl,rfl,runs⟩
      exact ⟨rfl,rfl,rfl,updateNode_runs runs nodeId properties⟩
    deleteNode := by
      rintro nodeId store _ ⟨rfl,rfl,runs⟩
      exact ⟨rfl,rfl,rfl,deleteNode_runs runs nodeId⟩
    deleteEdge := by
      rintro edgeId store _ ⟨rfl,rfl,runs⟩
      exact ⟨rfl,rfl,rfl,deleteEdge_runs runs edgeId⟩}
  commits t u d e start := by
    obtain ⟨rfl,same,runs⟩ := start
    obtain ⟨ended,kept⟩ := commit_versioned runs
    obtain ⟨other,_⟩ := commit_versioned (same ▸ runs)
    rw [ended,other,same]
    exact ⟨rfl,released_versioned t (same ▸ kept)⟩
  aborts t u d e start := by
    obtain ⟨rfl,same,runs⟩ := start
    obtain ⟨ended,kept⟩ := abort_versioned runs
    obtain ⟨other,_⟩ := abort_versioned (same ▸ runs)
    rw [ended,other,same]
    exact ⟨rfl,released_versioned t (same ▸ kept)⟩

theorem Skipped.replaced {gap : Nat} {first second : Graph} (skipped : Skipped gap first second)
    (manager other : MVCCManager) (versions : Skips gap manager other)
    (free : ∀ key, manager.lockManager.lockTable key = [])
    (unlocked : ∀ key, other.lockManager.lockTable key = []) :
    Skipped gap (swap (some manager) first) (swap (some other) second) := by
  refine ⟨?_,rfl,versions,free,unlocked⟩
  rw [skipped.same]
  rfl

theorem released_skipped (t u : Nat) {gap : Nat} {first second : Graph}
    (skipped : Skipped gap first second) : Skipped gap (released t first) (released u second) := by
  refine Skipped.replaced skipped _ _ ?_ (fun key => ?_) fun key => ?_
  · obtain ⟨positive,reached,next,states,chains⟩ := skipped.versions
    exact ⟨positive,reached,next,states,chains⟩
  · simp [LockManager.unlockAll,skipped.free]
  · simp [LockManager.unlockAll,skipped.unlocked]

/-- Related by one more id used up on one side, while the transactions `t` and `u` run. -/
def RunSkipped (gap t u : Nat) (first second : Graph) : Prop :=
  t = shift gap u ∧ Skipped gap first second ∧ Runs t first ∧ Runs u second

theorem chosen_agree {α : Type} {gap t u : Nat} {first second : Graph}
    (start : RunSkipped gap t u first second) (call : Nat → Graph → Option (Except Error α) × Graph)
    (plain : Graph → Except Error α × Graph)
    (runs : ∀ t store, Runs t store → Runs t (ExecutionContext.choose (call t store) (plain store) store).2)
    (agree : (call (shift gap u) first).1 = (call u second).1 ∧
      Skipped gap (call (shift gap u) first).2 (call u second).2) :
    Agree (RunSkipped gap t u) (ExecutionContext.choose (call t first) (plain first) first)
      (ExecutionContext.choose (call u second) (plain second) second) := by
  obtain ⟨rfl,_,running,other⟩ := start
  have kept := runs _ first running
  have also := runs _ second other
  rw [chosen_transactional _ _ _ running.1] at kept ⊢
  rw [chosen_transactional _ _ _ other.1] at also ⊢
  exact ⟨agree.1,rfl,agree.2,kept,also⟩

theorem skipped_alike (gap t u : Nat) : Alike (RunSkipped gap t u) t u where
  views first second start := by
    obtain ⟨rfl,skipped,runs,running⟩ := start
    have reads := getTx_skipped skipped runs.1.1.versions.wellformed running.1.1.versions.wellformed
    unfold ExecutionContext.view ExecutionContext.getNode ExecutionContext.getEdge
    simp only [runs.1.enabled,running.1.enabled,if_true,View.mk.injEq]
    refine ⟨funext fun id => congrArg _ (reads .node u id),
      funext fun id => congrArg _ (reads .edge u id),?_,?_,?_⟩
    all_goals
      rw [skipped.same]
      rfl
  createNode properties first second start :=
    chosen_agree start (createNodeTx · properties ·) (GraphStore.createNode properties)
      (fun _ _ runs => createNode_runs runs properties) (createNodeTx_skipped start.2.1 u properties)
  updateNode nodeId properties first second start :=
    chosen_agree start (updateNodeTx · nodeId properties ·) (GraphStore.updateNode nodeId properties)
      (fun _ _ runs => updateNode_runs runs nodeId properties)
      (updateNodeTx_skipped start.2.1 u nodeId properties)
  deleteNode nodeId first second start :=
    chosen_agree start (deleteNodeTx · nodeId ·) (GraphStore.deleteNode nodeId)
      (fun _ _ runs => deleteNode_runs runs nodeId) (deleteNodeTx_skipped start.2.1 u nodeId)
  deleteEdge edgeId first second start :=
    chosen_agree start (deleteEdgeTx · edgeId ·) (GraphStore.deleteEdge edgeId)
      (fun _ _ runs => deleteEdge_runs runs edgeId) (deleteEdgeTx_skipped start.2.1 u edgeId)

/-- One more id used up on one side: transactions there have the shifted ids. -/
theorem skipped_simulates (gap : Nat) :
    Simulates (fun s s' => Skipped gap s s' ∧ Versioned s ∧ Versioned s')
      (RunSkipped gap) where
  begins d e start := by
    obtain ⟨skipped,versioned,other⟩ := start
    obtain ⟨identity,moved,runs⟩ := begin_runs d versioned
    obtain ⟨same,later,running⟩ := begin_runs e other
    refine ⟨?_,?_,runs,running⟩
    · rw [identity,same,next_shift skipped.versions]
    · rw [moved,later,manage_swap .begin versioned,manage_swap .begin other]
      exact Skipped.replaced skipped _ _ (begin_skips skipped.versions) skipped.free skipped.unlocked
  alike := skipped_alike gap
  commits t u d e start := by
    obtain ⟨rfl,skipped,runs,running⟩ := start
    obtain ⟨ended,kept⟩ := commit_versioned runs
    obtain ⟨other,also⟩ := commit_versioned running
    rw [ended,other]
    refine ⟨released_skipped _ _ ?_,released_versioned _ kept,released_versioned _ also⟩
    rw [manage_swap _ runs.1,manage_swap _ running.1]
    exact Skipped.replaced skipped _ _ (commit_skips skipped.versions u) skipped.free skipped.unlocked
  aborts t u d e start := by
    obtain ⟨rfl,skipped,runs,running⟩ := start
    obtain ⟨ended,kept⟩ := abort_versioned runs
    obtain ⟨other,also⟩ := abort_versioned running
    rw [ended,other]
    refine ⟨released_skipped _ _ ?_,released_versioned _ kept,released_versioned _ also⟩
    rw [manage_swap _ runs.1,manage_swap _ running.1]
    exact Skipped.replaced skipped _ _ (abort_skips skipped.versions u) skipped.free skipped.unlocked

end Versioned

end LoreDB.Query.Cypher
