import LoreDB.Library.Linearization
import LoreDB.Transaction.MvccHistory
import LoreDB.Transaction.Wakeups

/-! Transactions that write versions at the same time. A call of `write_version` takes the lock on its key, appends
its version under the mutex of the store and gives the lock back; anything may happen in between. -/
namespace LoreDB.Transaction.ConcurrentWrites
open Relation LoreDB.Library LoreDB.Library.History LoreDB.Library.Linearization LoreDB.Library.Cycles LockManager
  LockClients Wakeups

/-- Where a transaction is in its call of `write_version`. -/
inductive Stage where
  | outside
  | locking (key : UInt64) (version : Version)
  | locked (key : UInt64) (version : Version)
  | appended (key : UInt64)
  deriving DecidableEq, Repr

/-- `returned` lists what the calls have returned. -/
structure Writers where
  locks : System Nat := {}
  txnManager : TransactionManager := {}
  versions : UInt64 → Option (List Version) := fun _ => none
  stage : Nat → Stage := fun _ => .outside
  returned : List (Nat × Except MVCCError Unit) := []

inductive Call where
  | begin
  | commit (txId : Nat)
  | abort (txId : Nat)
  | collect (minActiveTxId : Nat)
  | write (key : UInt64) (version : Version)
  | wake (txId : Nat)
  | append (txId : Nat)
  | release (txId : Nat)

namespace Writers

def manager (writers : Writers) : MVCCManager where
  txnManager := writers.txnManager
  lockManager := writers.locks.manager
  versions := writers.versions

/-- A call that is made under the mutex as a whole. -/
def manage (call : MvccHistory.Call) (writers : Writers) : Writers :=
  let next := MvccHistory.step writers.manager call
  {writers with txnManager := next.txnManager, versions := next.versions}

/-- One pass of the wait loop. -/
def tryLock (key : UInt64) (version : Version) (writers : Writers) : Writers :=
  let (outcome,locks) := pass version.createdTxId ⟨version.createdTxId,key,.exclusive⟩ writers.locks
  match outcome with
  | .granted => {writers with
      locks := locks
      stage := Function.update writers.stage version.createdTxId (.locked key version)}
  | .waiting => {writers with
      locks := locks
      stage := Function.update writers.stage version.createdTxId (.locking key version)}
  | .refused => {writers with
      locks := locks
      stage := Function.update writers.stage version.createdTxId .outside
      returned := writers.returned ++ [(version.createdTxId,.error ⟨.conflict,"Deadlock detected"⟩)]}

/-- What is done under the mutex. -/
def appendVersion (txId : Nat) (key : UInt64) (version : Version) (writers : Writers) : Writers :=
  let vec := ((writers.versions key).getD []).modifyLast (stamp version.createdTxId)
  {writers with
    versions := Function.update writers.versions key (some (vec ++ [version]))
    stage := Function.update writers.stage txId (.appended key)}

/-- The guard gives the lock back when the call returns. -/
def releaseLock (txId : Nat) (key : UInt64) (writers : Writers) : Writers :=
  {writers with
    locks := LockClients.step writers.locks (.unlock txId txId key)
    stage := Function.update writers.stage txId .outside
    returned := writers.returned ++ [(txId,.ok ())]}

end Writers

/-- A transaction makes its calls one after the other. -/
def step (writers : Writers) : Call → Writers
  | .begin => writers.manage .begin
  | .commit txId => writers.manage (.commit txId)
  | .abort txId => writers.manage (.abort txId)
  | .collect minActiveTxId => writers.manage (.collect minActiveTxId)
  | .write key version =>
    if writers.stage version.createdTxId = .outside then writers.tryLock key version else writers
  | .wake txId =>
    match writers.stage txId with
    | .locking key version => writers.tryLock key version
    | _ => writers
  | .append txId =>
    match writers.stage txId with
    | .locked key version => writers.appendVersion txId key version
    | _ => writers
  | .release txId =>
    match writers.stage txId with
    | .appended key => writers.releaseLock txId key
    | _ => writers

/-- The whole call that a step is: a write takes effect when its version is appended. -/
def effect (writers : Writers) : Call → Option MvccHistory.Call
  | .begin => some .begin
  | .commit txId => some (.commit txId)
  | .abort txId => some (.abort txId)
  | .collect minActiveTxId => some (.collect minActiveTxId)
  | .append txId =>
    match writers.stage txId with
    | .locked key version => some (.write key version)
    | _ => none
  | .write _ _ | .wake _ | .release _ => none

theorem step_cases (writers : Writers) (call : Call) :
    (∃ managed, (∀ key version, managed ≠ .write key version) ∧ effect writers call = some managed ∧
      step writers call = writers.manage managed) ∨
    (∃ key version, (writers.stage version.createdTxId = .outside ∨ ∃ t, writers.stage t = .locking key version) ∧
      effect writers call = none ∧ step writers call = writers.tryLock key version) ∨
    (∃ t key version, writers.stage t = .locked key version ∧ effect writers call = some (.write key version) ∧
      step writers call = writers.appendVersion t key version) ∨
    (∃ t key, writers.stage t = .appended key ∧ effect writers call = none ∧
      step writers call = writers.releaseLock t key) ∨
    (effect writers call = none ∧ step writers call = writers) := by
  cases call with
  | begin => exact .inl ⟨.begin,by simp,rfl,rfl⟩
  | commit txId => exact .inl ⟨.commit txId,by simp,rfl,rfl⟩
  | abort txId => exact .inl ⟨.abort txId,by simp,rfl,rfl⟩
  | collect minActiveTxId => exact .inl ⟨.collect minActiveTxId,by simp,rfl,rfl⟩
  | write key version =>
    by_cases outside : writers.stage version.createdTxId = .outside
    · exact .inr (.inl ⟨key,version,.inl outside,rfl,if_pos outside⟩)
    · exact .inr (.inr (.inr (.inr ⟨rfl,if_neg outside⟩)))
  | wake txId =>
    cases stage : writers.stage txId with
    | locking key version => exact .inr (.inl ⟨key,version,.inr ⟨txId,stage⟩,rfl,by simp only [step,stage]⟩)
    | outside | locked key version | appended key => exact .inr (.inr (.inr (.inr ⟨rfl,by simp only [step,stage]⟩)))
  | append txId =>
    cases stage : writers.stage txId with
    | locked key version =>
      exact .inr (.inr (.inl ⟨txId,key,version,stage,by simp only [effect,stage],by simp only [step,stage]⟩))
    | outside | locking key version | appended key =>
      exact .inr (.inr (.inr (.inr ⟨by simp only [effect,stage],by simp only [step,stage]⟩)))
  | release txId =>
    cases stage : writers.stage txId with
    | appended key => exact .inr (.inr (.inr (.inl ⟨txId,key,stage,rfl,by simp only [step,stage]⟩)))
    | outside | locking key version | locked key version =>
      exact .inr (.inr (.inr (.inr ⟨rfl,by simp only [step,stage]⟩)))

/-- Whoever waits holds nothing, whoever holds a lock is writing, and only sleepers have edges in the waits-for
graph. -/
structure Orderly (writers : Writers) : Prop where
  alert : Alert writers.locks
  sleeping : ∀ t key version, writers.stage t = .locking key version → version.createdTxId = t ∧
    ∃ notified, writers.locks.phase t = .waiting ⟨t,key,.exclusive⟩ notified
  awake : ∀ t, (∀ key version, writers.stage t ≠ .locking key version) → writers.locks.phase t = .idle
  writing : ∀ t key version, writers.stage t = .locked key version → version.createdTxId = t
  holders : ∀ key, ∀ request ∈ writers.locks.manager.lockTable key,
    (∃ version, writers.stage request.txId = .locked key version) ∨ writers.stage request.txId = .appended key
  edges : ∀ u v, WaitsFor writers.locks.manager.waitsForGraph u v → ∃ key version, writers.stage u = .locking key version
  returned : ∀ result ∈ writers.returned, result.2 = .ok ()

/-- From a writer the search for a circle comes to those who hold the lock, and no further. -/
theorem no_circle {writers : Writers} (orderly : Orderly writers) (attempt : Attempt) :
    ¬∃ x, ReflTransGen (searched writers.locks.manager attempt) attempt.txId x ∧
      TransGen (searched writers.locks.manager attempt) x x := by
  have holds (u : Nat) (edge : searched writers.locks.manager attempt attempt.txId u) :
      u ≠ attempt.txId ∧ ∀ v, ¬searched writers.locks.manager attempt u v := by
    obtain ⟨request,member,blocking,rfl⟩ := (redirect_here ..).mp edge
    have other : request.txId ≠ attempt.txId := by
      rintro own
      simp [blocks,own] at blocking
    refine ⟨other,fun v further => ?_⟩
    obtain ⟨key,version,locking⟩ := orderly.edges _ v ((redirect_elsewhere _ _ _ _ other).mp further)
    rcases orderly.holders _ request member with ⟨_,locked⟩ | appended
    · rw [locking] at locked
      cases locked
    · rw [locking] at appended
      cases appended
  have stuck (u v : Nat) (edge : searched writers.locks.manager attempt attempt.txId u)
      (further : TransGen (searched writers.locks.manager attempt) u v) : False := by
    obtain ⟨next,first,_⟩ := TransGen.head'_iff.mp further
    exact (holds u edge).2 next first
  rintro ⟨x,reached,circle⟩
  obtain ⟨next,first,rest⟩ := TransGen.head'_iff.mp circle
  rcases ReflTransGen.cases_head reached with rfl | ⟨u,edge,onward⟩
  · rcases ReflTransGen.cases_head rest with back | ⟨v,further,_⟩
    · exact (holds next first).1 back
    · exact (holds next first).2 v further
  · rcases ReflTransGen.cases_head onward with rfl | ⟨v,further,_⟩
    · exact stuck u u edge circle
    · exact (holds u edge).2 v further

/-- A pass is granted the lock or goes to sleep. -/
theorem tryLock_cases {writers : Writers} (orderly : Orderly writers) (key : UInt64) (version : Version) :
    let t := version.createdTxId
    let locks := (pass t ⟨t,key,.exclusive⟩ writers.locks).2
    (writers.tryLock key version = {writers with
        locks := locks, stage := Function.update writers.stage t (.locked key version)} ∧
      locks.phase = Function.update writers.locks.phase t .idle ∧
      locks.manager.lockTable = Function.update writers.locks.manager.lockTable key
        (writers.locks.manager.lockTable key ++ [⟨t,.exclusive,true⟩]) ∧
      ∀ u v, WaitsFor locks.manager.waitsForGraph u v ↔ u ≠ t ∧ WaitsFor writers.locks.manager.waitsForGraph u v) ∨
    (writers.tryLock key version = {writers with
        locks := locks, stage := Function.update writers.stage t (.locking key version)} ∧
      locks.phase = Function.update writers.locks.phase t (.waiting ⟨t,key,.exclusive⟩ false) ∧
      locks.manager.lockTable = writers.locks.manager.lockTable ∧
      ∀ u v, u ≠ t → WaitsFor locks.manager.waitsForGraph u v → WaitsFor writers.locks.manager.waitsForGraph u v) := by
  intro t locks
  have cases := lock_cases writers.locks.manager ⟨t,key,.exclusive⟩
  unfold locks
  unfold Writers.tryLock LockClients.pass
  dsimp only at cases ⊢
  cases done : writers.locks.manager.lock t key .exclusive with
  | mk outcome manager =>
    rw [done] at cases
    obtain ⟨_,granted,table,graph⟩ | ⟨_,_,_,_,circle⟩ | ⟨_,waits,table,graph,_⟩ := cases
    · dsimp only at granted
      subst granted
      exact .inl ⟨rfl,rfl,table,graph⟩
    · exact absurd circle (no_circle orderly ⟨t,key,.exclusive⟩)
    · dsimp only at waits
      subst waits
      refine .inr ⟨rfl,rfl,table,fun u v other edge => ?_⟩
      rw [graph] at edge
      exact (redirect_elsewhere _ _ _ _ other).mp edge

theorem tryLock_orderly {writers : Writers} (orderly : Orderly writers) (key : UInt64) (version : Version)
    (unlocked : ∀ key version', writers.stage version.createdTxId ≠ .locked key version')
    (unappended : ∀ key, writers.stage version.createdTxId ≠ .appended key) :
    Orderly (writers.tryLock key version) := by
  have alert : Alert (pass version.createdTxId ⟨version.createdTxId,key,.exclusive⟩ writers.locks).2 :=
    pass_alert _ _ _ orderly.alert
  have others (stage : Stage) (other : ResourceId) (request : LockRequest)
      (member : request ∈ writers.locks.manager.lockTable other) :
      (∃ held, Function.update writers.stage version.createdTxId stage request.txId = .locked other held) ∨
        Function.update writers.stage version.createdTxId stage request.txId = .appended other := by
    have holds := orderly.holders other request member
    have apart : request.txId ≠ version.createdTxId := by
      rintro same
      rw [same] at holds
      rcases holds with ⟨held,locked⟩ | appended
      · exact unlocked other held locked
      · exact unappended other appended
    rwa [Function.update_of_ne apart]
  obtain ⟨same,phase,table,graph⟩ | ⟨same,phase,table,graph⟩ := tryLock_cases orderly key version
  · rw [same]
    refine ⟨alert,fun t other held locking => ?_,fun t free => ?_,fun t other held locked => ?_,
      fun other request member => ?_,fun u v edge => ?_,orderly.returned⟩
    · dsimp only at locking ⊢
      rw [phase]
      rw [Function.update_apply] at locking ⊢
      split at locking
      · cases locking
      · rename_i apart
        rw [if_neg apart]
        exact orderly.sleeping t other held locking
    · dsimp only at free ⊢
      rw [phase,Function.update_apply]
      split
      · rfl
      · rename_i apart
        exact orderly.awake t fun other held locking => free other held (by rw [Function.update_of_ne apart,locking])
    · dsimp only at locked
      rw [Function.update_apply] at locked
      split at locked
      · rename_i here
        cases locked
        exact here.symm
      · exact orderly.writing t other held locked
    · dsimp only at member ⊢
      rw [table,Function.update_apply] at member
      split at member
      · rename_i here
        subst here
        rcases List.mem_append.mp member with old | new
        · exact others _ other request old
        · rw [List.mem_singleton.mp new]
          exact .inl ⟨version,Function.update_self ..⟩
      · exact others _ other request member
    · obtain ⟨apart,before⟩ := (graph u v).mp edge
      dsimp only
      rw [Function.update_of_ne apart]
      exact orderly.edges u v before
  · rw [same]
    refine ⟨alert,fun t other held locking => ?_,fun t free => ?_,fun t other held locked => ?_,
      fun other request member => ?_,fun u v edge => ?_,orderly.returned⟩
    · dsimp only at locking ⊢
      rw [phase]
      rw [Function.update_apply] at locking ⊢
      split at locking
      · rename_i here
        cases locking
        exact ⟨here.symm,false,by rw [if_pos here,here]⟩
      · rename_i apart
        rw [if_neg apart]
        exact orderly.sleeping t other held locking
    · dsimp only at free ⊢
      rw [phase,Function.update_apply]
      split
      · rename_i here
        exact absurd (by rw [here,Function.update_self]) (free key version)
      · rename_i apart
        exact orderly.awake t fun other held locking => free other held (by rw [Function.update_of_ne apart,locking])
    · dsimp only at locked
      rw [Function.update_apply] at locked
      split at locked
      · cases locked
      · exact orderly.writing t other held locked
    · dsimp only at member
      rw [table] at member
      exact others _ other request member
    · dsimp only
      by_cases here : u = version.createdTxId
      · rw [here]
        exact ⟨key,version,Function.update_self ..⟩
      · rw [Function.update_of_ne here]
        exact orderly.edges u v (graph u v here edge)

theorem manage_orderly {writers : Writers} (orderly : Orderly writers) (call : MvccHistory.Call) :
    Orderly (writers.manage call) :=
  ⟨orderly.alert,orderly.sleeping,orderly.awake,orderly.writing,orderly.holders,orderly.edges,orderly.returned⟩

theorem append_orderly {writers : Writers} (orderly : Orderly writers) (t : Nat) (key : UInt64) (version : Version)
    (locked : writers.stage t = .locked key version) : Orderly (writers.appendVersion t key version) := by
  unfold Writers.appendVersion
  refine ⟨orderly.alert,fun u other held locking => ?_,fun u free => ?_,fun u other held holds => ?_,
    fun other request member => ?_,fun u v edge => ?_,orderly.returned⟩
  · dsimp only at locking
    rw [Function.update_apply] at locking
    split at locking
    · cases locking
    · exact orderly.sleeping u other held locking
  · refine orderly.awake u fun other held locking => free other held ?_
    have apart : u ≠ t := by
      rintro rfl
      rw [locked] at locking
      cases locking
    dsimp only
    rw [Function.update_of_ne apart,locking]
  · dsimp only at holds
    rw [Function.update_apply] at holds
    split at holds
    · cases holds
    · exact orderly.writing u other held holds
  · have holds := orderly.holders other request member
    dsimp only
    rw [Function.update_apply]
    split
    · rename_i here
      rw [here,locked] at holds
      rcases holds with ⟨held,same⟩ | absurd
      · cases same
        exact .inr rfl
      · cases absurd
    · exact holds
  · obtain ⟨other,held,locking⟩ := orderly.edges u v edge
    have apart : u ≠ t := by
      rintro rfl
      rw [locked] at locking
      cases locking
    exact ⟨other,held,by dsimp only; rw [Function.update_of_ne apart,locking]⟩

theorem release_orderly {writers : Writers} (orderly : Orderly writers) (t : Nat) (key : UInt64)
    (appended : writers.stage t = .appended key) :
    Orderly (writers.releaseLock t key) := by
  have idle : writers.locks.phase t = .idle := orderly.awake t fun other held locking => by
    rw [appended] at locking
    cases locking
  have stepped : LockClients.step writers.locks (.unlock t t key) = {writers.locks with
      manager := writers.locks.manager.unlock t key
      phase := if writers.locks.entered key then notifyAll writers.locks.phase else writers.locks.phase} := by
    simp only [LockClients.step,attempted,idle,if_true]
  have alert := step_alert writers.locks (.unlock t t key) orderly.alert
  unfold Writers.releaseLock
  rw [stepped] at alert ⊢
  refine ⟨alert,fun u other held locking => ?_,fun u free => ?_,fun u other held holds => ?_,
    fun other request member => ?_,fun u v edge => ?_,fun result member => ?_⟩
  · dsimp only at locking ⊢
    rw [Function.update_apply] at locking
    split at locking
    · cases locking
    · obtain ⟨own,notified,asleep⟩ := orderly.sleeping u other held locking
      refine ⟨own,?_⟩
      split
      · exact ⟨true,by rw [notifyAll,asleep]⟩
      · exact ⟨notified,asleep⟩
  · dsimp only at free ⊢
    have before : writers.locks.phase u = .idle := by
      by_cases here : u = t
      · rw [here,idle]
      · exact orderly.awake u fun other held locking => free other held (by rw [Function.update_of_ne here,locking])
    split
    · exact (notified_idle ..).mpr before
    · exact before
  · dsimp only at holds
    rw [Function.update_apply] at holds
    split at holds
    · cases holds
    · exact orderly.writing u other held holds
  · dsimp only at member ⊢
    have holds := orderly.holders other request (unlock_fewer t key other _ request member)
    have apart : request.txId ≠ t := by
      intro own
      rw [own,appended] at holds
      rcases holds with ⟨held,absurd⟩ | same
      · cases absurd
      · cases same
        simp [unlock,own] at member
    rwa [Function.update_of_ne apart]
  · obtain ⟨other,held,locking⟩ := orderly.edges u v edge
    have apart : u ≠ t := by
      rintro rfl
      rw [appended] at locking
      cases locking
    exact ⟨other,held,by dsimp only; rw [Function.update_of_ne apart,locking]⟩
  · rcases List.mem_append.mp member with old | new
    · exact orderly.returned result old
    · rw [List.mem_singleton.mp new]

theorem step_orderly (writers : Writers) (call : Call) (orderly : Orderly writers) : Orderly (step writers call) := by
  obtain ⟨managed,_,_,same⟩ | ⟨key,version,ready,_,same⟩ | ⟨t,key,version,locked,_,same⟩ | ⟨t,key,appended,_,same⟩ |
    ⟨_,same⟩ := step_cases writers call
  · rw [same]
    exact manage_orderly orderly managed
  · rw [same]
    rcases ready with outside | ⟨t,locking⟩
    · exact tryLock_orderly orderly key version (by simp [outside]) (by simp [outside])
    · obtain ⟨rfl,_⟩ := orderly.sleeping t key version locking
      exact tryLock_orderly orderly key version (by simp [locking]) (by simp [locking])
  · rw [same]
    exact append_orderly orderly t key version locked
  · rw [same]
    exact release_orderly orderly t key appended
  · rwa [same]

theorem initial_orderly : Orderly {} where
  alert := initial_alert
  sleeping _ _ _ locking := by cases locking
  awake _ _ := rfl
  writing _ _ _ locked := by cases locked
  holders _ _ member := absurd member List.not_mem_nil
  edges _ _ edge := absurd edge List.not_mem_nil
  returned _ member := absurd member List.not_mem_nil

/-! The writes as whole calls. -/

/-- The whole calls have made the same transactions and versions, and have no locks left. -/
structure Follows (writers : Writers) (manager : MVCCManager) : Prop where
  orderly : Orderly writers
  transactions : writers.txnManager = manager.txnManager
  versions : writers.versions = manager.versions
  free : ∀ key, manager.lockManager.lockTable key = []

theorem manage_follows {writers : Writers} {manager : MVCCManager} (follows : Follows writers manager)
    (call : MvccHistory.Call) (other : ∀ key version, call ≠ .write key version) :
    Follows (writers.manage call) (MvccHistory.step manager call) := by
  obtain ⟨orderly,transactions,versions,free⟩ := follows
  obtain ⟨txnManager,lockManager,_⟩ := manager
  cases transactions
  cases versions
  cases call with
  | write key version => exact absurd rfl (other key version)
  | begin => exact ⟨manage_orderly orderly .begin,rfl,rfl,free⟩
  | commit txId => exact ⟨manage_orderly orderly (.commit txId),rfl,rfl,free⟩
  | abort txId => exact ⟨manage_orderly orderly (.abort txId),rfl,rfl,free⟩
  | collect minActiveTxId => exact ⟨manage_orderly orderly (.collect minActiveTxId),rfl,rfl,free⟩

theorem tryLock_silent {writers : Writers} (orderly : Orderly writers) (key : UInt64) (version : Version) :
    (writers.tryLock key version).txnManager = writers.txnManager ∧
      (writers.tryLock key version).versions = writers.versions := by
  obtain ⟨same,_⟩ | ⟨same,_⟩ := tryLock_cases orderly key version
  · rw [same]
    exact ⟨rfl,rfl⟩
  · rw [same]
    exact ⟨rfl,rfl⟩

theorem append_follows {writers : Writers} {manager : MVCCManager} (follows : Follows writers manager) (t : Nat)
    (key : UInt64) (version : Version) (locked : writers.stage t = .locked key version) :
    Follows (writers.appendVersion t key version) (MvccHistory.step manager (.write key version)) := by
  obtain ⟨locks,unlocked,returned⟩ := manager.write_returns key version follows.free
  refine ⟨append_orderly follows.orderly t key version locked,?_,?_,?_⟩
  · simpa [MvccHistory.step,returned,Writers.appendVersion] using follows.transactions
  · simp [MvccHistory.step,returned,Writers.appendVersion,follows.versions,MVCCManager.chain]
  · simpa [MvccHistory.step,returned] using unlocked

theorem step_follows (writers : Writers) (manager : MVCCManager) (call : Call) (follows : Follows writers manager) :
    Follows (step writers call) (run MvccHistory.step manager (effect writers call).toList) := by
  have orderly := step_orderly writers call follows.orderly
  obtain ⟨managed,other,effective,same⟩ | ⟨key,version,_,silent,same⟩ | ⟨t,key,version,locked,effective,same⟩ |
    ⟨t,key,_,silent,same⟩ | ⟨silent,same⟩ := step_cases writers call
  · rw [same,effective]
    exact manage_follows follows managed other
  · rw [same] at orderly ⊢
    rw [silent]
    obtain ⟨transactions,versions⟩ := tryLock_silent follows.orderly key version
    exact ⟨orderly,transactions.trans follows.transactions,versions.trans follows.versions,follows.free⟩
  · rw [same,effective]
    exact append_follows follows t key version locked
  · rw [same] at orderly ⊢
    rw [silent]
    exact ⟨orderly,follows.transactions,follows.versions,follows.free⟩
  · rw [same,silent]
    exact follows

/-- However the steps of writes interleave, with each other and with all other calls, no write is refused, the
transactions and versions are those of whole writes in the order of their appends, and locks are held by writers
only. -/
theorem writes_linearized (calls : List Call) :
    let writers := run step {} calls
    let manager := run MvccHistory.step {} (linearized step effect {} calls)
    (writers.txnManager = manager.txnManager ∧ writers.versions = manager.versions) ∧
      (∀ result ∈ writers.returned, result.2 = .ok ()) ∧
      ∀ key, ∀ request ∈ writers.locks.manager.lockTable key,
        (∃ version, writers.stage request.txId = .locked key version) ∨ writers.stage request.txId = .appended key := by
  intro writers manager
  have follows : Follows writers manager :=
    run_linearized Follows (fun state model call => step_follows state model call) {} {} calls
      ⟨initial_orderly,rfl,rfl,fun _ => rfl⟩
  exact ⟨⟨follows.transactions,follows.versions⟩,follows.orderly.returned,follows.orderly.holders⟩

/-- Some writer can go on: it has the lock, or it has been notified. -/
def CanProceed (writers : Writers) : Prop :=
  ∃ t, (∃ key version, writers.stage t = .locked key version) ∨ (∃ key, writers.stage t = .appended key) ∨
    ∃ key, writers.locks.phase t = .waiting ⟨t,key,.exclusive⟩ true

/-- Writers never bring each other to a halt. -/
theorem writers_proceed (calls : List Call) (t : Nat) (inside : (run step {} calls).stage t ≠ .outside) :
    CanProceed (run step {} calls) := by
  have orderly := run_keeps Orderly step_orderly {} calls initial_orderly
  cases stage : (run step {} calls).stage t with
  | outside => exact absurd stage inside
  | locked key version => exact ⟨t,.inl ⟨key,version,stage⟩⟩
  | appended key => exact ⟨t,.inr (.inl ⟨key,stage⟩)⟩
  | locking key version =>
    obtain ⟨_,notified,asleep⟩ := orderly.sleeping t key version stage
    cases notified with
    | true => exact ⟨t,.inr (.inr ⟨key,asleep⟩)⟩
    | false =>
      have blocked := orderly.alert.blocked t _ asleep
      obtain ⟨request,member,_⟩ := List.any_eq_true.mp blocked
      rcases orderly.holders key request member with ⟨version,locked⟩ | appended
      · exact ⟨request.txId,.inl ⟨key,version,locked⟩⟩
      · exact ⟨request.txId,.inr (.inl ⟨key,appended⟩)⟩

/-- The second writer sleeps on the key of the first one. -/
def contended : List Call := [.begin,.begin,.write 7 {createdTxId := 1},.write 7 {createdTxId := 2},.append 1]

theorem writers_proceed_contended : (run step {} contended).stage 2 = .locking 7 {createdTxId := 2} ∧
    CanProceed (run step {} contended) :=
  ⟨by decide,writers_proceed contended 2 (by decide)⟩

end LoreDB.Transaction.ConcurrentWrites
