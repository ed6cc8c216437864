import LoreDB.Library.History
import LoreDB.Transaction.DeadlockSearch

/-! Clients of one lock table. A call of `lock` is a sequence of passes under the mutex: the
client sleeps between two of them, and a pass may run after any wake-up, also a spurious one. -/
namespace LoreDB.Transaction.LockClients
open Relation LoreDB.Library LoreDB.Library.Cycles LockManager

structure Attempt where
  txId : Nat
  resourceId : ResourceId
  mode : LockMode
  deriving DecidableEq, Repr

/-- A sleeping client is `notified` from the notification on until it runs again. -/
inductive Phase where
  | idle
  | waiting (attempt : Attempt) (notified : Bool)
  deriving DecidableEq, Repr

def Phase.notified : Phase → Bool
  | .idle => false
  | .waiting _ notified => notified

inductive Call (Client : Type) where
  | lock (client : Client) (attempt : Attempt)
  | wake (client : Client)
  | unlock (client : Client) (txId : Nat) (resourceId : ResourceId)
  | unlockAll (client : Client) (txId : Nat)

/-- `entered` tells which resources have an entry in `lock_table_`, an empty one included. -/
structure System (Client : Type) where
  manager : LockManager := {}
  entered : ResourceId → Bool := fun _ => false
  phase : Client → Phase := fun _ => .idle

variable {Client : Type}

def notifyAll (phase : Client → Phase) (client : Client) : Phase :=
  match phase client with
  | .idle => .idle
  | .waiting attempt _ => .waiting attempt true

def Call.client : Call Client → Client
  | .lock client _ | .wake client | .unlock client _ _ | .unlockAll client _ => client

/-- A transaction runs its calls itself, so it runs one at a time. -/
def Own : Call Nat → Prop
  | .lock client attempt => attempt.txId = client
  | .wake _ => True
  | .unlock client txId _ | .unlockAll client txId => txId = client

instance : (call : Call Nat) → Decidable (Own call)
  | .lock _ _ | .unlock _ _ _ | .unlockAll _ _ => inferInstanceAs (Decidable (_ = _))
  | .wake _ => .isTrue trivial

/-- The pass of `lock` that a call runs: a client makes one call at a time. -/
def attempted (system : System Client) : Call Client → Option (Client × Attempt)
  | .lock client attempt => if system.phase client = .idle then some (client,attempt) else none
  | .wake client =>
    match system.phase client with
    | .idle => none
    | .waiting attempt _ => some (client,attempt)
  | .unlock _ _ _ | .unlockAll _ _ => none

theorem notified_idle (phase : Client → Phase) (client : Client) :
    notifyAll phase client = .idle ↔ phase client = .idle := by
  unfold notifyAll
  cases phase client <;> simp

/-- A pass is run by a client that has just called, or by the sleeper of the same attempt. -/
theorem attempted_ready (system : System Client) (call : Call Client) (client : Client)
    (attempt : Attempt) (runs : attempted system call = some (client,attempt)) :
    call.client = client ∧ (system.phase client = .idle ∧ call = .lock client attempt ∨
      ∃ notified, system.phase client = .waiting attempt notified) := by
  cases call with
  | lock caller wanted =>
    simp only [attempted] at runs
    split at runs
    · rename_i idle
      cases runs
      exact ⟨rfl,.inl ⟨idle,rfl⟩⟩
    · cases runs
  | wake caller =>
    simp only [attempted] at runs
    split at runs
    · cases runs
    · rename_i wanted notified sleeping
      cases runs
      exact ⟨rfl,.inr ⟨notified,sleeping⟩⟩
  | unlock caller txId resourceId => cases runs
  | unlockAll caller txId => cases runs

variable [DecidableEq Client]

def pass (client : Client) (attempt : Attempt) (system : System Client) :
    LockOutcome × System Client :=
  let (outcome,manager) :=
    system.manager.lock attempt.txId attempt.resourceId attempt.mode
  (outcome,{
    manager := manager
    entered := Function.update system.entered attempt.resourceId true
    phase := Function.update system.phase client
      (if outcome = .waiting then .waiting attempt false else .idle)})

def step (system : System Client) (call : Call Client) : System Client :=
  match attempted system call with
  | some (client,attempt) => (pass client attempt system).2
  | none =>
    match call with
    | .unlock client txId resourceId =>
      if system.phase client = .idle then {system with
        manager := system.manager.unlock txId resourceId
        phase := if system.entered resourceId then notifyAll system.phase else system.phase}
      else system
    | .unlockAll client txId =>
      if system.phase client = .idle then {system with
        manager := system.manager.unlockAll txId
        phase := notifyAll system.phase}
      else system
    | .lock _ _ | .wake _ => system

/-- Whom a transaction waits for: the holders of entries that conflict with its request. -/
def Blocker (manager : LockManager) (attempt : Attempt) (u : Nat) : Prop :=
  ∃ request ∈ manager.lockTable attempt.resourceId,
    blocks attempt.txId attempt.mode request = true ∧ request.txId = u

def blockers (manager : LockManager) (attempt : Attempt) : List Nat :=
  ((manager.lockTable attempt.resourceId).filter (blocks attempt.txId attempt.mode)).map
    LockRequest.txId

theorem blockers_exact (manager : LockManager) (attempt : Attempt) (u : Nat) :
    u ∈ blockers manager attempt ↔ Blocker manager attempt u := by
  simp [blockers,Blocker,and_assoc]

/-- The waits-for edges while `lock` searches for a deadlock. -/
def searched (manager : LockManager) (attempt : Attempt) : Nat → Nat → Prop :=
  redirect (WaitsFor manager.waitsForGraph) attempt.txId (Blocker manager attempt)

/-- A pass grants, refuses because of a cycle, or waits without one. -/
theorem lock_cases (manager : LockManager) (attempt : Attempt) :
    let result := manager.lock attempt.txId attempt.resourceId attempt.mode
    let conflict := hasConflict attempt.txId attempt.mode (manager.lockTable attempt.resourceId)
    (conflict = false ∧ result.1 = .granted ∧
      result.2.lockTable = Function.update manager.lockTable attempt.resourceId
        (manager.lockTable attempt.resourceId ++ [⟨attempt.txId,attempt.mode,true⟩]) ∧
      ∀ u v, WaitsFor result.2.waitsForGraph u v ↔
        u ≠ attempt.txId ∧ WaitsFor manager.waitsForGraph u v) ∨
    (conflict = true ∧ result.1 = .refused ∧ result.2.lockTable = manager.lockTable ∧
      (∀ u v, WaitsFor result.2.waitsForGraph u v ↔
        u ≠ attempt.txId ∧ WaitsFor manager.waitsForGraph u v) ∧
      ∃ x, ReflTransGen (searched manager attempt) attempt.txId x ∧
        TransGen (searched manager attempt) x x) ∨
    (conflict = true ∧ result.1 = .waiting ∧ result.2.lockTable = manager.lockTable ∧
      WaitsFor result.2.waitsForGraph = searched manager attempt ∧
      ¬∃ x, ReflTransGen (searched manager attempt) attempt.txId x ∧
        TransGen (searched manager attempt) x x) := by
  intro result conflict
  cases conflicting : conflict with
  | false =>
    have granted : result = (.granted,{
        lockTable := Function.update manager.lockTable attempt.resourceId
          (manager.lockTable attempt.resourceId ++ [⟨attempt.txId,attempt.mode,true⟩])
        waitsForGraph := manager.waitsForGraph.erase attempt.txId}) := by
      simp only [result,lock]
      exact if_neg (by simpa [conflict] using conflicting)
    rw [granted]
    exact .inl ⟨rfl,rfl,rfl,waits_erased _ _⟩
  | true =>
    let graph := manager.waitsForGraph.insert attempt.txId (blockers manager attempt)
    have edges : WaitsFor graph = searched manager attempt := by
      rw [waits_inserted,searched]
      congr 1
      ext u
      exact blockers_exact manager attempt u
    obtain ⟨found,search,returned,same,alarm⟩ := detectDeadlock_settles graph attempt.txId
    rw [edges] at same alarm
    unfold graph blockers at returned
    cases found with
    | true =>
      have refused : result = (.refused,{manager with
          waitsForGraph := search.graph.erase attempt.txId}) := by
        simp only [result,lock]
        rw [if_pos conflicting,returned]
      rw [refused]
      refine .inr (.inl ⟨rfl,rfl,rfl,fun u v => ?_,alarm.mp rfl⟩)
      rw [waits_erased,same]
      exact and_congr_right fun other => redirect_elsewhere _ _ u v other
    | false =>
      have waits : result = (.waiting,{manager with waitsForGraph := search.graph}) := by
        simp only [result,lock]
        rw [if_pos conflicting,returned]
      rw [waits]
      exact .inr (.inr ⟨rfl,rfl,rfl,same,fun cyclic => Bool.false_ne_true (alarm.mpr cyclic)⟩)

theorem step_cases (system : System Client) (call : Call Client) :
    (∃ client attempt, attempted system call = some (client,attempt) ∧
      step system call = (pass client attempt system).2) ∨
    (∃ client txId resourceId, call = .unlock client txId resourceId ∧
      system.phase client = .idle ∧ step system call = {system with
        manager := system.manager.unlock txId resourceId
        phase := if system.entered resourceId then notifyAll system.phase else system.phase}) ∨
    (∃ client txId, call = .unlockAll client txId ∧ system.phase client = .idle ∧
      step system call = {system with
        manager := system.manager.unlockAll txId
        phase := notifyAll system.phase}) ∨
    step system call = system := by
  cases runs : attempted system call with
  | some pair =>
    obtain ⟨client,attempt⟩ := pair
    exact .inl ⟨client,attempt,rfl,by simp only [step,runs]⟩
  | none =>
    cases call with
    | lock caller wanted => exact .inr (.inr (.inr (by simp only [step,runs])))
    | wake caller => exact .inr (.inr (.inr (by simp only [step,runs])))
    | unlock caller txId resourceId =>
      by_cases idle : system.phase caller = .idle
      · exact .inr (.inl ⟨caller,txId,resourceId,rfl,idle,by simp only [step,runs,idle,if_true]⟩)
      · exact .inr (.inr (.inr (by simp only [step,runs,idle,if_false])))
    | unlockAll caller txId =>
      by_cases idle : system.phase caller = .idle
      · exact .inr (.inr (.inl ⟨caller,txId,rfl,idle,by simp only [step,runs,idle,if_true]⟩))
      · exact .inr (.inr (.inr (by simp only [step,runs,idle,if_false])))

theorem idle_step (system : System Client) (call : Call Client) (other : Client)
    (foreign : call.client ≠ other) (idle : system.phase other = .idle) :
    (step system call).phase other = .idle := by
  obtain ⟨client,attempt,runs,stepped⟩ | ⟨_,_,_,_,_,stepped⟩ | ⟨_,_,_,_,stepped⟩ | stepped :=
    step_cases system call
  · rw [stepped]
    have caller := (attempted_ready system call client attempt runs).1
    exact (Function.update_of_ne (by rw [← caller]; exact foreign.symm) _ _).trans idle
  · rw [stepped]
    dsimp only
    split
    · exact (notified_idle system.phase other).mpr idle
    · exact idle
  · rw [stepped]
    exact (notified_idle system.phase other).mpr idle
  · rwa [stepped]

/-- A client that made no call sleeps nowhere. -/
theorem idle_run (calls : List (Call Client)) (other : Client)
    (absent : ∀ call ∈ calls, call.client ≠ other) :
    (History.run step ({} : System Client) calls).phase other = .idle :=
  History.run_preserves (fun system => system.phase other = .idle)
    (fun system call foreign idle => idle_step system call other foreign idle) {} calls
    ((History.guarded_calls _ _ calls).mpr absent) rfl

theorem no_conflict (attempt : Attempt) (requests : List LockRequest)
    (free : hasConflict attempt.txId attempt.mode requests = false) (request : LockRequest)
    (member : request ∈ requests) (foreign : request.txId ≠ attempt.txId) :
    attempt.mode = .shared ∧ request.mode = .shared := by
  have open_ := List.any_eq_false.mp free request member
  cases wanted : attempt.mode with
  | exclusive => simp [blocks,foreign,wanted] at open_
  | shared =>
    cases held : request.mode with
    | exclusive => simp [blocks,foreign,held] at open_
    | shared => exact ⟨rfl,rfl⟩

/-- Nobody shares a resource with the holder of an exclusive entry. -/
def Exclusive (manager : LockManager) : Prop :=
  ∀ resourceId, ∀ request ∈ manager.lockTable resourceId, request.mode = .exclusive →
    ∀ other ∈ manager.lockTable resourceId, other.txId = request.txId

theorem exclusive_shrinks (before after : LockManager)
    (fewer : ∀ resourceId, ∀ request ∈ after.lockTable resourceId,
      request ∈ before.lockTable resourceId) (exclusive : Exclusive before) : Exclusive after :=
  fun resourceId request member mode other inside =>
    exclusive resourceId request (fewer resourceId request member) mode other
      (fewer resourceId other inside)

theorem unlock_fewer (txId : Nat) (released resourceId : ResourceId) (manager : LockManager)
    (request : LockRequest) (member : request ∈ (manager.unlock txId released).lockTable resourceId) :
    request ∈ manager.lockTable resourceId := by
  by_cases here : resourceId = released
  · subst here
    simp only [unlock,Function.update_self] at member
    exact (List.mem_filter.mp member).1
  · simp only [unlock,Function.update_of_ne here] at member
    exact member

theorem unlockAll_fewer (txId : Nat) (resourceId : ResourceId) (manager : LockManager)
    (request : LockRequest) (member : request ∈ (manager.unlockAll txId).lockTable resourceId) :
    request ∈ manager.lockTable resourceId :=
  (List.mem_filter.mp member).1

theorem exclusive_granted (manager granted : LockManager) (attempt : Attempt)
    (free : hasConflict attempt.txId attempt.mode (manager.lockTable attempt.resourceId) = false)
    (table : granted.lockTable = Function.update manager.lockTable attempt.resourceId
      (manager.lockTable attempt.resourceId ++ [⟨attempt.txId,attempt.mode,true⟩]))
    (exclusive : Exclusive manager) : Exclusive granted := by
  have owns : ∀ request ∈ manager.lockTable attempt.resourceId,
      attempt.mode = .exclusive ∨ request.mode = .exclusive → request.txId = attempt.txId := by
    intro request member mode
    by_contra foreign
    obtain ⟨wanted,held⟩ := no_conflict attempt _ free request member foreign
    rcases mode with mode | mode
    · exact absurd (wanted.symm.trans mode) (by decide)
    · exact absurd (held.symm.trans mode) (by decide)
  intro resourceId
  rw [table]
  by_cases here : resourceId = attempt.resourceId
  · subst here
    simp only [Function.update_self,List.mem_append,List.mem_singleton]
    intro request member mode other inside
    rcases member with member | rfl
    · rcases inside with inside | rfl
      · exact exclusive _ request member mode other inside
      · exact (owns request member (.inr mode)).symm
    · rcases inside with inside | rfl
      · exact owns other inside (.inl mode)
      · rfl
  · rw [Function.update_of_ne here]
    exact exclusive resourceId

theorem exclusive_step (system : System Client) (call : Call Client)
    (exclusive : Exclusive system.manager) : Exclusive (step system call).manager := by
  obtain ⟨client,attempt,_,stepped⟩ | ⟨_,txId,resourceId,_,_,stepped⟩ | ⟨_,txId,_,_,stepped⟩ |
    stepped := step_cases system call
  · rw [stepped]
    obtain ⟨free,_,table,_⟩ | ⟨_,_,table,_⟩ | ⟨_,_,table,_⟩ := lock_cases system.manager attempt
    · exact exclusive_granted system.manager _ attempt free table exclusive
    · exact exclusive_shrinks _ _ (fun _ _ member => by rwa [pass,table] at member) exclusive
    · exact exclusive_shrinks _ _ (fun _ _ member => by rwa [pass,table] at member) exclusive
  · rw [stepped]
    exact exclusive_shrinks _ _ (fun _ _ => unlock_fewer txId resourceId _ _ _) exclusive
  · rw [stepped]
    exact exclusive_shrinks _ _ (fun _ _ => unlockAll_fewer txId _ _ _) exclusive
  · rwa [stepped]

/-- In every state of every run of any clients, an exclusive entry is the only holder's. -/
theorem mutual_exclusion (calls : List (Call Client)) (resourceId : ResourceId)
    (request : LockRequest)
    (member : request ∈ (History.run step {} calls).manager.lockTable resourceId)
    (mode : request.mode = .exclusive) (other : LockRequest)
    (inside : other ∈ (History.run step {} calls).manager.lockTable resourceId) :
    other.txId = request.txId :=
  History.run_keeps (fun system : System Client => Exclusive system.manager) exclusive_step {} calls
    (fun _ _ absent => absurd absent List.not_mem_nil) resourceId request member mode other inside

/-- A second client is granted its exclusive lock when the first has given its own back. -/
def handedOver : List (Call Nat) := [.lock 1 ⟨1,5,.shared⟩,.lock 2 ⟨2,5,.exclusive⟩,.unlock 1 1 5,.wake 2]

theorem mutual_exclusion_handed_over :
    (⟨2,.exclusive,true⟩ : LockRequest) ∈ (History.run step {} handedOver).manager.lockTable 5 ∧
      ∀ other ∈ (History.run step {} handedOver).manager.lockTable 5, other.txId = 2 := by
  have held : (⟨2,.exclusive,true⟩ : LockRequest) ∈
      (History.run step {} handedOver).manager.lockTable 5 := by decide
  exact ⟨held,fun other => mutual_exclusion handedOver 5 ⟨2,.exclusive,true⟩ held rfl other⟩

end LoreDB.Transaction.LockClients
