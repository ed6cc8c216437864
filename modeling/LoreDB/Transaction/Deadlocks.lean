import LoreDB.Transaction.LockClients
import Mathlib.Tactic.Tauto

/-! The recorded waits-for graph against the true one. Edges are recorded when a sleeper runs:
they miss holders that join later, and they outlive the locks that are given back. -/
namespace LoreDB.Transaction.Deadlocks
open Relation LoreDB.Library LoreDB.Library.History LoreDB.Library.Cycles LockManager LockClients

variable {Client : Type} [DecidableEq Client]

/-- A transaction that waits for a resource waits for the holders of conflicting entries on it. -/
def Waits (system : System Client) (t u : Nat) : Prop :=
  ∃ client attempt notified, system.phase client = .waiting attempt notified ∧
    attempt.txId = t ∧ Blocker system.manager attempt u

def Recorded (system : System Client) : Nat → Nat → Prop := WaitsFor system.manager.waitsForGraph

/-- The system while the client is inside `lock`. -/
def inside (client : Client) (attempt : Attempt) (system : System Client) : System Client :=
  {system with phase := Function.update system.phase client (.waiting attempt false)}

def Owned (system : System Nat) : Prop :=
  ∀ client attempt notified, system.phase client = .waiting attempt notified → attempt.txId = client

theorem owned_attempt (system : System Nat) (call : Call Nat) (own : Own call) (owned : Owned system)
    (client : Nat) (attempt : Attempt) (runs : attempted system call = some (client,attempt)) :
    attempt.txId = client := by
  rcases (attempted_ready system call client attempt runs).2 with ⟨_,rfl⟩ | ⟨notified,sleeping⟩
  · exact own
  · exact owned client attempt notified sleeping

theorem owned_notified (system : System Nat) (owned : Owned system) (client : Nat) (attempt : Attempt)
    (notified : Bool) (phase : notifyAll system.phase client = .waiting attempt notified) :
    attempt.txId = client := by
  unfold notifyAll at phase
  cases before : system.phase client with
  | idle =>
    rw [before] at phase
    cases phase
  | waiting wanted earlier =>
    rw [before] at phase
    cases phase
    exact owned client attempt earlier before

theorem owned_inside (system : System Nat) (owned : Owned system) (client : Nat) (attempt : Attempt)
    (own : attempt.txId = client) : Owned (inside client attempt system) := by
  intro other wanted notified phase
  by_cases here : other = client
  · subst here
    simp only [inside,Function.update_self] at phase
    cases phase
    exact own
  · simp only [inside,Function.update_of_ne here] at phase
    exact owned other wanted notified phase

theorem owned_step (system : System Nat) (call : Call Nat) (own : Own call) (owned : Owned system) :
    Owned (step system call) := by
  obtain ⟨client,attempt,runs,stepped⟩ | ⟨_,_,_,_,_,stepped⟩ | ⟨_,_,_,_,stepped⟩ | stepped :=
    step_cases system call
  · rw [stepped]
    intro other wanted notified phase
    by_cases here : other = client
    · subst here
      simp only [LockClients.pass,Function.update_self] at phase
      split at phase
      · cases phase
        exact owned_attempt system call own owned other attempt runs
      · cases phase
    · simp only [LockClients.pass,Function.update_of_ne here] at phase
      exact owned other wanted notified phase
  · rw [stepped]
    intro other wanted notified phase
    dsimp only at phase
    split at phase
    · exact owned_notified system owned other wanted notified phase
    · exact owned other wanted notified phase
  · rw [stepped]
    exact owned_notified system owned
  · rwa [stepped]

theorem owned_run (calls : List (Call Nat)) (own : ∀ call ∈ calls, Own call) :
    Owned (run step {} calls) :=
  run_preserves Owned owned_step {} calls ((guarded_calls Own _ calls).mpr own)
    (fun _ _ _ phase => by cases phase)

/-- The transactions that hold up the call a transaction is blocked in. -/
def holders (system : System Nat) (t : Nat) : List Nat :=
  match system.phase t with
  | .idle => []
  | .waiting attempt _ => blockers system.manager attempt

theorem holders_exact (system : System Nat) (owned : Owned system) (t u : Nat) :
    u ∈ holders system t ↔ Waits system t u := by
  unfold holders
  constructor
  · intro member
    cases phase : system.phase t with
    | idle =>
      rw [phase] at member
      exact absurd member List.not_mem_nil
    | waiting attempt notified =>
      rw [phase] at member
      exact ⟨t,attempt,notified,phase,owned t attempt notified phase,
        (blockers_exact _ _ _).mp member⟩
  · rintro ⟨client,attempt,notified,phase,rfl,blocker⟩
    rw [owned client attempt notified phase,phase]
    exact (blockers_exact _ _ _).mpr blocker

theorem recorded_step (system : System Client) (call : Call Client)
    (acyclic : Acyclic (Recorded system)) : Acyclic (Recorded (step system call)) := by
  obtain ⟨client,attempt,_,stepped⟩ | ⟨_,_,_,_,_,stepped⟩ | ⟨_,txId,_,_,stepped⟩ | stepped :=
    step_cases system call
  · rw [stepped]
    obtain ⟨_,_,_,edges⟩ | ⟨_,_,_,edges,_⟩ | ⟨_,_,_,edges,clear⟩ := lock_cases system.manager attempt
    · exact acyclic_mono acyclic fun u v edge => ((edges u v).mp edge).2
    · exact acyclic_mono acyclic fun u v edge => ((edges u v).mp edge).2
    · intro x cycle
      change TransGen (WaitsFor _) x x at cycle
      simp only [LockClients.pass] at cycle
      rw [edges] at cycle
      exact clear ⟨attempt.txId,.refl,redirected_cycle _ _ acyclic x cycle⟩
  · rw [stepped]
    exact acyclic
  · rw [stepped]
    exact acyclic_mono acyclic fun u v edge => ((waits_erased _ txId u v).mp edge).2
  · rwa [stepped]

section Victims

/-- A refused transaction lies on a cycle of the true relation. -/
def Sound (system : System Client) (call : Call Client) : Prop :=
  ∀ client attempt, attempted system call = some (client,attempt) →
    (pass client attempt system).1 = .refused →
      TransGen (Waits (inside client attempt system)) attempt.txId attempt.txId

/-- Every recorded edge on the way from a holder back to the transaction is a true one. -/
def Current (system : System Client) (call : Call Client) : Prop :=
  ∀ client attempt, attempted system call = some (client,attempt) →
    ∀ holder u v, Blocker system.manager attempt holder → ReflTransGen (Recorded system) holder u →
      u ≠ attempt.txId → Recorded system u v → ReflTransGen (Recorded system) v attempt.txId →
        Waits system u v

theorem waits_inside (system : System Client) (client : Client) (attempt : Attempt)
    (call : Call Client) (runs : attempted system call = some (client,attempt))
    (u v : Nat) (foreign : u ≠ attempt.txId) (waits : Waits system u v) :
    Waits (inside client attempt system) u v := by
  obtain ⟨sleeper,wanted,notified,phase,rfl,blocker⟩ := waits
  refine ⟨sleeper,wanted,notified,?_,rfl,blocker⟩
  by_cases here : sleeper = client
  · subst here
    rcases (attempted_ready system call sleeper attempt runs).2 with ⟨idle,_⟩ | ⟨_,same⟩
    · rw [idle] at phase
      cases phase
    · rw [same] at phase
      cases phase
      exact absurd rfl foreign
  · exact (Function.update_of_ne here _ _).trans phase

theorem sound_step (system : System Client) (call : Call Client) (acyclic : Acyclic (Recorded system))
    (current : Current system call) : Sound system call := by
  intro client attempt runs refused
  obtain ⟨_,granted,_⟩ | ⟨_,_,_,_,x,_,cycle⟩ | ⟨_,waiting,_⟩ := lock_cases system.manager attempt
  · exact absurd (granted.symm.trans refused) (by decide)
  · obtain ⟨holder,edge,back⟩ := TransGen.head'_iff.mp
      (redirected_cycle attempt.txId (Blocker system.manager attempt) acyclic x cycle)
    have blocker : Blocker system.manager attempt holder := (redirect_here attempt.txId _ holder).mp edge
    -- the way back to the transaction uses edges that were recorded before
    have recorded : ReflTransGen (fun u v => u ≠ attempt.txId ∧ Recorded system u v) holder
        attempt.txId :=
      ReflTransGen.mono (fun u v step => ⟨step.1,(redirect_elsewhere _ _ u v step.1).mp step.2⟩)
        holder attempt.txId (path_before back)
    have forget : ∀ u v, ReflTransGen (fun u v => u ≠ attempt.txId ∧ Recorded system u v) u v →
        ReflTransGen (Recorded system) u v := ReflTransGen.mono fun _ _ step => step.2
    have walk : ∀ u, ReflTransGen (fun u v => u ≠ attempt.txId ∧ Recorded system u v) holder u →
        ReflTransGen (fun u v => u ≠ attempt.txId ∧ Recorded system u v) u attempt.txId →
        ReflTransGen (Waits (inside client attempt system)) holder u := by
      intro u before
      induction before with
      | refl => exact fun _ => .refl
      | @tail u v before edge ih =>
        intro after
        refine (ih (after.head edge)).tail (waits_inside system client attempt call runs u v edge.1 ?_)
        exact current client attempt runs holder u v blocker (forget _ _ before) edge.1 edge.2
          (forget _ _ after)
    refine .head' ?_ (walk attempt.txId recorded .refl)
    exact ⟨client,attempt,false,Function.update_self client _ _,rfl,blocker⟩
  · exact absurd (waiting.symm.trans refused) (by decide)

/-- When no stale edge leads back to the transaction whose attempt is checked, only transactions
on a cycle of the true relation are refused. -/
theorem victims_on_cycles (calls : List (Call Client))
    (current : Guarded step Current ({} : System Client) calls) :
    Guarded step Sound ({} : System Client) calls :=
  guarded_follows (fun system => Acyclic (Recorded system)) recorded_step sound_step {} calls
    (fun x cycle => by
      obtain ⟨_,edge,_⟩ := TransGen.head'_iff.mp cycle
      exact List.not_mem_nil edge) current

/-- It is enough that every edge in the graph is a true one. -/
theorem current_entries (system : System Nat) (owned : Owned system) (call : Call Nat)
    (entries : ∀ entry ∈ system.manager.waitsForGraph.entries,
      ∀ v ∈ entry.2, v ∈ holders system entry.1) : Current system call := by
  intro client attempt _ holder u v _ _ _ edge _
  unfold Recorded WaitsFor at edge
  cases found : system.manager.waitsForGraph.lookup u with
  | none =>
    rw [found] at edge
    exact absurd edge List.not_mem_nil
  | some edges =>
    rw [found] at edge
    exact (holders_exact system owned u v).mp
      (entries ⟨u,edges⟩ (AList.mem_lookup_iff.mp found) v edge)

/-- Transaction 1 gives back the resource that 2 sleeps for, and asks for one that 2 holds
before 2 runs again. -/
def stale : List (Call Nat) := [.lock 1 ⟨1,10,.exclusive⟩,.lock 2 ⟨2,20,.exclusive⟩,
  .lock 2 ⟨2,10,.exclusive⟩,.unlock 1 1 10,.lock 1 ⟨1,20,.exclusive⟩]

theorem victim_off_cycle :
    (∀ call ∈ stale, Own call) ∧ ¬Guarded step Sound ({} : System Nat) stale := by
  refine ⟨by decide,fun sound => ?_⟩
  have cycle := sound.2.2.2.2.1 1 ⟨1,20,.exclusive⟩ (by decide) (by decide)
  let now := inside 1 ⟨1,20,.exclusive⟩ (run step {} (stale.take 4))
  have owned : Owned now := owned_inside _ (owned_run _ (by decide)) 1 _ rfl
  obtain ⟨holder,first,back⟩ := TransGen.head'_iff.mp cycle
  have second : holder = 2 := by
    have member := (holders_exact now owned 1 holder).mpr first
    rw [show holders now 1 = [2] by decide] at member
    exact List.mem_singleton.mp member
  subst second
  have alone : ∀ v, ¬Waits now 2 v := by
    intro v edge
    have member := (holders_exact now owned 2 v).mpr edge
    rw [show holders now 2 = [] by decide] at member
    exact List.not_mem_nil member
  rcases ReflTransGen.cases_head_iff.mp back with same | ⟨v,edge,_⟩
  · cases same
  · exact alone v edge

/-- Two transactions take two resources in opposite orders. -/
def crossed : List (Call Nat) := [.lock 1 ⟨1,10,.exclusive⟩,.lock 2 ⟨2,20,.exclusive⟩,
  .lock 1 ⟨1,20,.exclusive⟩,.lock 2 ⟨2,10,.exclusive⟩]

theorem victims_on_cycles_crossed :
    (pass 2 ⟨2,10,.exclusive⟩ (run step {} (crossed.take 3))).1 = .refused ∧
      Guarded step Sound ({} : System Nat) crossed := by
  have owned : ∀ n, Owned (run step {} (crossed.take n)) := fun n =>
    owned_run _ fun call member => (by decide : ∀ call ∈ crossed, Own call) call
      (List.mem_of_mem_take member)
  exact ⟨by decide,victims_on_cycles crossed ⟨current_entries _ (owned 0) _ (by decide),
    current_entries _ (owned 1) _ (by decide),current_entries _ (owned 2) _ (by decide),
    current_entries _ (owned 3) _ (by decide),trivial⟩⟩

end Victims

section Undetected

/-- No wake-up is pending. -/
def Quiet (system : System Client) : Prop := ∀ client, (system.phase client).notified = false

/-- Blocked transactions that each wait for another one of them. -/
def Deadlocked (system : System Client) (members : Set Nat) : Prop :=
  members.Nonempty ∧ ∀ t ∈ members, ∃ u ∈ members, u ≠ t ∧ Waits system t u

/-- No lock is granted behind the back of a sleeper that it conflicts with: a sleeper without a
pending wake-up has recorded the new holder already. -/
def Announced (system : System Client) (call : Call Client) : Prop :=
  ∀ client attempt, attempted system call = some (client,attempt) →
    hasConflict attempt.txId attempt.mode (system.manager.lockTable attempt.resourceId) = false →
    ∀ sleeper wanted, sleeper ≠ client → system.phase sleeper = .waiting wanted false →
      wanted.resourceId = attempt.resourceId →
      blocks wanted.txId wanted.mode ⟨attempt.txId,attempt.mode,true⟩ = true →
        Recorded system wanted.txId attempt.txId

/-- The graph tells of every sleeper without a pending wake-up for whom it waits. -/
structure Covered (system : System Nat) : Prop where
  acyclic : Acyclic (Recorded system)
  owned : Owned system
  recorded : ∀ client attempt, system.phase client = .waiting attempt false →
    ∀ u, Blocker system.manager attempt u → Recorded system client u

/-- The edges and entries of the sleepers around a pass. -/
theorem covered_others (system : System Nat) (call : Call Nat) (announced : Announced system call)
    (covered : Covered system) (client : Nat) (attempt : Attempt)
    (runs : attempted system call = some (client,attempt)) (mine : attempt.txId = client)
    (sleeper : Nat) (wanted : Attempt) (other : sleeper ≠ client)
    (phase : system.phase sleeper = .waiting wanted false) (u : Nat)
    (blocker : Blocker (pass client attempt system).2.manager wanted u) :
    Recorded (pass client attempt system).2 sleeper u := by
  have same := covered.owned sleeper wanted false phase
  have foreign : sleeper ≠ attempt.txId := mine.symm ▸ other
  have old := covered.recorded sleeper wanted phase
  obtain ⟨request,member,conflict,rfl⟩ := blocker
  obtain ⟨free,_,table,edges⟩ | ⟨_,_,table,edges,_⟩ | ⟨_,_,table,edges,_⟩ :=
    lock_cases system.manager attempt
  · refine (edges sleeper request.txId).mpr ⟨foreign,?_⟩
    simp only [LockClients.pass,table] at member
    by_cases here : wanted.resourceId = attempt.resourceId
    · rw [here,Function.update_self] at member
      rcases List.mem_append.mp member with before | added
      · exact old _ ⟨request,by rwa [here],conflict,rfl⟩
      · rw [List.mem_singleton] at added
        subst added
        have known := announced client attempt runs free sleeper wanted other phase here conflict
        rwa [same] at known
    · rw [Function.update_of_ne here] at member
      exact old _ ⟨request,member,conflict,rfl⟩
  · simp only [LockClients.pass,table] at member
    exact (edges sleeper request.txId).mpr ⟨foreign,old _ ⟨request,member,conflict,rfl⟩⟩
  · simp only [LockClients.pass,table] at member
    change WaitsFor _ sleeper request.txId
    simp only [LockClients.pass]
    rw [edges]
    exact (redirect_elsewhere _ _ sleeper _ foreign).mpr (old _ ⟨request,member,conflict,rfl⟩)

/-- A client that goes to sleep has just recorded all its blockers. -/
theorem covered_asleep (system : System Nat) (client : Nat) (attempt wanted : Attempt)
    (mine : attempt.txId = client)
    (phase : (pass client attempt system).2.phase client = .waiting wanted false) (u : Nat)
    (blocker : Blocker (pass client attempt system).2.manager wanted u) :
    Recorded (pass client attempt system).2 client u := by
  simp only [LockClients.pass,Function.update_self] at phase
  split at phase
  · cases phase
    rename_i outcome
    obtain ⟨_,granted,_⟩ | ⟨_,refused,_⟩ | ⟨_,_,table,edges,_⟩ := lock_cases system.manager attempt
    · exact absurd (granted.symm.trans outcome) (by decide)
    · exact absurd (refused.symm.trans outcome) (by decide)
    · change WaitsFor _ client u
      simp only [LockClients.pass]
      rw [edges,searched,mine,redirect_here]
      obtain ⟨request,member,conflict⟩ := blocker
      simp only [LockClients.pass,table] at member
      exact ⟨request,member,conflict⟩
  · cases phase

theorem covered_step (system : System Nat) (call : Call Nat) (own : Own call)
    (announced : Announced system call) (covered : Covered system) : Covered (step system call) := by
  refine ⟨recorded_step system call covered.acyclic,owned_step system call own covered.owned,?_⟩
  intro sleeper wanted phase u blocker
  obtain ⟨client,attempt,runs,stepped⟩ | ⟨client,txId,resourceId,rfl,idle,stepped⟩ |
    ⟨client,txId,rfl,idle,stepped⟩ | stepped := step_cases system call
  · rw [stepped] at phase blocker ⊢
    have mine := owned_attempt system call own covered.owned client attempt runs
    by_cases here : sleeper = client
    · subst here
      exact covered_asleep system sleeper attempt wanted mine phase u blocker
    · refine covered_others system call announced covered client attempt runs mine sleeper wanted here
        ?_ u blocker
      simpa only [LockClients.pass,Function.update_of_ne here] using phase
  · rw [stepped] at phase blocker ⊢
    have before : system.phase sleeper = .waiting wanted false := by
      dsimp only at phase
      split at phase
      · unfold notifyAll at phase
        split at phase <;> cases phase
      · exact phase
    obtain ⟨request,member,conflict⟩ := blocker
    exact covered.recorded sleeper wanted before u
      ⟨request,unlock_fewer txId resourceId _ _ _ member,conflict⟩
  · rw [stepped] at phase
    dsimp only at phase
    unfold notifyAll at phase
    split at phase <;> cases phase
  · rw [stepped] at phase blocker ⊢
    exact covered.recorded sleeper wanted phase u blocker

/-- When no lock is granted behind a sleeper's back, every deadlock has been refused before it
could come about. -/
theorem no_hidden_deadlock (calls : List (Call Nat)) (own : ∀ call ∈ calls, Own call)
    (announced : Guarded step Announced ({} : System Nat) calls)
    (quiet : Quiet (run step ({} : System Nat) calls)) (members : Set Nat) :
    ¬Deadlocked (run step ({} : System Nat) calls) members := by
  have covered : Covered (run step ({} : System Nat) calls) := by
    refine run_preserves Covered
      (fun system call allowed covered => covered_step system call allowed.1 allowed.2 covered) {} calls
      ((guarded_both _ calls).mpr ⟨(guarded_calls Own _ calls).mpr own,announced⟩) ⟨?_,?_,?_⟩
    · intro x cycle
      obtain ⟨_,edge,_⟩ := TransGen.head'_iff.mp cycle
      exact List.not_mem_nil edge
    · intro client attempt notified phase
      cases phase
    · intro client attempt phase
      cases phase
  rintro ⟨nonempty,blocked⟩
  obtain ⟨t,member,ends⟩ := acyclic_ends (waits_finite _) covered.acyclic members nonempty
  obtain ⟨u,inside,_,client,attempt,notified,phase,mine,blocker⟩ := blocked t member
  have asleep := quiet client
  rw [phase] at asleep
  change notified = false at asleep
  subst asleep mine
  have known := covered.recorded client attempt phase u blocker
  rw [← covered.owned client attempt false phase] at known
  exact ends u inside known

theorem quiet_run (calls : List (Call Client))
    (callers : ∀ call ∈ calls, ((run step {} calls).phase call.client).notified = false) :
    Quiet (run step {} calls) := by
  intro client
  by_cases called : ∃ call ∈ calls, call.client = client
  · obtain ⟨call,member,rfl⟩ := called
    exact callers call member
  · rw [idle_run calls client fun call member same => called ⟨call,member,same⟩]
    rfl

theorem announced_attempt (system : System Nat) (call : Call Nat) (client : Nat)
    (attempt : Attempt) (runs : attempted system call = some (client,attempt))
    (harmless : hasConflict attempt.txId attempt.mode (system.manager.lockTable attempt.resourceId) = true ∨
      ∀ sleeper, system.phase sleeper = .idle) : Announced system call := by
  intro other wanted same free sleeper asleep _ phase
  rw [runs] at same
  cases same
  rcases harmless with conflict | idle
  · exact absurd (conflict.symm.trans free) (by decide)
  · rw [idle] at phase
    cases phase

theorem no_hidden_deadlock_crossed : ¬Deadlocked (run step ({} : System Nat) crossed) {1,2} := by
  refine no_hidden_deadlock crossed (by decide) ⟨?_,?_,?_,?_,trivial⟩ (quiet_run crossed (by decide)) _
  · exact announced_attempt _ _ 1 _ rfl (.inr fun _ => rfl)
  · exact announced_attempt _ _ 2 _ rfl (.inr fun sleeper => by
      by_cases first : sleeper = 1
      · subst first
        rfl
      · exact idle_run (crossed.take 1) sleeper (by simpa [crossed,Call.client] using Ne.symm first))
  · exact announced_attempt _ _ 1 ⟨1,20,.exclusive⟩ rfl (.inl (by decide))
  · exact announced_attempt _ _ 2 ⟨2,10,.exclusive⟩ rfl (.inl (by decide))

/-- Transaction 2 sleeps for a resource that 1 shares; 3 joins 1 and then waits for 2. -/
def joined : List (Call Nat) := [.lock 1 ⟨1,10,.shared⟩,.lock 2 ⟨2,20,.exclusive⟩,
  .lock 2 ⟨2,10,.exclusive⟩,.lock 3 ⟨3,10,.shared⟩,.lock 3 ⟨3,20,.exclusive⟩]

theorem hidden_deadlock : (∀ call ∈ joined, Own call) ∧ Quiet (run step ({} : System Nat) joined) ∧
    Deadlocked (run step ({} : System Nat) joined) {2,3} := by
  have own : ∀ call ∈ joined, Own call := by decide
  have waits := holders_exact (run step {} joined) (owned_run joined own)
  refine ⟨own,quiet_run joined (by decide),⟨2,by simp⟩,?_⟩
  rintro t (rfl | rfl)
  · exact ⟨3,by simp,by decide,(waits 2 3).mp (by decide)⟩
  · exact ⟨2,by simp,by decide,(waits 3 2).mp (by decide)⟩

end Undetected

end LoreDB.Transaction.Deadlocks
