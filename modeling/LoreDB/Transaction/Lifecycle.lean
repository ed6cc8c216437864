import LoreDB.Library.History
import LoreDB.Transaction.Mvcc
import Mathlib.Data.List.Pairwise

/-! The lives of transactions under calls of begin, commit and abort in any order, also on a transaction that
has finished. The first call that ends a transaction decides what becomes of it, and all tables agree on that. -/
namespace LoreDB.Transaction.Lifecycle
open LoreDB.Library LoreDB.Library.History TransactionManager

inductive Call where
  | begin
  | commit (txId : Nat)
  | abort (txId : Nat)
  deriving DecidableEq, Repr

def step (manager : TransactionManager) : Call → TransactionManager
  | .begin => manager.beginTransaction.2
  | .commit txId => (manager.commitTransaction txId).2
  | .abort txId => (manager.abortTransaction txId).2

/-- Only transactions that have begun can be named. -/
def Legal (manager : TransactionManager) : Call → Prop
  | .begin => True
  | .commit txId | .abort txId => manager.Issued txId

instance (manager : TransactionManager) : (call : Call) → Decidable (Legal manager call)
  | .begin => .isTrue trivial
  | .commit _ | .abort _ => inferInstanceAs (Decidable (TransactionManager.Issued _ _))

def after (calls : List Call) : TransactionManager := run step {} calls

def History (calls : List Call) : Prop := Guarded step Legal {} calls

instance (calls : List Call) : Decidable (History calls) := decidableGuarded _ _ _ _

/-- The ids that begin hands out, in the order of the calls. -/
def handedOut : TransactionManager → List Call → List Nat
  | _, [] => []
  | manager, .begin::rest => manager.beginTransaction.1.id::handedOut manager.beginTransaction.2 rest
  | manager, call::rest => handedOut (step manager call) rest

/-- What a call makes of a transaction that is active. -/
def ending (txId : Nat) : Call → Option TransactionState
  | .begin => none
  | .commit target => if target = txId then some .committed else none
  | .abort target => if target = txId then some .aborted else none

/-- The state that the first call to end a transaction calls for. -/
def firstEnd (txId : Nat) (calls : List Call) : Option TransactionState := calls.findSome? (ending txId)

inductive Moment where
  | start (txId : Nat)
  | commit (txId : Nat)
  deriving DecidableEq

def timestamp (manager : TransactionManager) : Moment → Option Nat
  | .start txId => (manager.transactions txId).map Transaction.startTimestamp
  | .commit txId => (manager.transactions txId).bind fun txn =>
    if txn.state = .committed then some txn.commitTimestamp else none

/-- What holds after some calls. -/
structure Orderly (calls : List Call) : Prop where
  increasing : (handedOut {} calls).Pairwise (· < ·)
  tables : ∀ t ∈ handedOut {} calls, ∃ txn, (after calls).transactions t = some txn ∧ txn.id = t ∧
    ((after calls).activeTransactions t = true ∧ (after calls).completedTransactions t = none ∧
        txn.state = .active ∨
      (after calls).activeTransactions t = false ∧ (after calls).completedTransactions t = some txn.state ∧
        txn.state ≠ .active)
  committed : ∀ t ∈ handedOut {} calls,
    (after calls).isTransactionCommitted t = true ↔ firstEnd t calls = some .committed
  settled : ∀ t, firstEnd t calls ≠ none → ∀ later, History (calls ++ later) →
    (after (calls ++ later)).isTransactionCommitted t = (after calls).isTransactionCommitted t
  repeated : ∀ t, firstEnd t calls ≠ none →
    (after calls).commitTransaction t = (false,after calls) ∧ (after calls).abortTransaction t = (false,after calls)
  distinct : ∀ first second time, timestamp (after calls) first = some time →
    timestamp (after calls) second = some time → first = second
  ordered : ∀ t started ended, timestamp (after calls) (.start t) = some started →
    timestamp (after calls) (.commit t) = some ended → started < ended

theorem step_wellformed (manager : TransactionManager) (call : Call) (wellformed : manager.Wellformed) :
    (step manager call).Wellformed := by
  cases call with
  | begin => exact begin_wellformed wellformed
  | commit txId => exact commit_wellformed wellformed txId
  | abort txId => exact abort_wellformed wellformed txId

theorem run_wellformed (manager : TransactionManager) (calls : List Call) (wellformed : manager.Wellformed) :
    (run step manager calls).Wellformed :=
  run_keeps TransactionManager.Wellformed step_wellformed manager calls wellformed

theorem after_wellformed (calls : List Call) : (after calls).Wellformed :=
  run_wellformed {} calls initial_wellformed

/-- Ids grow by one with every begin, and with nothing else. -/
theorem handedOut_spec (manager : TransactionManager) (calls : List Call) :
    (handedOut manager calls).Pairwise (· < ·) ∧
      (∀ t, t ∈ handedOut manager calls ↔
        manager.nextTransactionId ≤ t ∧ t < (run step manager calls).nextTransactionId) ∧
      manager.nextTransactionId ≤ (run step manager calls).nextTransactionId := by
  induction calls generalizing manager with
  | nil => exact ⟨.nil,fun t => by simp [handedOut],Nat.le_refl _⟩
  | cons call rest ih =>
    cases call with
    | begin =>
      obtain ⟨sorted,known,grows⟩ := ih manager.beginTransaction.2
      have next : manager.beginTransaction.2.nextTransactionId = manager.nextTransactionId + 1 := rfl
      rw [next] at known grows
      refine ⟨.cons (fun t later => ?_) sorted,fun t => ?_,Nat.le_of_succ_le grows⟩
      · exact ((known t).mp later).1
      · have id : manager.beginTransaction.1.id = manager.nextTransactionId := rfl
        rw [handedOut,List.mem_cons,known,id]
        change _ ↔ _ ∧ t < (run step manager.beginTransaction.2 rest).nextTransactionId
        omega
    | commit txId =>
      have same : (manager.commitTransaction txId).2.nextTransactionId = manager.nextTransactionId := by
        obtain ⟨-,unchanged⟩ | ⟨txn,-,-,moved⟩ := commit_cases txId manager
        · rw [unchanged]
        · rw [moved]
          rfl
      have later := ih (manager.commitTransaction txId).2
      rw [same] at later
      exact later
    | abort txId =>
      have same : (manager.abortTransaction txId).2.nextTransactionId = manager.nextTransactionId := by
        obtain ⟨-,unchanged⟩ | ⟨txn,-,-,moved⟩ := abort_cases txId manager
        · rw [unchanged]
        · rw [moved]
          rfl
      have later := ih (manager.abortTransaction txId).2
      rw [same] at later
      exact later

theorem handedOut_issued (calls : List Call) (t : Nat) : t ∈ handedOut {} calls ↔ (after calls).Issued t :=
  (handedOut_spec {} calls).2.1 t

/-- A finished transaction stays as it is. -/
theorem finished_completed (manager : TransactionManager) (wellformed : manager.Wellformed) (txId t : Nat)
    (issued : manager.Issued txId) (state : TransactionState)
    (finished : ∀ txn, manager.transactions txId = some txn → txn.state ≠ .active) :
    manager.completedTransactions t =
      (manager.completedTransactions t).or (if txId = t then some state else none) := by
  split
  · rename_i same
    subst same
    obtain ⟨txn,found⟩ := Option.isSome_iff_exists.mp ((wellformed.issued txId).mpr issued)
    rw [wellformed.completed,found,Option.bind_some,if_neg (finished txn found),Option.some_or]
  · exact (Option.or_none).symm

/-- An active transaction takes the end that a call gives it. -/
theorem active_completed (manager : TransactionManager) (wellformed : manager.Wellformed) (txId t clock : Nat)
    (txn next : Transaction) (found : manager.transactions txId = some txn) (active : txn.state = .active)
    (identity : next.id = txn.id) :
    (complete txId next {manager with currentTimestamp := clock}).completedTransactions t =
      (manager.completedTransactions t).or (if txId = t then some next.state else none) := by
  have named : next.id = txId := identity.trans (wellformed.identity txId txn found)
  simp only [complete,named]
  by_cases same : txId = t
  · subst same
    rw [Function.update_self,wellformed.completed,found,Option.bind_some,if_pos active,if_pos rfl,Option.none_or]
  · rw [Function.update_of_ne (Ne.symm same),if_neg same,Option.or_none]

theorem step_completed (manager : TransactionManager) (call : Call) (legal : Legal manager call)
    (wellformed : manager.Wellformed) (t : Nat) :
    (step manager call).completedTransactions t = (manager.completedTransactions t).or (ending t call) := by
  cases call with
  | begin => exact (Option.or_none).symm
  | commit txId =>
    obtain ⟨finished,unchanged⟩ | ⟨txn,found,active,moved⟩ := commit_cases txId manager
    · rw [step,unchanged]
      exact finished_completed manager wellformed txId t legal .committed finished
    · rw [step,moved]
      exact active_completed manager wellformed txId t _ txn _ found active rfl
  | abort txId =>
    obtain ⟨finished,unchanged⟩ | ⟨txn,found,active,moved⟩ := abort_cases txId manager
    · rw [step,unchanged]
      exact finished_completed manager wellformed txId t legal .aborted finished
    · rw [step,moved]
      exact active_completed manager wellformed txId t _ txn _ found active rfl

theorem run_completed (manager : TransactionManager) (calls : List Call)
    (guarded : Guarded step Legal manager calls) (wellformed : manager.Wellformed) (t : Nat) :
    (run step manager calls).completedTransactions t = (manager.completedTransactions t).or (firstEnd t calls) := by
  induction calls generalizing manager with
  | nil => exact (Option.or_none).symm
  | cons call rest ih =>
    have first := step_completed manager call guarded.1 wellformed t
    have later := ih (step manager call) guarded.2 (step_wellformed manager call wellformed)
    rw [run_cons,later,first,Option.or_assoc,firstEnd,firstEnd,List.findSome?_cons]
    cases ending t call <;> rfl

/-- The completed table holds the end that came first. -/
theorem after_completed (calls : List Call) (history : History calls) (t : Nat) :
    (after calls).completedTransactions t = firstEnd t calls :=
  (run_completed {} calls history initial_wellformed t).trans Option.none_or

theorem committed_completed (manager : TransactionManager) (wellformed : manager.Wellformed) (t : Nat)
    (issued : manager.Issued t) :
    manager.isTransactionCommitted t = true ↔ manager.completedTransactions t = some .committed := by
  obtain ⟨txn,found⟩ := Option.isSome_iff_exists.mp ((wellformed.issued t).mpr issued)
  rw [wellformed.committed,wellformed.completed,found]
  cases state : txn.state <;> simp [state]

theorem finished_state (manager : TransactionManager) (wellformed : manager.Wellformed) (t : Nat)
    (finished : manager.completedTransactions t ≠ none) (txn : Transaction)
    (found : manager.transactions t = some txn) : txn.state ≠ .active := by
  intro active
  rw [wellformed.completed,found,Option.bind_some,if_pos active] at finished
  exact finished rfl

theorem committed_finished (manager : TransactionManager) (wellformed : manager.Wellformed) (t : Nat)
    (state : TransactionState) (finished : manager.completedTransactions t = some state) :
    manager.isTransactionCommitted t = (state == .committed) := by
  have idle : manager.activeTransactions t = false := by
    rw [wellformed.active]
    cases found : manager.transactions t with
    | none => rfl
    | some txn => simpa using finished_state manager wellformed t (by simp [finished]) txn found
  rw [isTransactionCommitted,idle,finished]
  rfl

/-- A call takes the clock's reading for one moment at most, and leaves all others alone. -/
theorem step_timestamp (manager : TransactionManager) (call : Call) (wellformed : manager.Wellformed) :
    timestamp (step manager call) = timestamp manager ∨
      ∃ moment, timestamp (step manager call) =
        Function.update (timestamp manager) moment (some manager.currentTimestamp) := by
  cases call with
  | begin =>
    refine .inr ⟨.start manager.nextTransactionId,funext fun moment => ?_⟩
    have fresh := wellformed.fresh
    cases moment with
    | start t =>
      by_cases same : t = manager.nextTransactionId
      · subst same
        simp [timestamp,step,beginTransaction,getCurrentTimestamp]
      · simp [timestamp,step,beginTransaction,getCurrentTimestamp,same]
    | commit t =>
      by_cases same : t = manager.nextTransactionId
      · subst same
        simp [timestamp,step,beginTransaction,getCurrentTimestamp,fresh]
      · simp [timestamp,step,beginTransaction,getCurrentTimestamp,Function.update_of_ne same]
  | commit txId =>
    obtain ⟨-,unchanged⟩ | ⟨txn,found,active,moved⟩ := commit_cases txId manager
    · exact .inl (congrArg timestamp (congrArg Prod.snd unchanged))
    · refine .inr ⟨.commit txId,funext fun moment => ?_⟩
      simp only [step,moved]
      cases moment with
      | start t =>
        by_cases same : t = txId
        · subst same
          simp [timestamp,complete,found]
        · simp [timestamp,complete,Function.update_of_ne same]
      | commit t =>
        by_cases same : t = txId
        · subst same
          simp [timestamp,complete]
        · simp [timestamp,complete,same]
  | abort txId =>
    obtain ⟨-,unchanged⟩ | ⟨txn,found,active,moved⟩ := abort_cases txId manager
    · exact .inl (congrArg timestamp (congrArg Prod.snd unchanged))
    · refine .inl (funext fun moment => ?_)
      simp only [step,moved]
      cases moment with
      | start t =>
        by_cases same : t = txId
        · subst same
          simp [timestamp,complete,found]
        · simp [timestamp,complete,Function.update_of_ne same]
      | commit t =>
        by_cases same : t = txId
        · subst same
          simp [timestamp,complete,found,active]
        · simp [timestamp,complete,Function.update_of_ne same]

theorem timestamp_early (manager : TransactionManager) (wellformed : manager.Wellformed) (moment : Moment)
    (time : Nat) (taken : timestamp manager moment = some time) : time < manager.currentTimestamp := by
  cases moment with
  | start t =>
    obtain ⟨txn,found,rfl⟩ := Option.map_eq_some_iff.mp taken
    exact wellformed.started t txn found
  | commit t =>
    obtain ⟨txn,found,given⟩ := Option.bind_eq_some_iff.mp taken
    rw [Option.ite_none_right_eq_some] at given
    obtain ⟨committed,same⟩ := given
    cases same
    exact (wellformed.ended t txn found committed).2

def Distinct (manager : TransactionManager) : Prop :=
  ∀ first second time, timestamp manager first = some time → timestamp manager second = some time → first = second

/-- The reading is later than all the timestamps there are. -/
theorem step_distinct (manager : TransactionManager) (call : Call)
    (kept : manager.Wellformed ∧ Distinct manager) :
    (step manager call).Wellformed ∧ Distinct (step manager call) := by
  obtain ⟨wellformed,distinct⟩ := kept
  refine ⟨step_wellformed manager call wellformed,fun first second time one other => ?_⟩
  obtain same | ⟨moment,taken⟩ := step_timestamp manager call wellformed
  · rw [same] at one other
    exact distinct first second time one other
  · have late (old : Moment) : timestamp manager old ≠ some manager.currentTimestamp :=
      fun present => Nat.lt_irrefl _ (timestamp_early manager wellformed old _ present)
    rw [taken,Function.update_apply] at one other
    split at one
    · rename_i here
      split at other
      · rename_i there
        exact here.trans there.symm
      · cases one
        exact absurd other (late second)
    · split at other
      · cases other
        exact absurd one (late first)
      · exact distinct first second time one other

theorem after_distinct (calls : List Call) : Distinct (after calls) :=
  (run_keeps (fun manager => manager.Wellformed ∧ Distinct manager) step_distinct {} calls
    ⟨initial_wellformed,fun first _ _ taken => by cases first <;> cases taken⟩).2

/-- Calls in any order keep the lives of transactions orderly. -/
theorem lifecycle (calls : List Call) (history : History calls) : Orderly calls where
  increasing := (handedOut_spec {} calls).1
  tables t member := by
    have wellformed := after_wellformed calls
    obtain ⟨txn,found⟩ := Option.isSome_iff_exists.mp
      ((wellformed.issued t).mpr ((handedOut_issued calls t).mp member))
    refine ⟨txn,found,wellformed.identity t txn found,?_⟩
    rw [wellformed.active,wellformed.completed,found]
    cases state : txn.state <;> simp [state]
  committed t member := by
    rw [← after_completed calls history t]
    exact committed_completed _ (after_wellformed calls) t ((handedOut_issued calls t).mp member)
  settled t ended later longer := by
    obtain ⟨state,first⟩ := Option.ne_none_iff_exists'.mp ended
    have longerFirst : firstEnd t (calls ++ later) = some state := by
      rw [firstEnd,List.findSome?_append,← firstEnd,first,Option.some_or]
    rw [committed_finished _ (after_wellformed _) t state ((after_completed _ longer t).trans longerFirst),
      committed_finished _ (after_wellformed _) t state ((after_completed _ history t).trans first)]
  repeated t ended := by
    have finished : (after calls).completedTransactions t ≠ none := after_completed calls history t ▸ ended
    have state := finished_state (after calls) (after_wellformed calls) t finished
    constructor
    · obtain ⟨-,unchanged⟩ | ⟨txn,found,active,-⟩ := commit_cases t (after calls)
      · exact unchanged
      · exact absurd active (state txn found)
    · obtain ⟨-,unchanged⟩ | ⟨txn,found,active,-⟩ := abort_cases t (after calls)
      · exact unchanged
      · exact absurd active (state txn found)
  distinct := after_distinct calls
  ordered t started ended start commit := by
    obtain ⟨txn,found,rfl⟩ := Option.map_eq_some_iff.mp start
    obtain ⟨other,again,given⟩ := Option.bind_eq_some_iff.mp commit
    cases found.symm.trans again
    rw [Option.ite_none_right_eq_some] at given
    obtain ⟨committed,same⟩ := given
    cases same
    exact ((after_wellformed calls).ended t txn found committed).1

/-- Two transactions that are ended twice each, in contrary ways. -/
theorem lifecycle_contrary : Orderly [.begin,.begin,.commit 1,.abort 1,.abort 2,.commit 2] :=
  lifecycle [.begin,.begin,.commit 1,.abort 1,.abort 2,.commit 2] (by decide)

end LoreDB.Transaction.Lifecycle
