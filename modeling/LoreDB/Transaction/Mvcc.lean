import Mathlib.Logic.Function.Basic

/-! The transaction manager: ids, timestamps and the active and completed tables.
`TransactionId` and `Timestamp` are natural numbers here; the 64-bit counters of the
source would wrap only after 2^64 begins. -/
namespace LoreDB.Transaction

inductive TransactionState where
  | active | committed | aborted
  deriving DecidableEq, Repr

set_option linter.dupNamespace false in
structure Transaction where
  id : Nat
  startTimestamp : Nat := 0
  commitTimestamp : Nat := 0
  state : TransactionState := .active
  deriving DecidableEq, Repr

/-- `transactions` holds the shared `Transaction` objects. A `shared_ptr` to one is
named by the id it was issued under, also in `activeTransactions`. -/
structure TransactionManager where
  nextTransactionId : Nat := 1
  currentTimestamp : Nat := 1
  transactions : Nat → Option Transaction := fun _ => none
  activeTransactions : Nat → Bool := fun _ => false
  completedTransactions : Nat → Option TransactionState := fun _ => none

namespace TransactionManager

def getCurrentTimestamp (manager : TransactionManager) : Nat × TransactionManager :=
  (manager.currentTimestamp,{manager with currentTimestamp := manager.currentTimestamp + 1})

def beginTransaction (manager : TransactionManager) : Transaction × TransactionManager :=
  let tid := manager.nextTransactionId
  let (start,manager) := {manager with nextTransactionId := tid + 1}.getCurrentTimestamp
  let txn : Transaction := {id := tid, startTimestamp := start}
  (txn,{manager with
    transactions := Function.update manager.transactions tid (some txn)
    activeTransactions := Function.update manager.activeTransactions tid true})

/-- Moves a transaction object that has reached `txn` from the active to the
completed table. -/
def complete (handle : Nat) (txn : Transaction) (manager : TransactionManager) :
    TransactionManager :=
  {manager with
    transactions := Function.update manager.transactions handle (some txn)
    activeTransactions := Function.update manager.activeTransactions txn.id false
    completedTransactions := Function.update manager.completedTransactions txn.id (some txn.state)}

def commitTransaction (handle : Nat) (manager : TransactionManager) :
    Bool × TransactionManager :=
  match manager.transactions handle with
  | none => (false,manager)
  | some txn =>
    if txn.state ≠ .active then (false,manager)
    else
      let (commit,manager) := manager.getCurrentTimestamp
      (true,complete handle {txn with commitTimestamp := commit, state := .committed} manager)

def abortTransaction (handle : Nat) (manager : TransactionManager) :
    Bool × TransactionManager :=
  match manager.transactions handle with
  | none => (false,manager)
  | some txn =>
    if txn.state ≠ .active then (false,manager)
    else (true,complete handle {txn with state := .aborted} manager)

def isTransactionCommitted (manager : TransactionManager) (txId : Nat) : Bool :=
  if manager.activeTransactions txId then false
  else match manager.completedTransactions txId with
    | some state => state == .committed
    -- an id in neither table is taken for an old transaction
    | none => true

/-- The test by timestamps. No caller makes it. -/
def isVisible (createdAt deletedAt readTimestamp : Nat) : Bool :=
  if readTimestamp < createdAt then false
  else if 0 < deletedAt ∧ deletedAt ≤ readTimestamp then false
  else true

/-- The state of an issued transaction's object. -/
def stateOf (manager : TransactionManager) (txId : Nat) : Option TransactionState :=
  (manager.transactions txId).map Transaction.state

/-- Ids are handed out from 1 on. -/
def Issued (manager : TransactionManager) (txId : Nat) : Prop :=
  0 < txId ∧ txId < manager.nextTransactionId

instance (manager : TransactionManager) (txId : Nat) : Decidable (manager.Issued txId) :=
  inferInstanceAs (Decidable (_ ∧ _))

/-- `t` committed before `u` began. -/
def CommittedBefore (manager : TransactionManager) (t u : Nat) : Prop :=
  ∃ x ∈ manager.transactions t, ∃ y ∈ manager.transactions u,
    x.state = .committed ∧ x.commitTimestamp < y.startTimestamp

instance (manager : TransactionManager) (t u : Nat) : Decidable (manager.CommittedBefore t u) :=
  inferInstanceAs (Decidable (∃ x ∈ _, ∃ y ∈ _, _ ∧ _))

/-- A later record of the same transaction: its start never moves, and nothing moves
once it has finished. -/
def Continues (earlier later : Transaction) : Prop :=
  later.startTimestamp = earlier.startTimestamp ∧ (earlier.state ≠ .active → later = earlier)

/-- The tables agree with the transaction objects, and every timestamp was taken
from the clock. -/
structure Wellformed (manager : TransactionManager) : Prop where
  positive : 0 < manager.nextTransactionId
  issued : ∀ t, (manager.transactions t).isSome = true ↔ manager.Issued t
  identity : ∀ t txn, manager.transactions t = some txn → txn.id = t
  active : ∀ t, manager.activeTransactions t =
    (manager.transactions t).any (fun txn => txn.state == .active)
  completed : ∀ t, manager.completedTransactions t =
    (manager.transactions t).bind (fun txn => if txn.state = .active then none else some txn.state)
  started : ∀ t txn, manager.transactions t = some txn →
    txn.startTimestamp < manager.currentTimestamp
  ended : ∀ t txn, manager.transactions t = some txn → txn.state = .committed →
    txn.startTimestamp < txn.commitTimestamp ∧ txn.commitTimestamp < manager.currentTimestamp

theorem initial_wellformed : Wellformed {} where
  positive := Nat.one_pos
  issued t := by
    simp only [Issued]
    constructor
    · intro absurd
      simp at absurd
    · omega
  identity t txn found := by simp at found
  active t := rfl
  completed t := rfl
  started t txn found := by simp at found
  ended t txn found := by simp at found

/-- Under the tables' agreement the committed test reads the object's state. -/
theorem Wellformed.committed {manager : TransactionManager} (wellformed : manager.Wellformed)
    (t : Nat) :
    manager.isTransactionCommitted t =
      (manager.transactions t).all (fun txn => txn.state == .committed) := by
  unfold isTransactionCommitted
  rw [wellformed.active t,wellformed.completed t]
  cases found : manager.transactions t with
  | none => rfl
  | some txn => cases state : txn.state <;> simp [state]

theorem Wellformed.committed_state {manager : TransactionManager} (wellformed : manager.Wellformed)
    (t : Nat) (issued : manager.Issued t) :
    manager.isTransactionCommitted t = true ↔ manager.stateOf t = some .committed := by
  obtain ⟨txn,found⟩ := Option.isSome_iff_exists.mp ((wellformed.issued t).mpr issued)
  simp [wellformed.committed,stateOf,found]

theorem Wellformed.fresh {manager : TransactionManager} (wellformed : manager.Wellformed) :
    manager.transactions manager.nextTransactionId = none := by
  have absent := wellformed.issued manager.nextTransactionId
  cases found : manager.transactions manager.nextTransactionId with
  | none => rfl
  | some txn =>
    have issued := absent.mp (by simp [found])
    exact absurd issued.2 (Nat.lt_irrefl _)

theorem begin_wellformed {manager : TransactionManager} (wellformed : manager.Wellformed) :
    manager.beginTransaction.2.Wellformed := by
  have fresh := wellformed.fresh
  constructor
  · exact Nat.succ_pos _
  · intro t
    simp only [beginTransaction,getCurrentTimestamp,Issued]
    by_cases same : t = manager.nextTransactionId
    · subst t
      have := wellformed.positive
      simp [this]
    · rw [Function.update_of_ne same]
      refine (wellformed.issued t).trans ?_
      simp only [Issued]
      omega
  · intro t txn found
    simp only [beginTransaction,getCurrentTimestamp,Function.update_apply] at found
    split at found
    · cases Option.some.inj found
      simp_all
    · exact wellformed.identity t txn found
  · intro t
    simp only [beginTransaction,getCurrentTimestamp,Function.update_apply]
    split
    · rfl
    · exact wellformed.active t
  · intro t
    simp only [beginTransaction,getCurrentTimestamp,Function.update_apply]
    split
    · rename_i same
      subst same
      rw [wellformed.completed,fresh]
      rfl
    · exact wellformed.completed t
  · intro t txn found
    simp only [beginTransaction,getCurrentTimestamp,Function.update_apply] at found ⊢
    split at found
    · cases Option.some.inj found
      exact Nat.lt_succ_self _
    · exact Nat.lt_succ_of_lt (wellformed.started t txn found)
  · intro t txn found ended
    simp only [beginTransaction,getCurrentTimestamp,Function.update_apply] at found ⊢
    split at found
    · cases Option.some.inj found
      simp at ended
    · have times := wellformed.ended t txn found ended
      omega

theorem complete_wellformed {manager : TransactionManager} (wellformed : manager.Wellformed)
    (t : Nat) (old txn : Transaction) (found : manager.transactions t = some old)
    (identity : txn.id = t) (started : txn.startTimestamp = old.startTimestamp)
    (finished : txn.state ≠ .active) (clock : Nat) (later : manager.currentTimestamp ≤ clock)
    (ended : txn.state = .committed →
      txn.startTimestamp < txn.commitTimestamp ∧ txn.commitTimestamp < clock) :
    (complete t txn {manager with currentTimestamp := clock}).Wellformed := by
  have startedBefore := wellformed.started t old found
  constructor
  · exact wellformed.positive
  · intro u
    simp only [complete,Function.update_apply,Issued]
    split
    · rename_i same
      subst same
      simpa [found,Issued] using wellformed.issued u
    · exact wellformed.issued u
  · intro u other lookup
    simp only [complete,Function.update_apply] at lookup
    split at lookup
    · rename_i same
      cases Option.some.inj lookup
      exact identity.trans same.symm
    · exact wellformed.identity u other lookup
  · intro u
    simp only [complete,Function.update_apply,identity]
    split
    · simpa using finished
    · exact wellformed.active u
  · intro u
    simp only [complete,Function.update_apply,identity]
    split
    · simp [finished]
    · exact wellformed.completed u
  · intro u other lookup
    simp only [complete,Function.update_apply] at lookup ⊢
    split at lookup
    · cases Option.some.inj lookup
      omega
    · exact Nat.lt_of_lt_of_le (wellformed.started u other lookup) later
  · intro u other lookup committed
    simp only [complete,Function.update_apply] at lookup ⊢
    split at lookup
    · cases Option.some.inj lookup
      exact ended committed
    · have times := wellformed.ended u other lookup committed
      omega

/-- A commit call either finds its transaction finished and changes nothing, or
moves an active one to the committed state under a fresh timestamp. -/
theorem commit_cases (handle : Nat) (manager : TransactionManager) :
    ((∀ txn, manager.transactions handle = some txn → txn.state ≠ .active) ∧
      manager.commitTransaction handle = (false,manager)) ∨
    ∃ txn, manager.transactions handle = some txn ∧ txn.state = .active ∧
      manager.commitTransaction handle = (true,complete handle
        {txn with commitTimestamp := manager.currentTimestamp, state := .committed}
        {manager with currentTimestamp := manager.currentTimestamp + 1}) := by
  unfold commitTransaction getCurrentTimestamp
  cases found : manager.transactions handle with
  | none => exact .inl ⟨by simp,rfl⟩
  | some txn =>
    by_cases state : txn.state = .active
    · exact .inr ⟨txn,rfl,state,by simp [state]⟩
    · exact .inl ⟨by simpa using state,by simp [state]⟩

theorem abort_cases (handle : Nat) (manager : TransactionManager) :
    ((∀ txn, manager.transactions handle = some txn → txn.state ≠ .active) ∧
      manager.abortTransaction handle = (false,manager)) ∨
    ∃ txn, manager.transactions handle = some txn ∧ txn.state = .active ∧
      manager.abortTransaction handle =
        (true,complete handle {txn with state := .aborted} manager) := by
  unfold abortTransaction
  cases found : manager.transactions handle with
  | none => exact .inl ⟨by simp,rfl⟩
  | some txn =>
    by_cases state : txn.state = .active
    · exact .inr ⟨txn,rfl,state,by simp [state]⟩
    · exact .inl ⟨by simpa using state,by simp [state]⟩

theorem begin_continues {manager : TransactionManager} (wellformed : manager.Wellformed)
    (t : Nat) (txn : Transaction) (found : manager.transactions t = some txn) :
    ∃ later, manager.beginTransaction.2.transactions t = some later ∧ Continues txn later := by
  have other : t ≠ manager.nextTransactionId := by
    rintro rfl
    simp [wellformed.fresh] at found
  exact ⟨txn,by simp [beginTransaction,getCurrentTimestamp,Function.update_of_ne other,found],
    rfl,fun _ => rfl⟩

theorem complete_continues (manager : TransactionManager) (handle : Nat) (old next : Transaction)
    (lookup : manager.transactions handle = some old) (active : old.state = .active)
    (started : next.startTimestamp = old.startTimestamp) (clock t : Nat) (txn : Transaction)
    (found : manager.transactions t = some txn) :
    ∃ later, (complete handle next {manager with currentTimestamp := clock}).transactions t =
      some later ∧ Continues txn later := by
  by_cases same : t = handle
  · subst same
    cases Option.some.inj (found.symm.trans lookup)
    exact ⟨next,by simp [complete],started,fun finished => absurd active finished⟩
  · exact ⟨txn,by simp [complete,Function.update_of_ne same,found],rfl,fun _ => rfl⟩

theorem commit_continues (manager : TransactionManager) (handle t : Nat) (txn : Transaction)
    (found : manager.transactions t = some txn) :
    ∃ later, (manager.commitTransaction handle).2.transactions t = some later ∧
      Continues txn later := by
  obtain ⟨_,same⟩ | ⟨old,lookup,active,moved⟩ := commit_cases handle manager
  · exact ⟨txn,by rw [same,found],rfl,fun _ => rfl⟩
  · rw [moved]
    refine complete_continues manager handle old _ lookup active ?_ _ t txn found
    rfl

theorem abort_continues (manager : TransactionManager) (handle t : Nat) (txn : Transaction)
    (found : manager.transactions t = some txn) :
    ∃ later, (manager.abortTransaction handle).2.transactions t = some later ∧
      Continues txn later := by
  obtain ⟨_,same⟩ | ⟨old,lookup,active,moved⟩ := abort_cases handle manager
  · exact ⟨txn,by rw [same,found],rfl,fun _ => rfl⟩
  · rw [moved]
    refine complete_continues manager handle old _ lookup active ?_ _ t txn found
    rfl

section Steps

variable {manager : TransactionManager} (wellformed : manager.Wellformed)
include wellformed

theorem commit_wellformed (handle : Nat) : (manager.commitTransaction handle).2.Wellformed := by
  obtain ⟨_,same⟩ | ⟨txn,found,_,moved⟩ := commit_cases handle manager
  · rw [same]
    exact wellformed
  · rw [moved]
    have started := wellformed.started handle txn found
    exact complete_wellformed wellformed handle txn
      {txn with commitTimestamp := manager.currentTimestamp, state := .committed} found
      (wellformed.identity handle txn found) rfl (by simp) _ (Nat.le_succ _)
      (fun _ => ⟨started,Nat.lt_succ_self _⟩)

theorem abort_wellformed (handle : Nat) : (manager.abortTransaction handle).2.Wellformed := by
  obtain ⟨_,same⟩ | ⟨txn,found,_,moved⟩ := abort_cases handle manager
  · rw [same]
    exact wellformed
  · rw [moved]
    exact complete_wellformed wellformed handle txn {txn with state := .aborted} found
      (wellformed.identity handle txn found) rfl (by simp) _ (Nat.le_refl _) (by simp)

theorem begin_committed (t : Nat) (issued : manager.Issued t) :
    manager.beginTransaction.2.isTransactionCommitted t = manager.isTransactionCommitted t := by
  have other : t ≠ manager.nextTransactionId := Nat.ne_of_lt issued.2
  rw [(begin_wellformed wellformed).committed,wellformed.committed]
  simp [beginTransaction,getCurrentTimestamp,Function.update_of_ne other]

theorem commit_committed (handle t : Nat) :
    (manager.commitTransaction handle).2.isTransactionCommitted t =
      (manager.isTransactionCommitted t || t == handle && manager.activeTransactions handle) := by
  rw [(commit_wellformed wellformed handle).committed,wellformed.committed,
    wellformed.active handle]
  obtain ⟨finished,same⟩ | ⟨txn,found,state,moved⟩ := commit_cases handle manager
  · have idle : (manager.transactions handle).any (fun txn => txn.state == .active) = false := by
      cases found : manager.transactions handle with
      | none => rfl
      | some txn => simpa using finished txn found
    simp [same,idle]
  · rw [moved]
    by_cases same : t = handle
    · subst same
      simp [complete,found,state]
    · simp [complete,same]

theorem abort_committed (handle t : Nat) :
    (manager.abortTransaction handle).2.isTransactionCommitted t =
      manager.isTransactionCommitted t := by
  rw [(abort_wellformed wellformed handle).committed,wellformed.committed]
  obtain ⟨_,same⟩ | ⟨txn,found,state,moved⟩ := abort_cases handle manager
  · rw [same]
  · rw [moved]
    by_cases same : t = handle
    · subst same
      simp [complete,found,state]
    · simp [complete,Function.update_of_ne same]

end Steps

end TransactionManager

end LoreDB.Transaction
