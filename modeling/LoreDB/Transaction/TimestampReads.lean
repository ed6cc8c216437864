import LoreDB.Transaction.Lifecycle
import LoreDB.Transaction.MvccManager

/-! Visibility by timestamps. The versions are told apart by ids, and the timestamps that transactions are given are
never compared; where they are, a reader sees what had been committed when it began. -/
namespace LoreDB.Transaction.Lifecycle
open LoreDB.Library.History TransactionManager

/-- The transaction had committed after these calls. -/
def CommittedIn (calls : List Call) (t : Nat) : Prop := firstEnd t calls = some .committed

/-- The transaction was running after these calls. -/
def RunningIn (calls : List Call) (t : Nat) : Prop := t ∈ handedOut {} calls ∧ firstEnd t calls = none

theorem step_continues (manager : TransactionManager) (call : Call) (wellformed : manager.Wellformed) (t : Nat)
    (txn : Transaction) (found : manager.transactions t = some txn) :
    ∃ later, (step manager call).transactions t = some later ∧ Continues txn later := by
  cases call with
  | begin => exact begin_continues wellformed t txn found
  | commit txId => exact commit_continues manager txId t txn found
  | abort txId => exact abort_continues manager txId t txn found

theorem run_continues (manager : TransactionManager) (calls : List Call) (wellformed : manager.Wellformed) (t : Nat)
    (txn : Transaction) (found : manager.transactions t = some txn) :
    ∃ later, (run step manager calls).transactions t = some later ∧ Continues txn later := by
  induction calls generalizing manager txn with
  | nil => exact ⟨txn,found,rfl,fun _ => rfl⟩
  | cons call rest ih =>
    obtain ⟨next,moved,started,finished⟩ := step_continues manager call wellformed t txn found
    obtain ⟨last,ended,begun,settled⟩ := ih _ (step_wellformed manager call wellformed) next moved
    refine ⟨last,ended,begun.trans started,fun passed => ?_⟩
    cases finished passed
    exact settled passed

theorem step_clock (manager : TransactionManager) (call : Call) :
    manager.currentTimestamp ≤ (step manager call).currentTimestamp := by
  cases call with
  | begin => exact Nat.le_succ _
  | commit txId =>
    obtain ⟨-,unchanged⟩ | ⟨txn,-,-,moved⟩ := commit_cases txId manager
    · rw [step,unchanged]
    · rw [step,moved]
      exact Nat.le_succ _
  | abort txId =>
    obtain ⟨-,unchanged⟩ | ⟨txn,-,-,moved⟩ := abort_cases txId manager
    · rw [step,unchanged]
    · rw [step,moved]
      exact Nat.le_refl _

/-- A time has passed, and the transaction has not committed by then. -/
structure Late (t time : Nat) (manager : TransactionManager) : Prop where
  wellformed : manager.Wellformed
  passed : time < manager.currentTimestamp
  later : ∀ ended, timestamp manager (.commit t) = some ended → time < ended

theorem step_late (t time : Nat) (manager : TransactionManager) (call : Call) (late : Late t time manager) :
    Late t time (step manager call) where
  wellformed := step_wellformed manager call late.wellformed
  passed := Nat.lt_of_lt_of_le late.passed (step_clock manager call)
  later ended taken := by
    obtain same | ⟨moment,moved⟩ := step_timestamp manager call late.wellformed
    · exact late.later ended (same ▸ taken)
    · rw [moved,Function.update_apply] at taken
      split at taken
      · cases taken
        exact late.passed
      · exact late.later ended taken

section Splits

variable (before rest : List Call)

/-- The next transaction to begin, and the time at which it does. -/
def beginner : Nat := (after before).nextTransactionId

def beginning : Nat := (after before).currentTimestamp

/-- What follows the beginning of a transaction. -/
def continued : List Call := before ++ .begin::rest

theorem after_continued : after (continued before rest) = run step (step (after before) .begin) rest := by
  simp [after,continued]

theorem begun_starts (started : Nat) (taken : timestamp (after (continued before rest)) (.start (beginner before)) =
    some started) : started = beginning before := by
  have wellformed := after_wellformed before
  obtain ⟨last,found,begun,-⟩ := run_continues (step (after before) .begin) rest (step_wellformed _ .begin wellformed)
    (beginner before) {id := beginner before, startTimestamp := beginning before} (by
      simp [step,beginTransaction,getCurrentTimestamp,beginner,beginning])
  rw [after_continued,timestamp,found] at taken
  exact (Option.some.inj taken).symm.trans begun

variable {before rest}

/-- A transaction has committed before the other one begins, with an earlier timestamp, or after it with a later
one. -/
theorem commit_sides (history : History before) (t ended : Nat)
    (taken : timestamp (after (continued before rest)) (.commit t) = some ended) :
    CommittedIn before t ∧ ended < beginning before ∨ firstEnd t before = none ∧ beginning before < ended := by
  have wellformed := after_wellformed before
  have tables := after_completed before history t
  rw [wellformed.completed] at tables
  rw [after_continued] at taken
  have begun := step_wellformed (after before) .begin wellformed
  have ends (state : (after before).transactions t = none ∨ ∃ txn, (after before).transactions t = some txn ∧
      txn.state = .active) : beginning before < ended := by
    have late : Late t (beginning before) (step (after before) .begin) := by
      refine ⟨begun,Nat.lt_succ_self _,fun ended taken => ?_⟩
      exfalso
      by_cases same : t = (after before).nextTransactionId
      · simp [timestamp,step,beginTransaction,getCurrentTimestamp,same] at taken
      · rcases state with absent | ⟨txn,found,active⟩
        · simp [timestamp,step,beginTransaction,getCurrentTimestamp,same,absent] at taken
        · simp [timestamp,step,beginTransaction,getCurrentTimestamp,same,found,active] at taken
    exact (run_keeps (Late t (beginning before)) (step_late t (beginning before)) _ rest late).later ended taken
  cases found : (after before).transactions t with
  | none =>
    rw [found] at tables
    exact .inr ⟨tables.symm,ends (.inl found)⟩
  | some txn =>
    rw [found,Option.bind_some] at tables
    cases state : txn.state with
    | active =>
      rw [state,if_pos rfl] at tables
      exact .inr ⟨tables.symm,ends (.inr ⟨txn,found,state⟩)⟩
    | committed =>
      rw [state,if_neg (by decide)] at tables
      obtain ⟨next,moved,-,finished⟩ := step_continues (after before) .begin wellformed t txn found
      cases finished (by simp [state])
      obtain ⟨last,kept,-,settled⟩ := run_continues _ rest begun t txn moved
      cases settled (by simp [state])
      simp only [timestamp,kept,Option.bind_some,state,if_true,Option.some.injEq] at taken
      exact .inl ⟨tables.symm,taken ▸ (wellformed.ended t txn found state).2⟩
    | aborted =>
      obtain ⟨next,moved,-,finished⟩ := step_continues (after before) .begin wellformed t txn found
      cases finished (by simp [state])
      obtain ⟨last,kept,-,settled⟩ := run_continues _ rest begun t txn moved
      cases settled (by simp [state])
      simp [timestamp,kept,state] at taken

theorem committed_issued (history : History before) (t : Nat) (committed : CommittedIn before t) :
    (after before).Issued t := by
  have wellformed := after_wellformed before
  have tables := after_completed before history t
  rw [wellformed.completed,show firstEnd t before = some .committed from committed] at tables
  obtain ⟨txn,found,_⟩ := Option.bind_eq_some_iff.mp tables
  exact (wellformed.issued t).mp (by rw [found]; rfl)

theorem taken_committed {manager : TransactionManager} (wellformed : manager.Wellformed) (t ended : Nat)
    (taken : timestamp manager (.commit t) = some ended) :
    0 < ended ∧ manager.Issued t ∧ manager.isTransactionCommitted t = true := by
  obtain ⟨txn,found,given⟩ := Option.bind_eq_some_iff.mp taken
  rw [Option.ite_none_right_eq_some] at given
  obtain ⟨state,same⟩ := given
  cases same
  refine ⟨Nat.zero_lt_of_lt (wellformed.ended t txn found state).1,(wellformed.issued t).mp (by rw [found]; rfl),?_⟩
  rw [wellformed.committed,found]
  simp [state]

/-- Of transactions that were not running when another one began, those with smaller ids had committed. -/
theorem commit_ids (history : History before) (t ended : Nat)
    (taken : timestamp (after (continued before rest)) (.commit t) = some ended) (apart : ¬RunningIn before t) :
    t < beginner before ↔ CommittedIn before t := by
  refine ⟨fun below => ?_,fun committed => (committed_issued history t committed).2⟩
  rcases commit_sides history t ended taken with ⟨committed,_⟩ | ⟨unfinished,_⟩
  · exact committed
  · have issued := (taken_committed (after_wellformed _) t ended taken).2.1
    exact absurd ⟨(handedOut_issued before t).mpr ⟨issued.1,below⟩,unfinished⟩ apart

end Splits

/-- By timestamps a reader sees of the committed versions exactly those that were there when it began. The test by
ids agrees with that unless the version's writer or its remover was running at that time. -/
theorem timestamps_tell (before rest : List Call) (history : History (continued before rest))
    (c d created deleted started : Nat)
    (creating : timestamp (after (continued before rest)) (.commit c) = some created)
    (deleting : d = 0 ∧ deleted = 0 ∨ timestamp (after (continued before rest)) (.commit d) = some deleted)
    (starting : timestamp (after (continued before rest)) (.start (beginner before)) = some started) :
    (isVisible created deleted started = true ↔ CommittedIn before c ∧ ¬CommittedIn before d) ∧
      (c ≠ beginner before → d ≠ beginner before → ¬RunningIn before c → ¬RunningIn before d →
        isVersionVisible (after (continued before rest)) (beginner before) {createdTxId := c, deletedTxId := d} =
          isVisible created deleted started) := by
  have early : History before := ((guarded_append _ before (.begin::rest)).mp history).1
  have wellformed := after_wellformed (continued before rest)
  cases begun_starts before rest started starting
  have made : created ≤ beginning before ↔ CommittedIn before c := by
    rcases commit_sides early c created creating with ⟨committed,sooner⟩ | ⟨unfinished,later⟩
    · exact ⟨fun _ => committed,fun _ => Nat.le_of_lt sooner⟩
    · refine ⟨fun sooner => absurd later (Nat.not_lt.mpr sooner),fun committed => ?_⟩
      cases unfinished.symm.trans committed
  have removed : 0 < deleted ∧ deleted ≤ beginning before ↔ CommittedIn before d := by
    rcases deleting with ⟨rfl,rfl⟩ | taken
    · exact ⟨fun positive => absurd positive.1 (Nat.lt_irrefl 0),
        fun committed => absurd (committed_issued early 0 committed).1 (Nat.lt_irrefl 0)⟩
    · have positive := (taken_committed wellformed d deleted taken).1
      rcases commit_sides early d deleted taken with ⟨committed,sooner⟩ | ⟨unfinished,later⟩
      · exact ⟨fun _ => committed,fun _ => ⟨positive,Nat.le_of_lt sooner⟩⟩
      · refine ⟨fun sooner => absurd later (Nat.not_lt.mpr sooner.2),fun committed => ?_⟩
        cases unfinished.symm.trans committed
  have told : isVisible created deleted (beginning before) = true ↔ CommittedIn before c ∧ ¬CommittedIn before d := by
    rw [← made,← removed]
    unfold isVisible
    split
    · rename_i later
      simp [Nat.not_le.mpr later]
    · rename_i sooner
      have within := Nat.not_lt.mp sooner
      split
      · rename_i gone
        simp [gone]
      · rename_i held
        simp [within,held]
  refine ⟨told,fun writer remover apart distant => Bool.eq_iff_iff.mpr ?_⟩
  rw [told,visible_iff]
  have creator := (taken_committed wellformed c created creating).2.2
  have live : (d = 0 ∨ d ≠ beginner before ∧
      ¬((after (continued before rest)).isTransactionCommitted d = true ∧ d < beginner before)) ↔ ¬CommittedIn before d := by
    rcases deleting with ⟨rfl,_⟩ | taken
    · exact ⟨fun _ committed => absurd (committed_issued early 0 committed).1 (Nat.lt_irrefl 0),fun _ => .inl rfl⟩
    · obtain ⟨_,issued,committed⟩ := taken_committed wellformed d deleted taken
      rw [← commit_ids early d deleted taken distant]
      simp [committed,remover,Nat.ne_of_gt issued.1]
  rw [← commit_ids early c created creating apart]
  simp only [writer,creator,false_and,false_or,true_and,live]

/-- A writer that was running when the reader began, and a remover that began later. -/
theorem timestamps_tell_running :
    let before := [Call.begin,.begin]
    let rest := [Call.commit 1,.begin,.commit 4]
    (isVisible 4 6 3 = true ↔ CommittedIn before 1 ∧ ¬CommittedIn before 4) ∧
      isVersionVisible (after (continued before rest)) 3 {createdTxId := 1, deletedTxId := 4} = true := by
  refine ⟨?_,by decide⟩
  exact (timestamps_tell [.begin,.begin] [.commit 1,.begin,.commit 4] (by decide) 1 4 4 6 3 (by decide)
    (.inr (by decide)) (by decide)).1

end LoreDB.Transaction.Lifecycle
