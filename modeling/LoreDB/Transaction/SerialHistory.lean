import LoreDB.Transaction.MvccHistory

/-! Serial committed histories. Under them the version store is a plain map from
keys to their last live versions, whatever is collected on the way. -/
namespace LoreDB.Transaction.SerialHistory
open LoreDB.Library LoreDB.Library.History MvccHistory TransactionManager

/-- The plain map: a live write binds its key and a tombstone unbinds it. -/
def plainStep (contents : UInt64 → Option Version) : Call → UInt64 → Option Version
  | .write key version =>
    Function.update contents key (if version.deletedTxId = 0 then some version else none)
  | _ => contents

def plain (calls : List Call) : UInt64 → Option Version := run plainStep (fun _ => none) calls

/-- The last issued transaction while it runs, and otherwise the next one to begin. -/
def current (manager : TransactionManager) : Nat :=
  if manager.activeTransactions (manager.nextTransactionId - 1) then
    manager.nextTransactionId - 1
  else manager.nextTransactionId

/-- A transaction begins only when none runs, the running one makes all writes and
commits, and nothing is collected from its id on. -/
def Serial (manager : MVCCManager) : Call → Prop
  | .begin => manager.txnManager.activeTransactions (current manager.txnManager) = false
  | .commit txId => txId = current manager.txnManager ∧
      manager.txnManager.activeTransactions txId = true
  | .abort _ => False
  | .write _ version => version.createdTxId = current manager.txnManager ∧
      manager.txnManager.activeTransactions version.createdTxId = true ∧
      (version.deletedTxId = 0 ∨ version.deletedTxId = version.createdTxId)
  | .collect minActiveTxId => minActiveTxId ≤ current manager.txnManager

instance (manager : MVCCManager) : (call : Call) → Decidable (Serial manager call)
  | .begin => inferInstanceAs (Decidable (_ = _))
  | .commit _ => inferInstanceAs (Decidable (_ ∧ _))
  | .abort _ => .isFalse id
  | .write _ _ => inferInstanceAs (Decidable (_ ∧ _ ∧ (_ ∨ _)))
  | .collect _ => inferInstanceAs (Decidable (_ ≤ _))

/-- A read returns the bound version itself, and NOT_FOUND where nothing is bound. -/
def Reads (manager : MVCCManager) (reader : Nat) (key : UInt64) : Option Version → Prop
  | some v => manager.readVersion key reader = .ok v
  | none => (manager.readVersion key reader).mapError MVCCError.code = .error .notFound

/-- The state keeps to one transaction at a time: all below the current one have
committed, and each chain ends in the key's live version or has none. -/
structure Follows (manager : MVCCManager) (contents : UInt64 → Option Version) : Prop where
  sound : Sound manager
  settled : ∀ t, 0 < t → t < current manager.txnManager →
    manager.txnManager.isTransactionCommitted t = true
  idle : ∀ t, manager.txnManager.activeTransactions t = true → t = current manager.txnManager
  live : ∀ key v, contents key = some v → v.deletedTxId = 0
  chains : ∀ key, ∃ older, manager.chain key = older ++ (contents key).toList ∧
    ∀ v ∈ older, v.deletedTxId ≠ 0 ∧ v.createdTxId ≤ v.deletedTxId ∧
      v.deletedTxId ≤ current manager.txnManager

theorem active_issued {manager : TransactionManager} (wellformed : manager.Wellformed) {t : Nat}
    (active : manager.activeTransactions t = true) : manager.Issued t := by
  rw [wellformed.active] at active
  apply (wellformed.issued t).mp
  cases found : manager.transactions t with
  | none => simp [found] at active
  | some txn => rfl

theorem current_running {manager : TransactionManager} (wellformed : manager.Wellformed)
    (active : manager.activeTransactions (current manager) = true) :
    current manager + 1 = manager.nextTransactionId := by
  have issued := active_issued wellformed active
  unfold current at *
  split
  · have positive := wellformed.positive
    omega
  · rename_i idle
    rw [if_neg idle] at issued
    exact absurd issued.2 (Nat.lt_irrefl _)

theorem current_waiting {manager : TransactionManager}
    (waiting : manager.activeTransactions (current manager) = false) :
    current manager = manager.nextTransactionId := by
  unfold current at *
  split
  · rename_i running
    simp [running] at waiting
  · rfl

private theorem begin_follows {manager : MVCCManager} {contents : UInt64 → Option Version}
    (waiting : manager.txnManager.activeTransactions (current manager.txnManager) = false)
    (follows : Follows manager contents) : Follows (step manager .begin) contents := by
  have before := current_waiting waiting
  have next : current (step manager .begin).txnManager = current manager.txnManager := by
    rw [before]
    simp [current,step,beginTransaction,getCurrentTimestamp]
  constructor
  · exact step_sound true manager .begin trivial follows.sound
  · intro t positive below
    rw [next] at below
    have committed := begin_committed follows.sound.wellformed t ⟨positive,before ▸ below⟩
    exact committed.trans (follows.settled t positive below)
  · intro t active
    rw [next]
    simp only [step,beginTransaction,getCurrentTimestamp,Function.update_apply] at active
    split at active
    · rename_i same
      exact same.trans before.symm
    · exact follows.idle t active
  · exact follows.live
  · intro key
    rw [next]
    exact follows.chains key

private theorem commit_follows {manager : MVCCManager} {contents : UInt64 → Option Version}
    (active : manager.txnManager.activeTransactions (current manager.txnManager) = true)
    (follows : Follows manager contents) :
    Follows (step manager (.commit (current manager.txnManager))) contents := by
  have wellformed := follows.sound.wellformed
  have issued := active_issued wellformed active
  have last := current_running wellformed active
  have sound := step_sound true manager (.commit (current manager.txnManager)) issued follows.sound
  have tables : (step manager (.commit (current manager.txnManager))).txnManager.activeTransactions =
      Function.update manager.txnManager.activeTransactions (current manager.txnManager) false ∧
      (step manager (.commit (current manager.txnManager))).txnManager.nextTransactionId =
        manager.txnManager.nextTransactionId := by
    obtain ⟨finished,_⟩ | ⟨txn,found,_,moved⟩ :=
      commit_cases (current manager.txnManager) manager.txnManager
    · rw [wellformed.active,Option.any_eq_true] at active
      obtain ⟨txn,found,state⟩ := active
      exact absurd (by simpa using state) (finished txn found)
    · simp only [step,moved,complete,wellformed.identity _ txn found]
      exact ⟨trivial,trivial⟩
  have next : current (step manager (.commit (current manager.txnManager))).txnManager =
      manager.txnManager.nextTransactionId := by
    rw [current,tables.1,tables.2]
    simp [← last]
  constructor
  · exact sound
  · intro t positive below
    rw [next] at below
    simp only [step]
    rw [commit_committed wellformed]
    by_cases same : t = current manager.txnManager
    · simp [same,active]
    · rw [follows.settled t positive (by omega)]
      rfl
  · intro t stillActive
    rw [tables.1,Function.update_apply] at stillActive
    split at stillActive
    · contradiction
    · rename_i other
      exact absurd (follows.idle t stillActive) other
  · exact follows.live
  · intro key
    obtain ⟨older,split,stamped⟩ := follows.chains key
    refine ⟨older,split,fun v member => ?_⟩
    have bounds := stamped v member
    rw [next]
    omega

/-- A chain that keeps the invariant keeps it when the current transaction writes. -/
private theorem written_split (writer : Nat) (version : Version) (chain older : List Version)
    (latest : Option Version) (split : chain = older ++ latest.toList)
    (own : version.createdTxId = writer)
    (form : version.deletedTxId = 0 ∨ version.deletedTxId = version.createdTxId)
    (positive : 0 < writer) (live : ∀ v, latest = some v → v.deletedTxId = 0)
    (creators : ∀ v ∈ chain, v.createdTxId ≤ writer)
    (stamped : ∀ v ∈ older, v.deletedTxId ≠ 0 ∧ v.createdTxId ≤ v.deletedTxId ∧
      v.deletedTxId ≤ writer) :
    ∃ front, written version chain =
        front ++ (if version.deletedTxId = 0 then some version else none).toList ∧
      ∀ v ∈ front, v.deletedTxId ≠ 0 ∧ v.createdTxId ≤ v.deletedTxId ∧ v.deletedTxId ≤ writer := by
  obtain ⟨front,front_eq,front_stamped⟩ : ∃ front,
      chain.modifyLast (stamp version.createdTxId) = front ∧
      ∀ v ∈ front, v.deletedTxId ≠ 0 ∧ v.createdTxId ≤ v.deletedTxId ∧
        v.deletedTxId ≤ writer := by
    refine ⟨_,rfl,?_⟩
    cases latest with
    | none =>
      rw [split,Option.toList_none,List.append_nil,stamp_none _ _ (fun v member => (stamped v member).1)]
      exact stamped
    | some last =>
      intro v member
      rw [split,Option.toList_some,List.modifyLast_concat] at member
      rcases List.mem_append.mp member with inside | stampedLast
      · exact stamped v inside
      · rw [List.mem_singleton.mp stampedLast,stamp,if_pos (live last rfl),own]
        exact ⟨Nat.ne_of_gt positive,creators last (by simp [split]),Nat.le_refl _⟩
  rw [written,front_eq]
  by_cases alive : version.deletedTxId = 0
  · exact ⟨front,by simp [alive],front_stamped⟩
  · refine ⟨front ++ [version],by simp [alive],?_⟩
    intro v member
    rcases List.mem_append.mp member with inside | new
    · exact front_stamped v inside
    · rw [List.mem_singleton.mp new]
      have tombstone : version.deletedTxId = version.createdTxId := form.resolve_left alive
      omega

private theorem write_follows {manager : MVCCManager} {contents : UInt64 → Option Version}
    (key : UInt64) (version : Version) (serial : Serial manager (.write key version))
    (follows : Follows manager contents) :
    Follows (step manager (.write key version)) (plainStep contents (.write key version)) := by
  obtain ⟨own,active,form⟩ := serial
  have wellformed := follows.sound.wellformed
  have issued := active_issued wellformed active
  have last := current_running wellformed (own ▸ active)
  obtain ⟨same,_,chains⟩ := write_step manager follows.sound.free key version
  constructor
  · exact step_sound true manager (.write key version) ⟨issued,form⟩ follows.sound
  · rw [same]
    exact follows.settled
  · rw [same]
    exact follows.idle
  · intro other v bound
    simp only [plainStep,Function.update_apply] at bound
    split at bound
    · split at bound
      · rename_i alive
        exact Option.some.inj bound ▸ alive
      · contradiction
    · exact follows.live other v bound
  · intro other
    rw [same,chains]
    simp only [plainStep,Function.update_apply]
    split
    · obtain ⟨older,split,stamped⟩ := follows.chains key
      refine written_split _ version _ older _ split own form (own ▸ issued.1)
        (follows.live key) ?_ stamped
      intro v member
      have creator := follows.sound.creators key v member
      have bound := creator.2
      omega
    · exact follows.chains other

private theorem collect_follows {manager : MVCCManager} {contents : UInt64 → Option Version}
    (minActiveTxId : Nat) (follows : Follows manager contents) :
    Follows (step manager (.collect minActiveTxId)) contents := by
  constructor
  · exact step_sound true manager (.collect minActiveTxId) rfl follows.sound
  · exact follows.settled
  · exact follows.idle
  · exact follows.live
  · intro key
    obtain ⟨older,split,stamped⟩ := follows.chains key
    refine ⟨older.filter (MVCCManager.survives minActiveTxId),?_,
      fun v member => stamped v (List.mem_filter.mp member).1⟩
    simp only [step,MVCCManager.collect_chain,split,List.filter_append]
    congr 1
    cases bound : contents key with
    | none => rfl
    | some v => simp [MVCCManager.survives,follows.live key v bound]

theorem step_follows (manager : MVCCManager) (contents : UInt64 → Option Version) (call : Call)
    (serial : Serial manager call) (follows : Follows manager contents) :
    Follows (step manager call) (plainStep contents call) := by
  cases call with
  | begin => exact begin_follows serial follows
  | commit txId =>
    obtain ⟨rfl,active⟩ := serial
    exact commit_follows active follows
  | abort txId => exact serial.elim
  | write key version => exact write_follows key version serial follows
  | collect minActiveTxId => exact collect_follows minActiveTxId follows

theorem follows_read {manager : MVCCManager} {contents : UInt64 → Option Version}
    (follows : Follows manager contents) (key : UInt64) :
    Reads manager (current manager.txnManager) key (contents key) := by
  unfold Reads
  obtain ⟨older,split,stamped⟩ := follows.chains key
  have hidden : ∀ v ∈ older,
      isVersionVisible manager.txnManager (current manager.txnManager) v = false := by
    intro v member
    obtain ⟨marked,order,bound⟩ := stamped v member
    rw [← Bool.not_eq_true,visible_iff]
    rintro (⟨own,unstamped⟩ | ⟨below,_,unstamped⟩)
    · omega
    · obtain ⟨foreign,pending⟩ := unstamped.resolve_left marked
      exact pending ⟨follows.settled _ (by omega) (by omega),by omega⟩
  cases bound : contents key with
  | none =>
    dsimp only
    rw [MVCCManager.read_chain,split,bound,Option.toList_none,List.append_nil,
      (VersionChain.newest_none _ _).mpr hidden]
  | some v =>
    have member : v ∈ manager.chain key := by simp [split,bound]
    have creator := follows.sound.creators key v member
    have live := follows.live key v bound
    refine (MVCCManager.read_found _ _ _ _).mpr ?_
    rw [split,bound,Option.toList_some,VersionChain.newest_concat,if_pos]
    rw [visible_iff]
    rcases Nat.lt_or_ge v.createdTxId (current manager.txnManager) with below | above
    · exact .inr ⟨below,follows.settled _ creator.1 below,.inl live⟩
    · refine .inl ⟨?_,.inl live⟩
      have next : current manager.txnManager + 1 = manager.txnManager.nextTransactionId ∨
          current manager.txnManager = manager.txnManager.nextTransactionId := by
        unfold current
        have positive := follows.sound.wellformed.positive
        split <;> omega
      have bound := creator.2
      omega

theorem initial_follows : Follows {} (fun _ => none) where
  sound := initial_sound
  settled t positive below := by
    simp [current] at below
    omega
  idle t active := by simp at active
  live key v bound := by simp at bound
  chains key := ⟨[],rfl,by simp⟩

theorem serial_follows (calls : List Call) (manager : MVCCManager)
    (contents : UInt64 → Option Version) (serial : Guarded step Serial manager calls)
    (follows : Follows manager contents) :
    Follows (run step manager calls) (run plainStep contents calls) := by
  induction calls generalizing manager contents with
  | nil => exact follows
  | cons call rest ih =>
    exact ih _ _ serial.2 (step_follows manager contents call serial.1 follows)

/-- In a serial history the running transaction, and one that begins after the last
commit, read the last live version written to a key, and NOT_FOUND when the key was
never written or was last deleted. -/
theorem serial_read (calls : List Call) (serial : Guarded step Serial {} calls) :
    (∀ reader, (after calls).txnManager.activeTransactions reader = true →
      ∀ key, Reads (after calls) reader key (plain calls key)) ∧
    (Serial (after calls) .begin → ∀ key,
      Reads (after (calls ++ [.begin])) (after calls).txnManager.nextTransactionId key
        (plain calls key)) := by
  have follows := serial_follows calls {} _ serial initial_follows
  constructor
  · intro reader running key
    rw [follows.idle reader running]
    exact follows_read follows key
  · intro waiting key
    have fresh := follows_read (step_follows _ _ .begin waiting follows) key
    have same : current (step (after calls) .begin).txnManager =
        (after calls).txnManager.nextTransactionId := by
      simp [current,step,beginTransaction,getCurrentTimestamp]
    change Reads _ (current (step (after calls) .begin).txnManager) key (plain calls key) at fresh
    rw [same] at fresh
    simpa only [after,run_append,run_cons,run_nil] using fresh

def rewrittenAndDeleted : List Call :=
  [.begin,.write 7 {createdTxId := 1},.write 8 {createdTxId := 1},.commit 1,
   .begin,.write 8 {createdTxId := 2, properties := [⟨[97],.boolean true⟩]},
   .write 7 {createdTxId := 2, deletedTxId := 2},.collect 2,.commit 2,.collect 3]

/-- Key 8 was rewritten and key 7 deleted before the third transaction begins. -/
theorem serial_read_rewritten :
    Guarded step Serial {} rewrittenAndDeleted ∧
      (after (rewrittenAndDeleted ++ [.begin])).readVersion 8 3 =
        .ok {createdTxId := 2, properties := [⟨[97],.boolean true⟩]} ∧
      ((after (rewrittenAndDeleted ++ [.begin])).readVersion 7 3).mapError MVCCError.code =
        .error .notFound := by
  have serial : Guarded step Serial {} rewrittenAndDeleted := by decide
  have waiting : Serial (after rewrittenAndDeleted) .begin := by decide
  have reads := (serial_read rewrittenAndDeleted serial).2 waiting
  exact ⟨serial,reads 8,reads 7⟩

end LoreDB.Transaction.SerialHistory
