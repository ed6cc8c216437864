import Mathlib.Logic.Function.Basic
import LoreDB.Storage.LsnHistory

/-! Many clients on one log. A call takes its sequence number first and writes its record
later under the mutex, and between the two steps other clients may do the same. -/
namespace LoreDB.Storage.LsnOrder
open LoreDB.Library LoreDB.Library.ByteStream WALManager WalRoundTrip

/-- Where a client's call stands. `file` is what the file held when the call took its
sequence number. -/
inductive Phase where
  | idle
  | writing (r : WALRecord) (file : List WALRecord)
  | updating (checkpointLsn : LSN)
  | syncing

structure Entry (Client : Type) where
  client : Client
  record : WALRecord
  file : List WALRecord

structure Shared (Client : Type) where
  manager : WALManager
  phase : Client → Phase
  taken : Nat
  entries : List (Entry Client)

inductive Event (Client : Type) where
  | call (client : Client) (clock : UInt64) (call : LogCall)
  | advance (client : Client)

variable {Client : Type} [DecidableEq Client]

def opened (clock : UInt64) : Shared Client :=
  {manager := WALManager.create clock, phase := fun _ => .idle, taken := 0, entries := []}

/-- What is left to do once the record is written: a commit syncs the file, and a
checkpoint updates the header first. -/
def following (r : WALRecord) : Phase :=
  match r.type with
  | .commitTransaction => .syncing
  | .checkpoint => .updating r.lsn
  | _ => .idle

def updateHeader (checkpointLsn : LSN) (manager : WALManager) : WALManager :=
  let manager := {manager with
    lastCheckpointLsn := checkpointLsn
    header := {manager.header with lastCheckpointLsn := checkpointLsn}}
  let position := manager.logFile.tellp
  let manager := {manager with logFile := manager.logFile.seekp 0}.writeHeader.2
  {manager with logFile := manager.logFile.seekp position}

/-- A call begins with the `fetch_add`; every further step of it holds the mutex. -/
def step (shared : Shared Client) : Event Client → Shared Client
  | .call client clock call =>
    match shared.phase client with
    | .idle =>
      match record shared.manager.currentLsn clock call with
      | some r => {
        manager := {shared.manager with currentLsn := shared.manager.currentLsn + 1}
        phase := Function.update shared.phase client (.writing r (shared.entries.map Entry.record))
        taken := shared.taken + 1
        entries := shared.entries}
      | none => {shared with phase := Function.update shared.phase client .syncing}
    | _ => shared
  | .advance client =>
    match shared.phase client with
    | .idle => shared
    | .writing r file =>
      match writeRecord r shared.manager with
      | (.ok _,manager) => {
        manager := manager
        phase := Function.update shared.phase client (following r)
        taken := shared.taken
        entries := shared.entries ++ [⟨client,r,file⟩]}
      | (.error _,manager) =>
        {shared with manager := manager, phase := Function.update shared.phase client .idle}
    | .updating checkpointLsn => {shared with
      manager := updateHeader checkpointLsn shared.manager
      phase := Function.update shared.phase client .syncing}
    | .syncing => {shared with
      manager := shared.manager.forceSync.2
      phase := Function.update shared.phase client .idle}

theorem following_wrote (r other : WALRecord) (file : List WALRecord) :
    following r ≠ .writing other file := by
  unfold following
  split <;> exact fun absurd => nomatch absurd

/-- What a client does alone once it has taken its number. -/
theorem write_alone (shared : Shared Client) (client : Client) (clock : UInt64) (call : LogCall)
    (idle : shared.phase client = .idle) (r : WALRecord)
    (logs : record shared.manager.currentLsn clock call = some r) :
    (History.run step shared
        [.call client clock call,.advance client,.advance client,.advance client]).manager =
      match writeRecord r {shared.manager with currentLsn := shared.manager.currentLsn + 1} with
      | (.error _,manager) => manager
      | (.ok _,manager) =>
        match following r with
        | .syncing => manager.forceSync.2
        | .updating checkpointLsn => (updateHeader checkpointLsn manager).forceSync.2
        | _ => manager := by
  simp only [History.run_cons,History.run_nil,step,idle,logs,Function.update_self]
  rcases writeRecord r {shared.manager with currentLsn := shared.manager.currentLsn + 1} with
    ⟨_ | _,manager⟩
  · simp
  · cases stage : following r with
    | idle => simp
    | writing => exact absurd stage (following_wrote r _ _)
    | updating => simp
    | syncing => simp

/-- A call that nobody interrupts is the call of a manager with one client. -/
theorem uninterrupted (shared : Shared Client) (client : Client) (clock : UInt64) (call : LogCall)
    (idle : shared.phase client = .idle) :
    (History.run step shared
      [.call client clock call,.advance client,.advance client,.advance client]).manager =
      WalRoundTrip.step shared.manager (clock,call) := by
  cases logs : record shared.manager.currentLsn clock call with
  | none =>
    cases call with
    | forceSync => simp [step,idle,logs,WalRoundTrip.step]
    | _ => simp [record] at logs
  | some r =>
    rw [write_alone shared client clock call idle r logs]
    cases call with
    | forceSync => simp [record] at logs
    | commit =>
      cases logs
      rw [WalRoundTrip.step,logCommitTransaction,logRecord]
      split
      · rename_i wrote
        rw [wrote]
      · rename_i wrote
        rw [wrote]
        rfl
    | checkpoint =>
      cases logs
      rw [WalRoundTrip.step,checkpoint,logRecord]
      split
      · rename_i wrote
        rw [wrote]
      · rename_i wrote
        rw [wrote]
        rfl
    | _ =>
      cases logs
      simp only [following]
      split <;> rename_i wrote <;> exact congrArg Prod.snd wrote.symm

/-- The counter has not wrapped yet. -/
def Room (shared : Shared Client) : Event Client → Prop
  | .call _ _ _ => shared.taken + 2 < 2 ^ 64
  | .advance _ => True

instance (shared : Shared Client) : (event : Event Client) → Decidable (Room shared event)
  | .call _ _ _ => inferInstanceAs (Decidable (_ < _))
  | .advance _ => .isTrue trivial

/-- The numbers differ, and the earlier record has the smaller number when both are one
client's or the first was in the file before the second call began. -/
def Before (first second : Entry Client) : Prop :=
  first.record.lsn ≠ second.record.lsn ∧
    (first.client = second.client ∨ first.record ∈ second.file →
      first.record.lsn < second.record.lsn)

/-- What has to hold when a record is about to be written behind these entries. -/
structure Pending (shared : Shared Client) (client : Client) (r : WALRecord)
    (file : List WALRecord) : Prop where
  below : r.lsn < shared.manager.currentLsn
  behind : ∀ entry ∈ shared.entries, Before entry ⟨client,r,file⟩
  present : ∀ other ∈ file, ∃ entry ∈ shared.entries, entry.record = other
  distinct : ∀ other r' file', shared.phase other = .writing r' file' → other ≠ client → r'.lsn ≠ r.lsn

structure Ordered (shared : Shared Client) : Prop where
  logged : Logged shared.manager ((shared.entries.map Entry.record).flatMap WALRecord.encode)
  counted : shared.manager.currentLsn.toNat = shared.taken + 1
  below : ∀ entry ∈ shared.entries, entry.record.lsn < shared.manager.currentLsn
  pending : ∀ client r file, shared.phase client = .writing r file → Pending shared client r file
  order : shared.entries.Pairwise Before

theorem updateHeader_logged (checkpointLsn : LSN) (manager : WALManager) (body : Bytes)
    (logged : Logged manager body) : Logged (updateHeader checkpointLsn manager) body ∧
      (updateHeader checkpointLsn manager).currentLsn = manager.currentLsn := by
  refine ⟨reheader_logged logged _ logged.genuine ?_,rfl⟩
  simp only [updateHeader,writeHeader,FileStream.seekp_start]

omit [DecidableEq Client] in
theorem opened_ordered (clock : UInt64) : Ordered (opened clock : Shared Client) where
  logged := create_logged clock
  counted := rfl
  below := by simp [opened]
  pending := by simp [opened]
  order := List.Pairwise.nil

theorem update_writing (shared : Shared Client) (client : Client) (phase : Phase)
    (quiet : ∀ r file, phase ≠ .writing r file) (other : Client) (r : WALRecord)
    (file : List WALRecord) (writes : Function.update shared.phase client phase other = .writing r file) :
    other ≠ client ∧ shared.phase other = .writing r file := by
  by_cases same : other = client
  · subst same
    rw [Function.update_self] at writes
    exact absurd writes (quiet r file)
  · rw [Function.update_of_ne same] at writes
    exact ⟨same,writes⟩

section Steps

variable {shared : Shared Client} (ordered : Ordered shared)
include ordered

omit [DecidableEq Client] in
theorem rest_ordered (manager : WALManager) (phase : Client → Phase)
    (logged : Logged manager ((shared.entries.map Entry.record).flatMap WALRecord.encode))
    (counter : manager.currentLsn = shared.manager.currentLsn)
    (same : ∀ client r file, phase client = .writing r file → shared.phase client = .writing r file) :
    Ordered {shared with manager := manager, phase := phase} where
  logged := logged
  counted := by rw [counter]; exact ordered.counted
  below := by rw [counter]; exact ordered.below
  pending client r file writes := by
    obtain ⟨below,behind,present,distinct⟩ := ordered.pending client r file (same client r file writes)
    exact ⟨by rw [counter]; exact below,behind,present,
      fun other r' file' also => distinct other r' file' (same other r' file' also)⟩
  order := ordered.order

theorem take_ordered (client : Client) (clock : UInt64) (call : LogCall)
    (room : shared.taken + 2 < 2 ^ 64) (r : WALRecord)
    (logs : record shared.manager.currentLsn clock call = some r) :
    Ordered {
      manager := {shared.manager with currentLsn := shared.manager.currentLsn + 1}
      phase := Function.update shared.phase client (.writing r (shared.entries.map Entry.record))
      taken := shared.taken + 1
      entries := shared.entries} := by
  obtain ⟨logged,counted,below,pending,order⟩ := ordered
  have number := LsnHistory.record_lsn _ clock call r logs
  have next : (shared.manager.currentLsn + 1).toNat = shared.manager.currentLsn.toNat + 1 := by
    have one : (1 : UInt64).toNat = 1 := rfl
    rw [UInt64.toNat_add,one]
    omega
  have grows (lsn : LSN) (less : lsn < shared.manager.currentLsn) :
      lsn < shared.manager.currentLsn + 1 := by
    rw [UInt64.lt_iff_toNat_lt] at less ⊢
    omega
  constructor
  · exact recount_logged logged _
  · exact next.trans (by rw [counted])
  · exact fun entry member => grows _ (below entry member)
  · intro other r' file' writes
    dsimp only at writes
    by_cases same : other = client
    · subst same
      rw [Function.update_self] at writes
      cases writes
      constructor
      · rw [number,UInt64.lt_iff_toNat_lt]
        exact Nat.lt_of_lt_of_eq (Nat.lt_succ_self _) next.symm
      · intro entry member
        have less : entry.record.lsn < r.lsn := by
          rw [number]
          exact below entry member
        exact ⟨UInt64.ne_of_lt less,fun _ => less⟩
      · intro record member
        exact List.mem_map.mp member
      · intro writer r'' file'' also different
        dsimp only at also
        rw [Function.update_of_ne different] at also
        rw [number]
        exact UInt64.ne_of_lt (pending writer r'' file'' also).below
    · rw [Function.update_of_ne same] at writes
      obtain ⟨less,behind,present,distinct⟩ := pending other r' file' writes
      refine ⟨grows _ less,behind,present,fun writer r'' file'' also different => ?_⟩
      dsimp only at also
      by_cases taker : writer = client
      · subst taker
        rw [Function.update_self] at also
        cases also
        rw [number]
        exact (UInt64.ne_of_lt less).symm
      · rw [Function.update_of_ne taker] at also
        exact distinct writer r'' file'' also different
  · exact order

theorem write_ordered (client : Client) (r : WALRecord) (file : List WALRecord)
    (writes : shared.phase client = .writing r file) (manager : WALManager)
    (logged : Logged manager
      ((shared.entries.map Entry.record).flatMap WALRecord.encode ++ r.encode))
    (counter : manager.currentLsn = shared.manager.currentLsn) :
    Ordered {
      manager := manager
      phase := Function.update shared.phase client (following r)
      taken := shared.taken
      entries := shared.entries ++ [⟨client,r,file⟩]} := by
  obtain ⟨less,behind,present,distinct⟩ := ordered.pending client r file writes
  constructor
  · simpa using logged
  · rw [counter]
    exact ordered.counted
  · intro entry member
    rw [counter]
    rcases List.mem_append.mp member with before | last
    · exact ordered.below entry before
    · rw [List.mem_singleton.mp last]
      exact less
  · intro other r' file' also
    obtain ⟨different,also⟩ := update_writing shared client (following r) (following_wrote r) other r'
      file' also
    obtain ⟨less',behind',present',distinct'⟩ := ordered.pending other r' file' also
    have apart := distinct' client r file writes different.symm
    constructor
    · rw [counter]
      exact less'
    · intro entry member
      rcases List.mem_append.mp member with before | last
      · exact behind' entry before
      · rw [List.mem_singleton.mp last]
        refine ⟨apart,fun related => ?_⟩
        rcases related with same | seen
        · exact absurd same.symm different
        · -- a record that is only now written was not in the file earlier
          obtain ⟨entry,member,same⟩ := present' r seen
          exact absurd (congrArg WALRecord.lsn same) (behind entry member).1
    · intro seen member
      obtain ⟨entry,inside,same⟩ := present' seen member
      exact ⟨entry,List.mem_append_left _ inside,same⟩
    · intro writer r'' file'' still
      exact distinct' writer r'' file''
        (update_writing shared client (following r) (following_wrote r) writer r'' file'' still).2
  · rw [List.pairwise_append]
    refine ⟨ordered.order,List.pairwise_singleton _ _,fun entry member last single => ?_⟩
    rw [List.mem_singleton.mp single]
    exact behind entry member

end Steps

theorem step_ordered (shared : Shared Client) (event : Event Client) (room : Room shared event)
    (ordered : Ordered shared) : Ordered (step shared event) := by
  cases event with
  | call client clock call =>
    rw [step]
    split
    · split
      · rename_i r logs
        exact take_ordered ordered client clock call room r logs
      · apply rest_ordered ordered _ _ ordered.logged rfl
        exact fun other r file writes => (update_writing shared client .syncing
          (fun _ _ absurd => nomatch absurd) other r file writes).2
    · exact ordered
  | advance client =>
    have quiet (phase : Phase) (silent : ∀ r file, phase ≠ .writing r file) (other : Client)
        (r : WALRecord) (file : List WALRecord)
        (writes : Function.update shared.phase client phase other = .writing r file) :=
      (update_writing shared client phase silent other r file writes).2
    rw [step]
    split
    · exact ordered
    · rename_i r file writes
      obtain ⟨manager,returned,logged,counter⟩ := writeRecord_logged ordered.logged r
      rw [returned]
      exact write_ordered ordered client r file writes manager logged counter
    · rename_i checkpointLsn _
      obtain ⟨logged,counter⟩ := updateHeader_logged checkpointLsn _ _ ordered.logged
      exact rest_ordered ordered _ _ logged counter
        (quiet .syncing fun _ _ absurd => nomatch absurd)
    · obtain ⟨logged,_,counter,_⟩ := forceSync_logged ordered.logged
      exact rest_ordered ordered _ _ logged counter (quiet .idle fun _ _ absurd => nomatch absurd)

/-- In every interleaving the numbers in the file differ, and they are in order for the
records of one client and for calls that do not overlap. -/
theorem log_order (clock : UInt64) (events : List (Event Client))
    (room : History.Guarded step Room (opened clock) events) :
    let shared := History.run step (opened clock) events
    (∃ header, shared.manager.logFile.content =
      encodeHeader header ++ (shared.entries.map Entry.record).flatMap WALRecord.encode) ∧
      shared.entries.Pairwise Before := by
  have ordered := History.run_preserves Ordered step_ordered _ events room (opened_ordered clock)
  obtain ⟨header,_,content⟩ := ordered.logged.content
  exact ⟨⟨header,content⟩,ordered.order⟩

/-- The second client's record gets into the file before that of the first. -/
def overtaken : List (Event Bool) :=
  [.call false 5 (.begin 1),.call true 5 (.begin 2),.advance true,.advance false,
    .call true 6 (.commit 2),.advance true,.advance true]

theorem log_order_overtaken :
    let shared := History.run step (opened 4) overtaken
    (∃ header, shared.manager.logFile.content =
      encodeHeader header ++ (shared.entries.map Entry.record).flatMap WALRecord.encode) ∧
      shared.entries.Pairwise Before :=
  log_order 4 overtaken (by decide +kernel)

theorem overtaken_disorders :
    ¬((History.run step (opened 4) overtaken).entries.map fun entry => entry.record.lsn).Pairwise
      (· < ·) := by
  decide +kernel

end LoreDB.Storage.LsnOrder
