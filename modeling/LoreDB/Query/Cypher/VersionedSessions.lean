import LoreDB.Query.Cypher.VersionedQueries

/-! Queries after queries. With versions a session answers as the property graph does, and as long as nothing is
deleted as a session without versions. -/
namespace LoreDB.Query.Cypher
open LoreDB.Storage LoreDB.Storage.GraphHistory LoreDB.Storage.GraphRefinement LoreDB.Storage.SerialStores
  LoreDB.Storage.SkippedTransaction LoreDB.Transaction LoreDB.Library.History GraphStore
open SerialHistory (current Follows)

variable {store : Graph} {state : QueryGraph} {t : Nat} (hash : Bytes → UInt64)

/-! One query. -/

theorem keyed_returned {id : UInt64} {returned : Option (Except Error Unit) × Graph} {answer : Except Error UInt64}
    (same : (perform.keyed id returned).1 = some answer) : returned.1 = some (answer.map fun _ => ()) := by
  obtain ⟨result,made⟩ := Option.map_eq_some_iff.mp same
  rw [made.1,mapped_unit made.2]

theorem versioned_faithful : Faithful hash fun t store state => ShowsVersions store state ∧ Underway t store where
  views t store state shows := by
    rw [shows.2.1]
    exact view_versions shows.1
  createNode t properties store state shows fits := by
    rw [ExecutionContext.createNode,chosen_transactional _ _ store shows.1.isVersioned]
    exact createNode_shows hash properties shows.1 shows.2 fits
  updateNode t id properties old store state shows held fits := by
    obtain ⟨returned,later⟩ := updateNode_shows hash id properties old shows.1 shows.2 held fits
    rw [ExecutionContext.updateNode,chosen_transactional _ _ store shows.1.isVersioned]
    exact ⟨keyed_returned returned,later⟩
  deleteNode t id store state shows := by
    obtain ⟨returned,later⟩ := deleteNode_shows hash id shows.1 shows.2
    rw [ExecutionContext.deleteNode,chosen_transactional _ _ store shows.1.isVersioned]
    exact ⟨keyed_returned returned,later⟩
  deleteEdge t id store state shows := by
    obtain ⟨returned,later⟩ := deleteEdge_shows hash id shows.1 shows.2
    rw [ExecutionContext.deleteEdge,chosen_transactional _ _ store shows.1.isVersioned]
    exact ⟨keyed_returned returned,later⟩

/-- No transaction runs. -/
def Waiting (store : Graph) : Prop := (mvcc store).txnManager.activeTransactions (current (mvcc store).txnManager) = false

theorem swap_shows (shows : ShowsVersions store state) (manager : MVCCManager) (sound : Sound (swap (some manager) store))
    (follows : ∀ contents, Follows (mvcc store) contents → Follows manager contents) :
    ShowsVersions (swap (some manager) store) state := by
  obtain ⟨versioned,_,⟨contents,followed,holding⟩,⟨pages,paged⟩,edgeless,created,started,counted⟩ := shows
  exact ⟨versioned,sound,⟨contents,follows contents followed,holding⟩,
    ⟨pages,represents_congr paged.represents _ _,paged.edgeless,paged.next,paged.created⟩,edgeless,created,started,counted⟩

theorem begun_shows {db : Database} (shows : ShowsVersions db.graphStore state) (waiting : Waiting db.graphStore) :
    ShowsVersions db.beginTransaction.2.graphStore state ∧
      Underway db.beginTransaction.1.id db.beginTransaction.2.graphStore := by
  obtain ⟨identity,moved,runs⟩ := begin_runs db shows.isVersioned
  rw [manage_swap .begin shows.isVersioned] at moved
  rw [moved,identity] at runs ⊢
  refine ⟨swap_shows shows _ runs.1.1 fun contents follows => SerialHistory.step_follows _ contents .begin waiting follows,?_⟩
  have next := SerialHistory.current_waiting waiting
  constructor
  · simp [swap,mvcc,current,MvccHistory.step,TransactionManager.beginTransaction,TransactionManager.getCurrentTimestamp]
  · simp [swap,mvcc,MvccHistory.step,TransactionManager.beginTransaction,TransactionManager.getCurrentTimestamp]

theorem commit_ends {manager : TransactionManager} (wellformed : manager.Wellformed) (t : Nat) :
    (manager.commitTransaction t).2.activeTransactions t = false ∧
      (manager.commitTransaction t).2.nextTransactionId = manager.nextTransactionId := by
  obtain ⟨finished,same⟩ | ⟨txn,found,_,moved⟩ := manager.commit_cases t
  · rw [same,wellformed.active]
    cases bound : manager.transactions t with
    | none => exact ⟨rfl,rfl⟩
    | some txn => exact ⟨by simpa using finished txn bound,rfl⟩
  · rw [moved]
    simp [TransactionManager.complete,wellformed.identity t txn found]

theorem committed_shows {db : Database} (shows : ShowsVersions db.graphStore state) (running : Underway t db.graphStore) :
    ShowsVersions ((db.commitTransaction t).unlockAll t).graphStore state ∧
      Waiting ((db.commitTransaction t).unlockAll t).graphStore := by
  have before := shows.sound.versions.wellformed
  obtain ⟨ended,versioned⟩ := commit_versioned (t := t)
    ⟨shows.isVersioned,SerialHistory.active_issued before running.2⟩
  have kept := released_versioned t versioned
  rw [ended]
  rw [manage_swap _ shows.isVersioned] at kept versioned ⊢
  refine ⟨swap_shows (swap_shows shows _ versioned.1 fun contents follows =>
    SerialHistory.step_follows _ contents (.commit t) running follows) _ kept.1 fun contents follows => ?_,?_⟩
  · exact ⟨kept.1.versions,follows.settled,follows.idle,follows.live,follows.chains⟩
  · obtain ⟨inactive,next⟩ := commit_ends before t
    have issued := SerialHistory.current_running before (running.1 ▸ running.2)
    rw [← running.1] at issued
    unfold Waiting
    by_contra runs
    rw [Bool.not_eq_false] at runs
    have last := SerialHistory.current_running versioned.1.versions.wellformed runs
    change _ = ((mvcc db.graphStore).txnManager.commitTransaction t).2.nextTransactionId at last
    rw [next,← issued,Nat.add_right_cancel_iff] at last
    cases inactive.symm.trans ((congrArg _ last.symm).trans runs)

/-! Sessions. -/

variable (library : StandardLibrary)

/-- What has been written by the time of a failure. -/
def Effect.lost {α : Type} : Effect α → List Operation
  | ⟨.value _,_⟩ => []
  | ⟨_,made⟩ => made

/-- Every record that a query writes fits a page, the counter does not wrap, and a failure comes before all writes. -/
def QueryFits (state : QueryGraph) (query : Query) : Prop :=
  Sized hash (queryMeaning hash library query) state ∧ (queryMeaning hash library query state).lost = []

instance (state : QueryGraph) (query : Query) : Decidable (QueryFits hash library state query) :=
  have : Decidable (Sized hash (queryMeaning hash library query) state) := inferInstanceAs (Decidable (Guarded _ _ _ _))
  have : Decidable ((queryMeaning hash library query state).lost = []) := decidable_of_iff _ List.isEmpty_iff
  inferInstanceAs (Decidable (_ ∧ _))

/-- What queries mean one after the other, up to the first one that does not come back. -/
def meant : List Query → QueryGraph → List (Option (Except Error QueryResult))
  | [], _ => []
  | query::rest, state =>
    let result := returned (queryMeaning hash library query state).outcome
    result::if result.isSome then meant rest (left hash (queryMeaning hash library query) state) else []

def QueriesFit (queries : List Query) (state : QueryGraph) : Prop :=
  Guarded (fun state query => left hash (queryMeaning hash library query) state) (QueryFits hash library) state queries

instance (queries : List Query) (state : QueryGraph) : Decidable (QueriesFit hash library queries state) :=
  inferInstanceAs (Decidable (Guarded _ _ _ _))

theorem meant_results (showing : Graph → QueryGraph → Prop)
    (follows : ∀ query rest db state, showing db.graphStore state → QueryFits hash library state query →
      (executeQuery (graphExecutors library) query db).1 = returned (queryMeaning hash library query state).outcome ∧
        ((executeQuery (graphExecutors library) query db).1.isSome = true → ∃ later,
          showing later.graphStore (left hash (queryMeaning hash library query) state) ∧
            results (graphExecutors library) rest (executeQuery (graphExecutors library) query db).2 =
              results (graphExecutors library) rest later))
    (queries : List Query) (db : Database) (state : QueryGraph) (shows : showing db.graphStore state)
    (fits : QueriesFit hash library queries state) :
    results (graphExecutors library) queries db = meant hash library queries state := by
  induction queries generalizing db state with
  | nil => rfl
  | cons query rest ih =>
    obtain ⟨same,next⟩ := follows query rest db state shows fits.1
    rw [results,meant,← same]
    congr 1
    split
    · rename_i ended
      obtain ⟨later,shown,alike⟩ := next ended
      rw [alike]
      exact ih later _ shown fits.2
    · rfl

/-- A query on a store with versions returns what it means, and what follows cannot tell what it has left from the
graph. -/
theorem query_versions (query : Query) (rest : List Query) (db : Database)
    (shows : ShowsVersions db.graphStore state ∧ Waiting db.graphStore) (fits : QueryFits hash library state query) :
    (executeQuery (graphExecutors library) query db).1 = returned (queryMeaning hash library query state).outcome ∧
      ((executeQuery (graphExecutors library) query db).1.isSome = true → ∃ later : Database,
        (ShowsVersions later.graphStore (left hash (queryMeaning hash library query) state) ∧
          Waiting later.graphStore) ∧
        results (graphExecutors library) rest (executeQuery (graphExecutors library) query db).2 =
          results (graphExecutors library) rest later) := by
  obtain ⟨last,shown,ended,untouched⟩ := executeBody_means (versioned_faithful hash) library query
    db.beginTransaction.2 state (begun_shows shows.1 shows.2) fits.1
  rw [executeQuery,ended]
  refine ⟨conclude_returns ..,fun comes => ?_⟩
  have failed (e : Error) (none : [] = (queryMeaning hash library query state).operations) :
      ∃ later : Database, (ShowsVersions later.graphStore (left hash (queryMeaning hash library query) state) ∧
        Waiting later.graphStore) ∧ results (graphExecutors library) rest (fail db.beginTransaction.1.id e last).2 =
          results (graphExecutors library) rest later := by
    refine ⟨db,?_,?_⟩
    · rwa [left,← none]
    · rw [untouched none.symm]
      exact abandoned_unnoticed library true db shows.1.isVersioned e rest
  have wrote := fits.2
  unfold Effect.lost at wrote
  cases meaning : queryMeaning hash library query state with
  | mk outcome made =>
    rw [meaning] at wrote comes failed
    cases outcome with
    | value result => exact ⟨_,committed_shows shown.1 shown.2,rfl⟩
    | error e => exact failed e wrote.symm
    | thrown what => exact failed _ wrote.symm
    | endless => cases comes

theorem opened_versions (file : Bytes) (wal : Option WALManager) :
    ShowsVersions (session file true wal).graphStore {versions := true} ∧ Waiting (session file true wal).graphStore := by
  have settled := opened_settled file wal
  refine ⟨{
    versioned := rfl
    sound := settled.sound
    follows := ⟨_,SerialHistory.initial_follows,fun _ => rfl⟩
    paged := ⟨{},represents_congr (opened_shows file none).holds.represents (some {}) wal,rfl,rfl,fun id => ?_⟩
    edgeless := rfl
    created := fun id present => absurd rfl present
    started := by decide
    counted := rfl},rfl⟩
  refine iff_of_false (fun present => present rfl) ?_
  rintro ⟨positive,below⟩
  rw [UInt64.lt_iff_toNat_lt] at positive below
  exact absurd below (Nat.not_lt.mpr positive)

/-- Queries on a new store with versions get the answers of the property graph. -/
theorem versioned_results (file : Bytes) (wal : Option WALManager) (queries : List Query)
    (fits : QueriesFit hash library queries {versions := true}) :
    results (graphExecutors library) queries (session file true wal) =
      meant hash library queries {versions := true} :=
  meant_results hash library (fun store state => ShowsVersions store state ∧ Waiting store)
    (fun query rest db _ => query_versions hash library query rest db) queries _ _ (opened_versions file wal) fits

/-- `CREATE (m {y: 1})`. -/
def createOne : Query := {createClause := some {patterns := [{nodes := [{
  variableName := some (ascii "m")
  properties := AList.singleton (ascii "y") (.integer 1)}]}]}}

/-- `MATCH (m) DELETE m`. -/
def deleteAll : Query := {matchClause := some everyNode, deleteClause := some {variableNames := [ascii "m"]}}

theorem versioned_results_deleted : results (graphExecutors stableLibrary) [createOne,copyQuery,deleteAll,readQuery]
    (session [7] true none) = [some (.ok (counted ["created_nodes","created_edges"] [1,0])),
      some (.ok (counted ["updated_nodes"] [1])),some (.ok (counted ["deleted_nodes","deleted_edges"] [1,0])),
      some (.ok {columns := [ascii "m.x"]})] := by
  rw [versioned_results (fun _ => 0) stableLibrary [7] none _ (by decide +kernel)]
  rfl

/-! Where nothing is deleted. -/

def Deletes (operation : Operation) : Prop := ∃ id, operation = .deleteNode id

/-- The same graph in a store without versions. -/
def QueryGraph.plainly (state : QueryGraph) : QueryGraph := {state with versions := false}

theorem plainly_perform (operation : Operation) (keeps : ¬Deletes operation) :
    state.plainly.perform hash operation = (state.perform hash operation).plainly := by
  cases operation with
  | deleteNode id => exact absurd ⟨id,rfl⟩ keeps
  | createNode properties => rfl
  | updateNode id properties => rfl
  | createEdge clock fromNode toNode label properties => rfl
  | updateEdge id properties => rfl
  | deleteEdge id => rfl

theorem plainly_run (operations : List Operation) (keeps : ∀ operation ∈ operations, ¬Deletes operation) :
    run (QueryGraph.perform hash) state.plainly operations = (run (QueryGraph.perform hash) state operations).plainly ∧
      (Guarded (QueryGraph.perform hash) QueryGraph.Fits state.plainly operations ↔
        Guarded (QueryGraph.perform hash) QueryGraph.Fits state operations) := by
  induction operations generalizing state with
  | nil => exact ⟨rfl,Iff.rfl⟩
  | cons operation rest ih =>
    obtain ⟨first,others⟩ := List.forall_mem_cons.mp keeps
    obtain ⟨same,allowed⟩ := @ih (state.perform hash operation) others
    rw [run_cons,run_cons,Guarded,Guarded,plainly_perform hash operation first]
    exact ⟨same,and_congr Iff.rfl allowed⟩

section Blindness

variable {α β γ : Type}

/-- The meaning does not ask whether versions are kept, and deletes no node. -/
def Blind (meaning : Meaning α) : Prop :=
  ∀ state : QueryGraph, meaning state.plainly = meaning state ∧ ∀ operation ∈ (meaning state).operations, ¬Deletes operation

theorem left_blind {meaning : Meaning α} (blind : Blind meaning) (state : QueryGraph) :
    left hash meaning state.plainly = (left hash meaning state).plainly := by
  obtain ⟨same,keeps⟩ := blind state
  rw [left,left,same]
  exact (plainly_run hash _ keeps).1

theorem sized_blind {meaning : Meaning α} (blind : Blind meaning) (state : QueryGraph) :
    Sized hash meaning state.plainly ↔ Sized hash meaning state := by
  obtain ⟨same,keeps⟩ := blind state
  rw [Sized,Sized,same]
  exact (plainly_run hash _ keeps).2

theorem reading_blind (read : View → Outcome α) : Blind (.reading read) :=
  fun _ => ⟨rfl,fun _ member => absurd member List.not_mem_nil⟩

theorem value_blind (value : α) : Blind fun _ => {outcome := .value value} :=
  fun _ => ⟨rfl,fun _ member => absurd member List.not_mem_nil⟩

theorem bind_blind {first : Meaning α} {next : α → Meaning β} (began : Blind first) (goes : ∀ result, Blind (next result)) :
    Blind (first.bind hash next) := by
  intro state
  obtain ⟨same,keeps⟩ := began state
  unfold Meaning.bind
  rw [same]
  cases outcome : first state with
  | mk ends made =>
    rw [outcome] at keeps
    cases ends with
    | error e => exact ⟨rfl,keeps⟩
    | thrown what => exact ⟨rfl,keeps⟩
    | endless => exact ⟨rfl,keeps⟩
    | value result =>
      obtain ⟨later,others⟩ := goes result (run (QueryGraph.perform hash) state made)
      dsimp only
      rw [(plainly_run hash made keeps).1,later]
      refine ⟨rfl,fun operation member => ?_⟩
      rcases List.mem_append.mp member with before | after
      · exact keeps operation before
      · exact others operation after

theorem map_blind (f : α → β) {meaning : Meaning α} (blind : Blind meaning) : Blind (meaning.map f) := by
  intro state
  obtain ⟨same,keeps⟩ := blind state
  unfold Meaning.map
  rw [same]
  exact ⟨rfl,keeps⟩

theorem optional_blind (clause : Option γ) {meaning : γ → Meaning α} (otherwise : α)
    (blind : ∀ clause, Blind (meaning clause)) : Blind (Meaning.optional clause meaning otherwise) := by
  cases clause with
  | some clause => exact blind clause
  | none => exact value_blind otherwise

theorem forEach_blind {step : α → β → Meaning β} (steps : ∀ item total, Blind (step item total)) (items : List α)
    (total : β) : Blind (Meaning.forEach hash step items total) := by
  induction items generalizing total with
  | nil => exact value_blind total
  | cons item rest ih =>
    rw [Meaning.forEach_cons]
    exact bind_blind hash (steps item total) ih

end Blindness

theorem create_blind (clause : CreateClause) : Blind (createMeaning hash clause) := by
  refine map_blind _ (forEach_blind hash (fun node created state => ⟨rfl,fun operation member => ?_⟩) _ 0)
  rw [List.mem_singleton.mp member]
  rintro ⟨id,deletes⟩
  cases deletes

theorem setRow_blind (clause : SetClause) (row : ResultRow) (updated : Nat) : Blind (setRowMeaning clause row updated) := by
  intro state
  refine ⟨rfl,fun operation member => ?_⟩
  unfold setRowMeaning at member
  split at member
  · split at member
    · cases member
    · split at member
      · cases member
      · rw [List.mem_singleton.mp member]
        rintro ⟨id,deletes⟩
        cases deletes
  · cases member

theorem set_blind (clause : SetClause) (rows : ResultSet) : Blind (setMeaning hash clause rows) :=
  map_blind _ (forEach_blind hash (setRow_blind clause) rows 0)

theorem query_blind (query : Query) (undeleting : query.deleteClause = none) : Blind (queryMeaning hash library query) := by
  have other : Blind (otherMeaning hash query) := by
    unfold otherMeaning
    cases query.createClause with
    | some clause => exact create_blind hash clause
    | none => exact fun _ => ⟨rfl,fun _ member => absurd member List.not_mem_nil⟩
  unfold queryMeaning
  split
  · exact other
  · split
    · refine bind_blind hash (reading_blind _) fun rows => ?_
      rw [undeleting]
      exact bind_blind hash (optional_blind _ _ fun clause => set_blind hash clause rows) fun written => value_blind written
    · split
      · split
        · refine bind_blind hash (reading_blind _) fun rows => bind_blind hash (reading_blind _) fun result => ?_
          exact bind_blind hash (optional_blind _ _ fun clause => reading_blind _) fun sorted =>
            optional_blind _ _ fun clause => reading_blind _
        · exact other
      · exact other

theorem meant_blind (queries : List Query) (undeleting : ∀ query ∈ queries, query.deleteClause = none)
    (state : QueryGraph) : meant hash library queries state.plainly = meant hash library queries state ∧
      (QueriesFit hash library queries state.plainly ↔ QueriesFit hash library queries state) := by
  induction queries generalizing state with
  | nil => exact ⟨rfl,Iff.rfl⟩
  | cons query rest ih =>
    obtain ⟨first,others⟩ := List.forall_mem_cons.mp undeleting
    have blind := query_blind hash library query first
    obtain ⟨same,allowed⟩ := ih others (left hash (queryMeaning hash library query) state)
    have fits : QueryFits hash library state.plainly query ↔ QueryFits hash library state query := by
      rw [QueryFits,QueryFits,sized_blind hash blind,(blind state).1]
    unfold QueriesFit at *
    rw [meant,meant,Guarded,Guarded,left_blind hash blind,(blind state).1,same,fits,allowed]
    exact ⟨rfl,Iff.rfl⟩

/-- As long as nothing is deleted, versions never show: sessions with them and without them, on any two files, get
the same answers. -/
theorem versions_unnoticed (file other : Bytes) (wal log : Option WALManager) (queries : List Query)
    (undeleting : ∀ query ∈ queries, query.deleteClause = none) (fits : QueriesFit hash library queries {}) :
    results (graphExecutors library) queries (session file true wal) =
      results (graphExecutors library) queries (session other false log) := by
  obtain ⟨same,allowed⟩ := meant_blind hash library queries undeleting {versions := true}
  have plain := meant_results hash library ShowsPlainly (fun query rest db state shows fits => by
    obtain ⟨answered,later⟩ := query_shows library hash query shows fits.1
    exact ⟨answered,fun _ => ⟨_,later,rfl⟩⟩) queries _ _ (opened_shows other log) fits
  have versioned := meant_results hash library (fun store state => ShowsVersions store state ∧ Waiting store)
    (fun query rest db _ => query_versions hash library query rest db) queries _ _ (opened_versions file wal)
    (allowed.mp fits)
  rw [plain,versioned,← same]
  rfl

theorem versions_unnoticed_copied : results (graphExecutors stableLibrary) [createOne,copyQuery,readQuery]
    (session [7] true none) = results (graphExecutors stableLibrary) [createOne,copyQuery,readQuery]
      (session [] false none) :=
  versions_unnoticed (fun _ => 0) stableLibrary [7] [] none none _ (by decide +kernel) (by decide +kernel)

end LoreDB.Query.Cypher
