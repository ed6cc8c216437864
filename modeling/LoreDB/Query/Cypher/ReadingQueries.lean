import LoreDB.Query.Cypher.VersionedSessions

/-! Queries that only read. Whatever they return, nothing that comes after them can tell that they were run, though
each one uses up a transaction. -/
namespace LoreDB.Query.Cypher
open LoreDB.Storage LoreDB.Storage.GraphHistory LoreDB.Storage.SkippedTransaction LoreDB.Transaction
  LoreDB.Library.History GraphStore
open SkippedId (Skips aborted_skips shift shift_ne)

set_option linter.dupNamespace false in
def Query.isWriteQuery (query : Query) : Bool :=
  query.createClause.isSome || query.setClause.isSome || query.deleteClause.isSome

/-! Transactions that only read. -/

/-- How the transaction that was left out has ended does not matter. -/
theorem skips_ended {gap : Nat} {first other second : MVCCManager} (skips : Skips gap first second)
    (next : other.txnManager.nextTransactionId = first.txnManager.nextTransactionId)
    (states : ∀ t, t ≠ gap → other.txnManager.stateOf t = first.txnManager.stateOf t)
    (chains : ∀ key, other.chain key = first.chain key) : Skips gap other second where
  positive := skips.positive
  reached := skips.reached
  next := next.trans skips.next
  states t := (states (shift gap t) (shift_ne gap t)).trans (skips.states t)
  chains key := (chains key).trans (skips.chains key)

/-- A transaction that begins and commits uses up its id. -/
theorem committed_skips (manager : MVCCManager) (sound : MvccHistory.Sound manager) :
    Skips manager.txnManager.nextTransactionId
      (MvccHistory.step (MvccHistory.step manager .begin) (.commit manager.txnManager.nextTransactionId)) manager := by
  refine skips_ended (aborted_skips manager sound) ?_ (fun t other => ?_) fun _ => rfl
  · simp only [MvccHistory.step,SkippedId.commit_next,SkippedId.abort_next]
  · simp only [MvccHistory.step,SkippedId.commit_state,SkippedId.abort_state,other,false_and,if_false]

theorem committed_skipped {store : Graph} (versioned : Versioned store) :
    Skipped (mvcc store).txnManager.nextTransactionId
      (released (mvcc store).txnManager.nextTransactionId (swap (some (MvccHistory.step
        (MvccHistory.step (mvcc store) .begin) (.commit (mvcc store).txnManager.nextTransactionId))) store)) store := by
  obtain ⟨positive,reached,next,states,chains⟩ := committed_skips (mvcc store) versioned.1.versions
  refine ⟨rfl,versioned.1.enabled,⟨positive,reached,next,states,chains⟩,fun key => ?_,versioned.1.versions.free⟩
  have free : (mvcc store).lockManager.lockTable key = [] := versioned.1.versions.free key
  change List.filter _ ((mvcc store).lockManager.lockTable key) = []
  rw [free]
  rfl

theorem committed_unnoticed (library : StandardLibrary) (versions : Bool) (db : Database) (kept : Kept versions db)
    (result : QueryResult) (later : List Query) :
    results (graphExecutors library) later (succeed db.beginTransaction.1.id result db.beginTransaction.2).2 =
      results (graphExecutors library) later db := by
  cases versions with
  | false =>
    have unversioned : Unversioned db.graphStore := kept
    have begun : db.beginTransaction.2.graphStore = db.graphStore := manage_unversioned _ db unversioned
    have running : Unversioned db.beginTransaction.2.graphStore := by rwa [begun]
    have committed : (db.beginTransaction.2.commitTransaction db.beginTransaction.1.id).graphStore =
        db.beginTransaction.2.graphStore := manage_unversioned _ _ running
    have released : (succeed db.beginTransaction.1.id result db.beginTransaction.2).2.graphStore =
        (db.beginTransaction.2.commitTransaction db.beginTransaction.1.id).graphStore :=
      manage_unversioned _ _ (by rwa [committed])
    refine results_alike unversioned_simulates library later _ db ?_
    rw [released,committed,begun]
    exact ⟨rfl,unversioned⟩
  | true =>
    have versioned : Versioned db.graphStore := kept
    obtain ⟨identity,begun,runs⟩ := begin_runs db versioned
    obtain ⟨ended,committed⟩ := commit_versioned runs
    refine results_alike (skipped_simulates (mvcc db.graphStore).txnManager.nextTransactionId) library later _ db ?_
    have left : (succeed db.beginTransaction.1.id result db.beginTransaction.2).2.graphStore =
        released (mvcc db.graphStore).txnManager.nextTransactionId (swap (some (MvccHistory.step
          (MvccHistory.step (mvcc db.graphStore) .begin) (.commit (mvcc db.graphStore).txnManager.nextTransactionId)))
            db.graphStore) := by
      refine ended.trans ?_
      rw [manage_swap _ runs.1,begun,manage_swap _ versioned,identity]
      rfl
    refine ⟨?_,ended ▸ released_versioned _ committed,versioned⟩
    rw [left]
    exact committed_skipped versioned

/-! Clauses that only read. -/

section Clauses

variable {txId : Nat} {db : Database}

/-- A query that came back, or not, without having changed anything. -/
def Unaltered (txId : Nat) (db : Database) (ended : Ended) : Prop :=
  ended.1 = none ∨ (∃ result, ended = succeed txId result db) ∨ ∃ e, ended = fail txId e db

theorem succeed_unaltered (result : QueryResult) : Unaltered txId db (succeed txId result db) := .inr (.inl ⟨result,rfl⟩)

theorem fail_unaltered (e : Error) : Unaltered txId db (fail txId e db) := .inr (.inr ⟨e,rfl⟩)

theorem reading_unaltered {α : Type} (read : View → Outcome α) (next : α → Database → Ended)
    (rest : ∀ result, Unaltered txId db (next result db)) : Unaltered txId db (attempt txId (.reading read) next db) := by
  unfold attempt Action.reading
  cases ends : read (ExecutionContext.view txId db.graphStore) with
  | value result => simpa only [ends] using rest result
  | error e => simpa only [ends] using fail_unaltered e
  | thrown what => simpa only [ends] using fail_unaltered _
  | endless => exact .inl (by simp only [ends])

theorem readingIf_unaltered {α γ : Type} (clause : Option γ) (read : γ → View → Outcome α) (otherwise : α)
    (next : α → Database → Ended) (rest : ∀ result, Unaltered txId db (next result db)) :
    Unaltered txId db (attemptIf txId clause (fun clause => .reading (read clause)) otherwise next db) := by
  unfold attemptIf
  cases clause with
  | none => exact rest otherwise
  | some clause => exact reading_unaltered (read clause) next rest

variable (library : StandardLibrary) (query : Query)

theorem executeRead_unaltered (matching : MatchClause) (returning : ReturnClause) :
    Unaltered txId db (executeRead (graphExecutors library) query txId matching returning db) := by
  refine reading_unaltered (executeMatch matching) _ fun rows => ?_
  refine readingIf_unaltered _ (fun clause view => .ofExcept (applyWhere clause view rows)) _ _ fun rows => ?_
  refine reading_unaltered (fun view => .ofExcept (executeReturn returning rows view)) _ fun result => ?_
  refine readingIf_unaltered _ (fun clause _ => .value (applyOrderBy library result clause)) _ _ fun result => ?_
  exact readingIf_unaltered _ (fun clause _ => applyLimit library result clause) _ _ succeed_unaltered

theorem executeBody_unaltered (reads : query.isWriteQuery = false) :
    Unaltered txId db (executeBody (graphExecutors library) query txId db) := by
  simp only [Query.isWriteQuery,Bool.or_eq_false_iff] at reads
  obtain ⟨⟨creates,sets⟩,deletes⟩ := reads
  have other : Unaltered txId db (executeOther (graphExecutors library) query txId db) := by
    unfold executeOther
    cases created : query.createClause with
    | none => exact fail_unaltered _
    | some clause =>
      rw [created] at creates
      cases creates
  unfold executeBody
  split
  · exact other
  · rw [sets,deletes]
    split
    · rename_i impossible
      cases impossible
    · split
      · split
        · exact executeRead_unaltered library query _ _
        · exact other
      · exact other

end Clauses

/-! Sessions without the queries that only read. -/

section Sessions

variable (hash : Bytes → UInt64) (library : StandardLibrary)

theorem reading_unnoticed (versions : Bool) (db : Database) (kept : Kept versions db) (query : Query)
    (reads : query.isWriteQuery = false) (returned : (executeQuery (graphExecutors library) query db).1.isSome = true)
    (later : List Query) :
    results (graphExecutors library) later (executeQuery (graphExecutors library) query db).2 =
      results (graphExecutors library) later db := by
  have unaltered : Unaltered db.beginTransaction.1.id db.beginTransaction.2
    (executeQuery (graphExecutors library) query db) := executeBody_unaltered library query reads
  rcases unaltered with endless | ⟨result,same⟩ | ⟨e,same⟩
  · rw [endless] at returned
    cases returned
  · rw [same]
    exact committed_unnoticed library versions db kept result later
  · rw [same]
    exact abandoned_unnoticed library versions db kept e later

theorem writing_results (versions : Bool) (queries : List Query) (db : Database) (kept : Kept versions db)
    (returned : ∀ answer ∈ results (graphExecutors library) queries db, answer.isSome = true) :
    results (graphExecutors library) (queries.filter Query.isWriteQuery) db =
      ((queries.zip (results (graphExecutors library) queries db)).filter fun pair => pair.1.isWriteQuery).map
        Prod.snd := by
  induction queries generalizing db with
  | nil => rfl
  | cons query rest ih =>
    have first : (executeQuery (graphExecutors library) query db).1.isSome = true := returned _ List.mem_cons_self
    have continued : results (graphExecutors library) (query::rest) db =
        (executeQuery (graphExecutors library) query db).1::results (graphExecutors library) rest
          (executeQuery (graphExecutors library) query db).2 := by
      rw [results,if_pos first]
    rw [continued] at returned ⊢
    have others := ih _ (sessionStep_kept (fun _ => 0) library versions db (.query query) first kept) fun answer member =>
      returned answer (List.mem_cons_of_mem _ member)
    cases writes : query.isWriteQuery with
    | true =>
      rw [List.filter_cons_of_pos writes,List.zip_cons_cons,List.filter_cons_of_pos (by exact writes),List.map_cons]
      rw [results,if_pos first]
      exact congrArg _ others
    | false =>
      rw [List.filter_cons_of_neg (by simp [writes]),List.zip_cons_cons,List.filter_cons_of_neg (by simp [writes])]
      exact (reading_unnoticed library versions db kept query writes first _).symm.trans others

/-- In a session that comes back the queries that write get the same answers without those that only read, with
versions or without, whatever transactions have been left open before. -/
theorem readers_unnoticed (file : Bytes) (versions : Bool) (wal : Option WALManager) (calls : List SessionCall)
    (history : Guarded (sessionStep hash library) (SessionLegal library) (session file versions wal) calls)
    (queries : List Query) (db : Database)
    (reached : db = run (sessionStep hash library) (session file versions wal) calls)
    (returned : ∀ answer ∈ results (graphExecutors library) queries db, answer.isSome = true) :
    results (graphExecutors library) (queries.filter Query.isWriteQuery) db =
      ((queries.zip (results (graphExecutors library) queries db)).filter fun pair => pair.1.isWriteQuery).map
        Prod.snd := by
  refine writing_results library versions queries db ?_ returned
  rw [reached]
  exact run_preserves (Kept versions) (fun db call => sessionStep_kept hash library versions db call)
    _ calls history (session_kept file versions wal)

end Sessions

theorem readers_unnoticed_listed : results (graphExecutors stableLibrary) [createOne,copyQuery] (session [7] true none) =
    [some (.ok (counted ["created_nodes","created_edges"] [1,0])),some (.ok (counted ["updated_nodes"] [1]))] := by
  have listed := meant_results (fun _ => 0) stableLibrary (fun store state => ShowsVersions store state ∧ Waiting store)
    (fun query rest db _ => query_versions (fun _ => 0) stableLibrary query rest db) [createOne,readQuery,copyQuery]
    (session [7] true none) {versions := true} (opened_versions [7] none) (by decide +kernel)
  have same := readers_unnoticed (fun _ => 0) stableLibrary [7] true none [] trivial [createOne,readQuery,copyQuery]
    (session [7] true none) rfl (by rw [listed]; decide +kernel)
  rw [listed] at same
  exact same

end LoreDB.Query.Cypher
