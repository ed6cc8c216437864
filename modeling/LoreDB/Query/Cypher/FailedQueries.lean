import LoreDB.Query.Cypher.GraphViews
import LoreDB.Query.Cypher.Sessions

/-! What a query that fails leaves behind. Nothing is undone: rows that were written before the
failing one stay written, and a failure before all of them is not noticed by later queries. -/
namespace LoreDB.Query.Cypher
open LoreDB.Storage LoreDB.Storage.GraphHistory LoreDB.Storage.OpenStores
  LoreDB.Storage.SkippedTransaction LoreDB.Transaction LoreDB.Transaction.SkippedId LoreDB.Library.History
  GraphStore

/-- A node with a record on a page. -/
def Stored (nodeId : NodeId) (store : Graph) : Prop :=
  ∃ found, (GraphStore.getNode nodeId store).1 = .ok found

section Rows

variable (clause : SetClause) (txId : Nat) (store : Graph)

/-- Rows that the clause writes, if it gets to them. -/
def Writes (row : ResultRow) : Prop :=
  ∃ nodeId, row.bindings clause.variableName = some (.node nodeId) ∧
    (∃ value, evaluateExpression row.bindings (ExecutionContext.view txId store) clause.value = .ok value) ∧
    ((ExecutionContext.view txId store).node nodeId).isSome = true ∧ Stored nodeId store

/-- Rows that the clause fails on: the value has none, or the node that is seen is on no page. -/
def Fails (row : ResultRow) : Prop :=
  ∃ nodeId, row.bindings clause.variableName = some (.node nodeId) ∧
    ((∃ e, evaluateExpression row.bindings (ExecutionContext.view txId store) clause.value = .error e) ∨
      ((ExecutionContext.view txId store).node nodeId).isSome = true ∧ ¬Stored nodeId store)

/-- Whatever would be written comes after a row that fails. -/
def FailsFirst (rows : ResultSet) : Prop :=
  ∀ before row after, rows = before ++ row::after → Writes clause txId store row →
    ∃ earlier ∈ before, Fails clause txId store earlier

end Rows

def matchedRows (query : Query) (matching : MatchClause) (view : View) : Outcome ResultSet :=
  (executeMatch matching view).bind fun rows =>
    match query.whereClause with
    | some clause => .ofExcept (applyWhere clause view rows)
    | none => .value rows

/-- The query writes no row before it fails. -/
def WritesNothing (query : Query) (db : Database) : Prop :=
  ∀ matching clause rows, query.matchClause = some matching → query.setClause = some clause →
    matchedRows query matching
        (ExecutionContext.view db.beginTransaction.1.id db.beginTransaction.2.graphStore) = .value rows →
      FailsFirst clause db.beginTransaction.1.id db.beginTransaction.2.graphStore rows

section Writing

variable {txId : Nat} {store : Graph}

theorem updateNode_missing (txId : Nat) (nodeId : NodeId) (properties : List Property) (isOpen : IsOpen store)
    (missing : ¬Stored nodeId store) :
    ∃ e, ExecutionContext.updateNode txId nodeId properties store = (some (.error e),store) := by
  obtain ⟨e,_,failed⟩ | ⟨found,_⟩ := updateNode_opens nodeId properties isOpen
  · refine ⟨e,?_⟩
    simp only [ExecutionContext.updateNode,ExecutionContext.choose,updateNodeTx,failed,ite_self]
  · exact absurd found missing

/-- A row that neither writes nor fails leaves everything as it is. -/
theorem setRow_clean (clause : SetClause) (row : ResultRow) (updated : Nat) (isOpen : IsOpen store)
    (unwritten : ¬Writes clause txId store row) :
    (setRow clause txId row updated store = (.value updated,store) ∧ ¬Fails clause txId store row) ∨
      ∃ e, setRow clause txId row updated store = (.error e,store) := by
  unfold setRow
  split
  · rename_i nodeId bound
    split
    · rename_i e failed
      exact .inr ⟨e,rfl⟩
    · rename_i value evaluated
      split
      · rename_i unseen
        refine .inl ⟨rfl,?_⟩
        rintro ⟨other,same,⟨e,failed⟩ | ⟨seen,_⟩⟩
        · rw [evaluated] at failed
          cases failed
        · rw [bound] at same
          cases same
          simp [unseen] at seen
      · rename_i record properties seen
        have missing : ¬Stored nodeId store := fun stored =>
          unwritten ⟨nodeId,bound,⟨value,evaluated⟩,by simp [seen],stored⟩
        obtain ⟨e,failed⟩ := updateNode_missing txId nodeId
          (setProperty clause.property value properties) isOpen missing
        exact .inr ⟨e,by rw [failed]; rfl⟩
  · rename_i unbound
    refine .inl ⟨rfl,?_⟩
    rintro ⟨nodeId,bound,_⟩
    exact unbound nodeId bound

theorem setRows_clean (clause : SetClause) (rows : ResultSet) (updated : Nat) (isOpen : IsOpen store)
    (first : FailsFirst clause txId store rows) :
    (forEach (setRow clause txId) rows updated store).2 = store := by
  induction rows generalizing updated with
  | nil => rfl
  | cons row rest ih =>
    have unwritten : ¬Writes clause txId store row := by
      intro writes
      obtain ⟨_,absurd,_⟩ := first [] row rest rfl writes
      cases absurd
    unfold forEach
    rcases setRow_clean clause row updated isOpen unwritten with ⟨same,passes⟩ | ⟨e,failed⟩
    · rw [same]
      refine ih updated fun before other after split writes => ?_
      obtain ⟨earlier,member,fails⟩ := first (row::before) other after (by rw [split]; rfl) writes
      rcases List.mem_cons.mp member with rfl | inside
      · exact absurd fails passes
      · exact ⟨earlier,inside,fails⟩
    · rw [failed]

theorem deletions_proceed (txId : Nat) (bound : List VariableBinding) (deleted : Nat × Nat) (store : Graph) :
    (∃ total, (forEach (deleteBound txId) bound deleted store).1 = .value total) ∨
      (forEach (deleteBound txId) bound deleted store).1 = .endless := by
  have counted {α : Type} (failed done : Nat × Nat) (returned : Option (Except Error α) × Graph) :
      (∃ total, (counts failed done returned).1 = .value total) ∨
        (counts failed done returned).1 = .endless := by
    rcases returned with ⟨_ | _ | _,later⟩
    · exact .inr rfl
    · exact .inl ⟨_,rfl⟩
    · exact .inl ⟨_,rfl⟩
  induction bound generalizing deleted store with
  | nil => exact .inl ⟨_,rfl⟩
  | cons binding rest ih =>
    have step : (∃ total, (deleteBound txId binding deleted store).1 = .value total) ∨
        (deleteBound txId binding deleted store).1 = .endless := by
      cases binding with
      | node nodeId => exact counted ..
      | edge edgeId => exact counted ..
      | literal value => exact .inl ⟨_,rfl⟩
    unfold forEach
    cases done : deleteBound txId binding deleted store with
    | mk outcome next =>
      rw [done] at step
      obtain ⟨total,rfl⟩ | rfl := step
      · exact ih total next
      · exact .inr rfl

/-- The states in which a query runs. -/
def Ready (txId : Nat) (store : Graph) : Prop := Unversioned store ∨ Runs txId store

theorem Ready.isOpen (ready : Ready txId store) : IsOpen store := by
  rcases ready with unversioned | runs
  · exact unversioned.2
  · exact runs.1.2

theorem createNode_proceeds (properties : List Property) (ready : Ready txId store) :
    ∃ id next, ExecutionContext.createNode txId properties store = (some (.ok id),next) ∧
      Ready txId next := by
  obtain ⟨later,created,_⟩ := createNode_opens properties ready.isOpen
  rcases ready with unversioned | runs
  · obtain ⟨_,_,kept⟩ := (unversioned_alike txId txId).createNode properties store store ⟨rfl,unversioned⟩
    refine ⟨store.nextNodeId,later,?_⟩
    rw [ExecutionContext.createNode,chosen_plain _ _ store unversioned,created] at kept ⊢
    exact ⟨rfl,.inl kept⟩
  · have kept := createNode_runs runs properties
    have enabled : later.mvccManager = some (mvcc store) := by
      have same := (createNode_touches properties store).1.versions
      rw [created] at same
      rw [same,runs.1.1.enabled]
    rw [ExecutionContext.createNode,chosen_transactional _ _ store runs.1,createNodeTx,created] at kept ⊢
    simp only [enabled,Option.isNone_some,Bool.false_eq_true,if_false] at kept ⊢
    rw [versioned_free _ _ _ _ _ later (mvcc store) enabled runs.1.1.versions.free] at kept ⊢
    exact ⟨_,_,rfl,.inr kept⟩

theorem creations_proceed (nodes : List Node) (created : Nat) (ready : Ready txId store) :
    ∃ total, (createNodes txId nodes created store).1 = .value total := by
  induction nodes generalizing created store with
  | nil => exact ⟨_,rfl⟩
  | cons node rest ih =>
    obtain ⟨id,next,done,later⟩ := createNode_proceeds
      (node.properties.entries.map fun entry => ⟨entry.1,toStorage entry.2⟩) ready
    obtain ⟨total,ends⟩ := ih (created + 1) later
    refine ⟨total,?_⟩
    unfold createNodes forEach createNodeFromPattern
    rw [done]
    exact ends

end Writing

section Clean

variable {txId : Nat} {db : Database}

/-- A query that fails without a trace: the database is the one in which it was running. -/
def Clean (txId : Nat) (db : Database) (ended : Ended) : Prop :=
  ∀ e, ended.1 = some (.error e) → ∃ e, ended = fail txId e db

theorem succeed_clean (result : QueryResult) (other : Database) :
    Clean txId db (succeed txId result other) := by
  intro e failed
  cases failed

theorem fail_clean (e : Error) : Clean txId db (fail txId e db) := fun _ _ => ⟨e,rfl⟩

theorem reading_clean {α : Type} (read : View → Outcome α) (next : α → Database → Ended)
    (rest : ∀ result, read (ExecutionContext.view txId db.graphStore) = .value result →
      Clean txId db (next result db)) : Clean txId db (attempt txId (.reading read) next db) := by
  unfold attempt Action.reading
  cases ends : read (ExecutionContext.view txId db.graphStore) with
  | value result => simpa only [ends] using rest result ends
  | error e => simpa only [ends] using fail_clean e
  | thrown what => simpa only [ends] using fail_clean _
  | endless =>
    intro e failed
    simp only [ends] at failed
    cases failed

/-- A clause that writes and does not fail, or fails with the store as it was. -/
theorem writing_clean {α : Type} (write : Nat → Graph → Outcome α × Graph)
    (keeps : ∀ txId store, tables (write txId store).2 = tables store)
    (next : α → Database → Ended)
    (rest : ∀ result later, Clean txId db (next result {db with graphStore := later}))
    (undone : (∃ result, (write txId db.graphStore).1 = .value result) ∨
      (write txId db.graphStore).1 = .endless ∨ (write txId db.graphStore).2 = db.graphStore) :
    Clean txId db (attempt txId (.writing write keeps) next db) := by
  unfold attempt Action.writing
  dsimp only
  cases wrote : write txId db.graphStore with
  | mk outcome later =>
    rw [wrote] at undone
    cases outcome with
    | value result => exact rest result later
    | error e =>
      obtain ⟨_,absurd⟩ | absurd | same := undone
      · cases absurd
      · cases absurd
      · cases same
        exact fail_clean e
    | thrown what =>
      obtain ⟨_,absurd⟩ | absurd | same := undone
      · cases absurd
      · cases absurd
      · cases same
        exact fail_clean _
    | endless =>
      intro e failed
      cases failed

theorem proceeding_clean {α : Type} (write : Nat → Graph → Outcome α × Graph)
    (keeps : ∀ txId store, tables (write txId store).2 = tables store)
    (next : α → Database → Ended) (rest : ∀ result later, Clean txId db (next result later))
    (other : Database) (proceeds : (∃ result, (write txId other.graphStore).1 = .value result) ∨
      (write txId other.graphStore).1 = .endless) :
    Clean txId db (attempt txId (.writing write keeps) next other) := by
  unfold attempt Action.writing
  dsimp only
  cases wrote : write txId other.graphStore with
  | mk outcome later =>
    rw [wrote] at proceeds
    obtain ⟨result,rfl⟩ | rfl := proceeds
    · exact rest result _
    · intro e failed
      cases failed

variable (library : StandardLibrary) (query : Query)

theorem matchRows_clean (matching : MatchClause) (next : ResultSet → Database → Ended)
    (rest : ∀ rows, matchedRows query matching (ExecutionContext.view txId db.graphStore) =
      .value rows → Clean txId db (next rows db)) :
    Clean txId db (matchRows (graphExecutors library) query txId matching next db) := by
  refine reading_clean (executeMatch matching) _ fun rows matched => ?_
  unfold matchedRows at rest
  rw [matched] at rest
  unfold attemptIf
  cases condition : query.whereClause with
  | none => exact rest rows (by rw [condition]; rfl)
  | some clause =>
    refine reading_clean (fun view => .ofExcept (applyWhere clause view rows)) next fun kept held => ?_
    refine rest kept ?_
    rw [condition]
    exact held

theorem delete_clean (rows : ResultSet) (written : QueryResult) (later : Database) :
    Clean txId db (attemptIf txId query.deleteClause
      (fun clause => (graphExecutors library).executeDelete clause rows) written (succeed txId) later) := by
  unfold attemptIf
  cases query.deleteClause with
  | none => exact succeed_clean _ _
  | some clause =>
    refine proceeding_clean (executeDelete clause rows) (executeDelete_tables clause rows) _
      (fun _ _ => succeed_clean _ _) later ?_
    obtain ⟨total,ends⟩ | ends := deletions_proceed txId
      (rows.flatMap fun row => clause.variableNames.filterMap row.bindings) (0,0) later.graphStore
    · exact .inl ⟨_,congrArg (Outcome.map _) ends⟩
    · exact .inr (congrArg (Outcome.map _) ends)

theorem executeWrite_clean (matching : MatchClause) (isOpen : IsOpen db.graphStore)
    (nothing : ∀ clause rows, query.setClause = some clause →
      matchedRows query matching (ExecutionContext.view txId db.graphStore) = .value rows →
        FailsFirst clause txId db.graphStore rows) :
    Clean txId db (executeWrite (graphExecutors library) query txId matching db) := by
  refine matchRows_clean library query matching _ fun rows matched => ?_
  unfold attemptIf
  cases setting : query.setClause with
  | none => exact delete_clean library query rows _ db
  | some clause =>
    refine writing_clean (executeSet clause rows) (executeSet_tables clause rows) _
      (fun written later => delete_clean library query rows written _) (.inr (.inr ?_))
    exact setRows_clean clause rows 0 isOpen (nothing clause rows setting matched)

theorem executeRead_clean (matching : MatchClause) (returning : ReturnClause) :
    Clean txId db (executeRead (graphExecutors library) query txId matching returning db) := by
  have orders (result : QueryResult) : Clean txId db (attemptIf txId query.limitClause
      ((graphExecutors library).applyLimit result) result (succeed txId) db) := by
    unfold attemptIf
    cases query.limitClause with
    | none => exact succeed_clean _ _
    | some clause =>
      exact reading_clean (fun _ => applyLimit library result clause) _ fun _ _ => succeed_clean _ _
  refine matchRows_clean library query matching _ fun rows _ => ?_
  refine reading_clean (fun view => .ofExcept (executeReturn returning rows view)) _ fun result _ => ?_
  unfold attemptIf
  cases query.orderBy with
  | none => exact orders result
  | some clause =>
    exact reading_clean (fun _ => .value (applyOrderBy library result clause)) _
      fun sorted _ => orders sorted

theorem executeOther_clean (ready : Ready txId db.graphStore) :
    Clean txId db (executeOther (graphExecutors library) query txId db) := by
  unfold executeOther
  cases query.createClause with
  | none => exact fail_clean _
  | some clause =>
    refine proceeding_clean (executeCreate clause) (executeCreate_tables clause) _
      (fun _ _ => succeed_clean _ _) db (.inl ?_)
    obtain ⟨total,ends⟩ := creations_proceed (clause.patterns.flatMap Pattern.nodes) 0 ready
    exact ⟨_,congrArg (Outcome.map _) ends⟩

theorem executeBody_clean (ready : Ready txId db.graphStore)
    (nothing : ∀ matching clause rows, query.matchClause = some matching →
      query.setClause = some clause →
        matchedRows query matching (ExecutionContext.view txId db.graphStore) = .value rows →
          FailsFirst clause txId db.graphStore rows) :
    Clean txId db (executeBody (graphExecutors library) query txId db) := by
  unfold executeBody
  split
  · exact executeOther_clean library query ready
  · rename_i matching found
    split
    · exact executeWrite_clean library query matching ready.isOpen fun clause rows =>
        nothing matching clause rows found
    · split
      · split
        · exact executeRead_clean library query matching _
        · exact executeOther_clean library query ready
      · exact executeOther_clean library query ready

end Clean

/-- A transaction that begins and aborts leaves its id behind, and nothing else. -/
theorem abandoned_skipped {store : Graph} (versioned : Versioned store) :
    Skipped (mvcc store).txnManager.nextTransactionId
      (released (mvcc store).txnManager.nextTransactionId (swap (some (MvccHistory.step
        (MvccHistory.step (mvcc store) .begin)
        (.abort (mvcc store).txnManager.nextTransactionId))) store)) store := by
  obtain ⟨positive,reached,next,states,chains⟩ := aborted_skips (mvcc store) versioned.1.versions
  refine ⟨rfl,versioned.1.enabled,⟨positive,reached,next,states,chains⟩,fun key => ?_,
    versioned.1.versions.free⟩
  have free : (mvcc store).lockManager.lockTable key = [] := versioned.1.versions.free key
  change List.filter _ ((mvcc store).lockManager.lockTable key) = []
  rw [free]
  rfl

theorem abandoned_unnoticed (library : StandardLibrary) (versions : Bool) (db : Database)
    (kept : Kept versions db) (e : Error) (later : List Query) :
    results (graphExecutors library) later (fail db.beginTransaction.1.id e db.beginTransaction.2).2 =
      results (graphExecutors library) later db := by
  cases versions with
  | false =>
    have unversioned : Unversioned db.graphStore := kept
    refine results_alike unversioned_simulates library later _ db ?_
    have same : (fail db.beginTransaction.1.id e db.beginTransaction.2).2.graphStore = db.graphStore := by
      have begun : db.beginTransaction.2.graphStore = db.graphStore :=
        manage_unversioned _ db unversioned
      rw [fail,Database.unlockAll,Database.abortTransaction,manage_unversioned,manage_unversioned,begun]
      · rwa [begun]
      · rwa [manage_unversioned,begun]
        rwa [begun]
    rw [same]
    exact ⟨rfl,unversioned⟩
  | true =>
    have versioned : Versioned db.graphStore := kept
    obtain ⟨identity,begun,runs⟩ := begin_runs db versioned
    obtain ⟨ended,aborted⟩ := abort_versioned runs
    refine results_alike (skipped_simulates (mvcc db.graphStore).txnManager.nextTransactionId) library
      later _ db ?_
    have left : (fail db.beginTransaction.1.id e db.beginTransaction.2).2.graphStore =
        released (mvcc db.graphStore).txnManager.nextTransactionId (swap (some (MvccHistory.step
          (MvccHistory.step (mvcc db.graphStore) .begin)
          (.abort (mvcc db.graphStore).txnManager.nextTransactionId))) db.graphStore) := by
      refine ended.trans ?_
      rw [manage_swap _ runs.1,begun,manage_swap _ versioned,identity]
      rfl
    refine ⟨?_,ended ▸ released_versioned _ aborted,versioned⟩
    rw [left]
    exact abandoned_skipped versioned

theorem failed_query_unnoticed (hash : Bytes → UInt64) (library : StandardLibrary) (file : Bytes)
    (versions : Bool) (wal : Option WALManager) (calls : List SessionCall)
    (history : Guarded (sessionStep hash library) (SessionLegal library) (session file versions wal) calls)
    (query : Query) (e : Error) (db : Database)
    (reached : db = run (sessionStep hash library) (session file versions wal) calls)
    (failed : (executeQuery (graphExecutors library) query db).1 = some (.error e))
    (nothing : WritesNothing query db) (later : List Query) :
    results (graphExecutors library) later (executeQuery (graphExecutors library) query db).2 =
      results (graphExecutors library) later db := by
  have kept : Kept versions db := by
    rw [reached]
    exact run_preserves (Kept versions) (fun db call => sessionStep_kept hash library versions db call)
      _ calls history (session_kept file versions wal)
  have ready : Ready db.beginTransaction.1.id db.beginTransaction.2.graphStore := by
    cases versions with
    | false =>
      refine .inl ?_
      rw [Database.beginTransaction,manage_unversioned _ db kept]
      exact kept
    | true => exact .inr (begin_runs db kept).2.2
  obtain ⟨e,clean⟩ := executeBody_clean library query ready nothing e failed
  rw [executeQuery,clean]
  exact abandoned_unnoticed library versions db kept e later

theorem first_refused {clause : SetClause} {txId : Nat} {store : Graph} {row : ResultRow}
    (nodeId : NodeId) (e : Error) (bound : row.bindings clause.variableName = some (.node nodeId))
    (refused : evaluateExpression row.bindings (ExecutionContext.view txId store) clause.value = .error e)
    (rest : ResultSet) : FailsFirst clause txId store (row::rest) := by
  rintro before other after split ⟨_,_,⟨value,evaluated⟩,_⟩
  cases before with
  | nil =>
    cases (List.cons.inj split).1
    rw [refused] at evaluated
    cases evaluated
  | cons first between =>
    cases (List.cons.inj split).1
    exact ⟨row,List.mem_cons_self,nodeId,bound,.inl ⟨e,refused⟩⟩

section Shell

open GraphRefinement

/-- `MATCH (m)`. -/
def everyNode : MatchClause := {patterns := [{nodes := [{variableName := some (ascii "m")}]}]}

/-- `MATCH (m {y: 1})`. -/
def nodesWithOne : MatchClause := {patterns := [{nodes := [{
  variableName := some (ascii "m")
  properties := AList.insert (ascii "y") (.integer 1) ∅}]}]}

/-- `SET m.x = m.y`. -/
def copyToX : SetClause := ⟨ascii "m",ascii "x",.propertyAccess (ascii "m") (ascii "y")⟩

/-- `RETURN m.x`. -/
def returnX : ReturnClause := {items := [{expression := .propertyAccess (ascii "m") (ascii "x")}]}

def copyQuery : Query := {matchClause := some everyNode, setClause := some copyToX}

def readQuery : Query := {matchClause := some nodesWithOne, returnClause := some returnX}

def missingY : Error := ⟨.invalidArgument,"Property not found: m.y"⟩

def namedRow (id : NodeId) : ResultRow := ResultRow.bindNamed (some (ascii "m")) (.node id) {}

def one : List Property := [⟨ascii "y",.integer 1⟩]

def stableLibrary : StandardLibrary := ⟨fun _ rows => rows,"vector::_M_default_append"⟩

def twoNodes (first second : List Property) : List Operation := [.createNode first,.createNode second]

def shell (first second : List Property) : Database :=
  run (sessionStep (fun _ => 0) stableLibrary) (session [] false none)
    (plainCalls (twoNodes first second))

def shellGraph (first second : List Property) : CountedGraph :=
  run (CountedGraph.step fun _ => 0) {} (twoNodes first second)

theorem shell_holds (first second : List Property)
    (short : Guarded (CountedGraph.step fun _ => 0) Short {} (twoNodes first second)) :
    Holds (shell first second).graphStore (shellGraph first second) ∧
      (shell first second).graphStore.nodeCount = 2 := by
  have empty : Holds (session [] false none).graphStore {} := ⟨fresh_represents none none,rfl⟩
  have created := plain_holds (fun _ => 0) (.createNode first) empty short.1
  rw [shell,plainCalls_run,shellGraph]
  dsimp only
  refine ⟨run_holds (fun _ => 0) (twoNodes first second) empty short,?_⟩
  rw [twoNodes,run_cons,run_cons,run_nil,createNode_counts _ _ created,createNode_counts _ _ empty]
  rfl

theorem copyQuery_fails (library : StandardLibrary) {db : Database} {model : CountedGraph}
    (holds : Holds db.graphStore model) (next : Graph)
    (matched : executeMatch everyNode (graphView model db.graphStore.nodeCount) =
      .value [namedRow 1,namedRow 2])
    (failed : executeSet copyToX [namedRow 1,namedRow 2] db.beginTransaction.1.id db.graphStore =
      (.error missingY,next)) :
    executeQuery (graphExecutors library) copyQuery db =
      fail db.beginTransaction.1.id missingY {db.beginTransaction.2 with graphStore := next} := by
  have sees := view_holds db.beginTransaction.1.id holds
  rw [← begun_holds holds] at sees failed matched
  rw [← sees] at matched
  change matchRows _ copyQuery _ _ _ db.beginTransaction.2 = _
  refine (reading_value (executeMatch everyNode) _ [namedRow 1,namedRow 2] matched).trans ?_
  exact writing_error (executeSet copyToX [namedRow 1,namedRow 2])
    (executeSet_tables copyToX [namedRow 1,namedRow 2]) _ missingY next failed

theorem copyQuery_refused (library : StandardLibrary) {db : Database} {model : CountedGraph}
    (holds : Holds db.graphStore model)
    (matched : executeMatch everyNode (graphView model db.graphStore.nodeCount) =
      .value [namedRow 1,namedRow 2])
    (refused : evaluateExpression (namedRow 1).bindings (graphView model db.graphStore.nodeCount)
      copyToX.value = .error missingY) :
    (executeQuery (graphExecutors library) copyQuery db).1 = some (.error missingY) ∧
      WritesNothing copyQuery db := by
  have sees := view_holds db.beginTransaction.1.id holds
  have bound : (namedRow 1).bindings copyToX.variableName = some (.node 1) := by rfl
  rw [← sees] at refused
  have failed : executeSet copyToX [namedRow 1,namedRow 2] db.beginTransaction.1.id db.graphStore =
      (.error missingY,db.graphStore) := by
    unfold executeSet forEach setRow
    simp only [bound,refused]
    rfl
  constructor
  · rw [copyQuery_fails library holds db.graphStore matched failed]
    rfl
  · rintro matching clause rows searching setting found
    cases Option.some.inj searching
    cases Option.some.inj setting
    rw [begun_holds holds] at found ⊢
    have same : matchedRows copyQuery everyNode
        (ExecutionContext.view db.beginTransaction.1.id db.graphStore) =
          .value [namedRow 1,namedRow 2] := by
      rw [matchedRows,sees,matched]
      rfl
    cases Outcome.value.inj (same.symm.trans found)
    exact first_refused 1 missingY bound refused [namedRow 2]

/-- The first node has no value to copy. -/
theorem failed_query_unnoticed_first :
    results (graphExecutors stableLibrary) [readQuery]
        (executeQuery (graphExecutors stableLibrary) copyQuery (shell [] one)).2 =
      results (graphExecutors stableLibrary) [readQuery] (shell [] one) := by
  obtain ⟨holds,two⟩ := shell_holds [] one (by decide +kernel)
  obtain ⟨failed,nothing⟩ := copyQuery_refused stableLibrary holds (by rw [two]; rfl) rfl
  exact failed_query_unnoticed (fun _ => 0) stableLibrary [] false none (plainCalls (twoNodes [] one))
    (plainCalls_legal _ _ _ _) copyQuery missingY (shell [] one) rfl failed nothing [readQuery]

def copiedGraph : CountedGraph :=
  (shellGraph one []).step (fun _ => 0) (.updateNode 1 (setProperty (ascii "x") (.integer 1) one))

/-- The first row is written in place before the second one fails. -/
theorem copy_fails (txId : Nat) {store : Graph} (holds : Holds store (shellGraph one []))
    (two : store.nodeCount = 2) :
    ∃ next, executeSet copyToX [namedRow 1,namedRow 2] txId store = (.error missingY,next) ∧
      Holds next copiedGraph ∧ next.nodeCount = 2 := by
  obtain ⟨next,updated,same⟩ := updateNode_counts 1 (setProperty (ascii "x") (.integer 1) one) one holds rfl
  have later : Holds next copiedGraph := by
    have kept := plain_holds (fun _ => 0) (.updateNode 1 (setProperty (ascii "x") (.integer 1) one))
      holds (by decide +kernel)
    rwa [plain,updated] at kept
  have written : setRow copyToX txId (namedRow 1) 0 store = (.value 1,next) := by
    have sees := view_holds txId holds
    have bound : (namedRow 1).bindings copyToX.variableName = some (.node 1) := by rfl
    have evaluated : evaluateExpression (namedRow 1).bindings
        (graphView (shellGraph one []) store.nodeCount) copyToX.value = .ok (.integer 1) := by rfl
    have found : (graphView (shellGraph one []) store.nodeCount).node 1 = some (nodeRecord 1 one,one) := by
      rfl
    unfold setRow
    simp only [bound,sees,evaluated,found]
    rw [ExecutionContext.updateNode,chosen_plain _ _ store holds.idle]
    rw [show copyToX.property = ascii "x" from rfl,updated]
    rfl
  have refused : setRow copyToX txId (namedRow 2) 1 next = (.error missingY,next) := by
    have sees := view_holds txId later
    have bound : (namedRow 2).bindings copyToX.variableName = some (.node 2) := by rfl
    have evaluated : evaluateExpression (namedRow 2).bindings (graphView copiedGraph next.nodeCount)
        copyToX.value = .error missingY := by rfl
    unfold setRow
    simp only [bound,sees,evaluated]
  refine ⟨next,?_,later,same.trans two⟩
  unfold executeSet
  simp only [forEach,written,refused]
  rfl

theorem readQuery_differs (library : StandardLibrary) {db other : Database}
    (holds : Holds db.graphStore (shellGraph one [])) (two : db.graphStore.nodeCount = 2)
    (copied : Holds other.graphStore copiedGraph) (still : other.graphStore.nodeCount = 2) :
    results (graphExecutors library) [readQuery] other ≠ results (graphExecutors library) [readQuery] db := by
  have before := reading_result library holds nodesWithOne returnX [namedRow 1] (by rw [two]; rfl)
  have after := reading_result library copied nodesWithOne returnX [namedRow 1] (by rw [still]; rfl)
  rw [two] at before
  rw [still] at after
  have apart : executeReturn returnX [namedRow 1] (graphView copiedGraph 2) ≠
      executeReturn returnX [namedRow 1] (graphView (shellGraph one []) 2) := by decide +kernel
  intro same
  have first := (List.cons.inj same).1
  exact apart (Option.some.inj ((after.symm.trans first).trans before))

/-- The second node has no value to copy, and the first one keeps its copy. -/
theorem failed_set_remains :
    (executeQuery (graphExecutors stableLibrary) copyQuery (shell one [])).1 = some (.error missingY) ∧
      results (graphExecutors stableLibrary) [readQuery]
          (executeQuery (graphExecutors stableLibrary) copyQuery (shell one [])).2 ≠
        results (graphExecutors stableLibrary) [readQuery] (shell one []) := by
  obtain ⟨holds,two⟩ := shell_holds one [] (by decide +kernel)
  obtain ⟨next,failed,later,still⟩ := copy_fails (shell one []).beginTransaction.1.id holds two
  rw [copyQuery_fails stableLibrary holds next (by rw [two]; rfl) failed]
  have left := ended_holds {(shell one []).beginTransaction.2 with graphStore := next} later
    (shell one []).beginTransaction.1.id missingY
  exact ⟨rfl,readQuery_differs stableLibrary holds two (left ▸ later) (left ▸ still)⟩

end Shell

end LoreDB.Query.Cypher
