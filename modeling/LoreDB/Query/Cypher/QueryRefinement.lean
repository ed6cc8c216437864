import LoreDB.Query.Cypher.GraphMeaning

/-! Queries keep to their meaning wherever the calls of their clauses do. Between the first call and the last
one, the store in which the transaction runs shows the graph that the operations so far have made. -/
namespace LoreDB.Query.Cypher
open LoreDB.Storage LoreDB.Storage.GraphHistory LoreDB.Storage.GraphRefinement LoreDB.Library.History

/-- How a store shows a graph to the transaction that runs in it. Reads tell of the graph, and writes that fit
are made in both. -/
structure Faithful (hash : Bytes → UInt64) (shows : Nat → Graph → QueryGraph → Prop) : Prop where
  views : ∀ t store state, shows t store state → ExecutionContext.view t store = state.view
  createNode : ∀ t properties store state, shows t store state → state.Fits (.createNode properties) →
    (ExecutionContext.createNode t properties store).1 = some (state.answer (.createNode properties)) ∧
      shows t (ExecutionContext.createNode t properties store).2 (state.perform hash (.createNode properties))
  updateNode : ∀ t id properties old store state, shows t store state → state.model.graph.nodes id = some old →
    state.Fits (.updateNode id properties) →
    (ExecutionContext.updateNode t id properties store).1 = some (.ok ()) ∧
      shows t (ExecutionContext.updateNode t id properties store).2 (state.perform hash (.updateNode id properties))
  deleteNode : ∀ t id store state, shows t store state →
    (ExecutionContext.deleteNode t id store).1 = some ((state.answer (.deleteNode id)).map fun _ => ()) ∧
      shows t (ExecutionContext.deleteNode t id store).2 (state.perform hash (.deleteNode id))
  deleteEdge : ∀ t id store state, shows t store state →
    (ExecutionContext.deleteEdge t id store).1 = some ((state.answer (.deleteEdge id)).map fun _ => ()) ∧
      shows t (ExecutionContext.deleteEdge t id store).2 (state.perform hash (.deleteEdge id))

section Refinement

variable {hash : Bytes → UInt64} {shows : Nat → Graph → QueryGraph → Prop} {t : Nat} {α β γ : Type}

/-- The operations of a meaning fit, one after the other. -/
def Sized (hash : Bytes → UInt64) (meaning : Meaning α) (state : QueryGraph) : Prop :=
  Guarded (QueryGraph.perform hash) QueryGraph.Fits state (meaning state).operations

/-- The graph that a meaning leaves. -/
def left (hash : Bytes → UInt64) (meaning : Meaning α) (state : QueryGraph) : QueryGraph :=
  run (QueryGraph.perform hash) state (meaning state).operations

/-- The calls of a clause end as their meaning does. Without operations they leave the store alone. -/
def Makes (hash : Bytes → UInt64) (shows : Nat → Graph → QueryGraph → Prop) (t : Nat)
    (write : Graph → Outcome α × Graph) (meaning : Meaning α) : Prop :=
  ∀ store state, shows t store state → Sized hash meaning state →
    (write store).1 = (meaning state).outcome ∧ shows t (write store).2 (left hash meaning state) ∧
      ((meaning state).operations = [] → (write store).2 = store)

def Acts (hash : Bytes → UInt64) (shows : Nat → Graph → QueryGraph → Prop) (t : Nat) (action : Action α)
    (meaning : Meaning α) : Prop :=
  ∀ db state, shows t db.graphStore state → Sized hash meaning state →
    (action.run t db).1 = (meaning state).outcome ∧
      shows t (action.run t db).2.graphStore (left hash meaning state) ∧
      ((meaning state).operations = [] → (action.run t db).2 = db)

/-- How a query leaves the database that its clauses have made. -/
def conclude (t : Nat) : Outcome QueryResult → Database → Ended
  | .value result, db => succeed t result db
  | .error e, db => fail t e db
  | .thrown what, db => fail t ⟨.invalidArgument,"Query execution error: " ++ what⟩ db
  | .endless, db => (none,db)

theorem conclude_returns (t : Nat) (outcome : Outcome QueryResult) (db : Database) :
    (conclude t outcome db).1 = returned outcome := by
  cases outcome <;> rfl

def EndsAs (hash : Bytes → UInt64) (shows : Nat → Graph → QueryGraph → Prop) (t : Nat) (db : Database)
    (ended : Ended) (meaning : Meaning QueryResult) (state : QueryGraph) : Prop :=
  ∃ last, shows t last.graphStore (left hash meaning state) ∧ ended = conclude t (meaning state).outcome last ∧
    ((meaning state).operations = [] → last = db)

section Sequences

variable (first : Meaning α) (next : α → Meaning β) (state : QueryGraph)

theorem sized_first (sized : Sized hash (first.bind hash next) state) : Sized hash first state := by
  unfold Sized Meaning.bind at *
  cases began : first state with
  | mk outcome made =>
    rw [began] at sized
    cases outcome with
    | value result => exact ((guarded_append ..).mp sized).1
    | error e => exact sized
    | thrown what => exact sized
    | endless => exact sized

variable (result : α) (ends : (first state).outcome = .value result)
include ends

theorem bind_value : (first.bind hash next state).outcome = (next result (left hash first state)).outcome ∧
    left hash (first.bind hash next) state = left hash (next result) (left hash first state) ∧
    (first.bind hash next state).operations =
      (first state).operations ++ (next result (left hash first state)).operations := by
  unfold left Meaning.bind
  cases began : first state with
  | mk outcome made =>
    rw [began] at ends
    cases ends
    exact ⟨rfl,run_append ..,rfl⟩

theorem sized_next (sized : Sized hash (first.bind hash next) state) :
    Sized hash (next result) (left hash first state) := by
  unfold Sized Meaning.bind at sized
  unfold Sized left
  cases began : first state with
  | mk outcome made =>
    rw [began] at sized ends
    cases ends
    exact ((guarded_append ..).mp sized).2

end Sequences

theorem bind_failed (first : Meaning α) (next : α → Meaning β) (state : QueryGraph)
    (fails : ∀ result, (first state).outcome ≠ .value result) :
    (first.bind hash next state).outcome = (first state).outcome.bind (fun _ => .endless) ∧
      left hash (first.bind hash next) state = left hash first state ∧
      (first.bind hash next state).operations = (first state).operations := by
  unfold left Meaning.bind
  cases began : first state with
  | mk outcome made =>
    rw [began] at fails
    cases outcome with
    | value result => exact absurd rfl (fails result)
    | error e => exact ⟨rfl,rfl,rfl⟩
    | thrown what => exact ⟨rfl,rfl,rfl⟩
    | endless => exact ⟨rfl,rfl,rfl⟩

section Loops

variable (faithful : Faithful hash shows)

theorem forEach_makes (step : α → β → Graph → Outcome β × Graph) (meaning : α → β → Meaning β)
    (steps : ∀ item total, Makes hash shows t (step item total) (meaning item total)) (items : List α) (total : β) :
    Makes hash shows t (forEach step items total) (Meaning.forEach hash meaning items total) := by
  induction items generalizing total with
  | nil =>
    intro store state showing _
    exact ⟨rfl,showing,fun _ => rfl⟩
  | cons item rest ih =>
    intro store state showing sized
    rw [Meaning.forEach_cons] at *
    obtain ⟨same,later,untouched⟩ := steps item total store state showing (sized_first _ _ _ sized)
    unfold forEach
    cases done : step item total store with
    | mk outcome reached =>
      rw [done] at same later untouched
      change outcome = _ at same
      cases outcome with
      | value result =>
        obtain ⟨outcomes,states,operations⟩ := bind_value _ (Meaning.forEach hash meaning rest) state result same.symm
        obtain ⟨last,shown,kept⟩ := ih result reached _ later (sized_next _ _ state result same.symm sized)
        rw [outcomes,states,operations]
        refine ⟨last,shown,fun none => ?_⟩
        obtain ⟨before,after⟩ := List.append_eq_nil_iff.mp none
        exact (kept after).trans (untouched before)
      | error e | thrown what | endless =>
        obtain ⟨outcomes,states,operations⟩ := bind_failed (meaning item total)
          (Meaning.forEach hash meaning rest) state (by rw [← same]; simp)
        rw [outcomes,states,operations,← same]
        exact ⟨rfl,later,untouched⟩

theorem map_makes (f : α → β) (write : Graph → Outcome α × Graph) (meaning : Meaning α)
    (makes : Makes hash shows t write meaning) :
    Makes hash shows t (fun store => ((write store).1.map f,(write store).2)) (meaning.map f) := by
  intro store state showing sized
  obtain ⟨same,later,untouched⟩ := makes store state showing sized
  exact ⟨congrArg (Outcome.map f) same,later,untouched⟩

include faithful

theorem createNodes_makes (nodes : List Node) (created : Nat) :
    Makes hash shows t (createNodes t nodes created) (Meaning.forEach hash
      (fun node created => .performing (createOperation node) fun _ => created + 1) nodes created) := by
  refine forEach_makes _ _ (fun node created => ?_) nodes created
  intro store state showing sized
  obtain ⟨answered,later⟩ := faithful.createNode t _ store state showing sized.1
  unfold createNodeFromPattern
  cases called : ExecutionContext.createNode t
      (node.properties.entries.map fun entry => ⟨entry.1,toStorage entry.2⟩) store with
  | mk result next =>
    rw [called] at answered later
    change result = _ at answered
    subst answered
    simp only [called]
    exact ⟨rfl,later,fun none => absurd none (List.cons_ne_nil _ _)⟩

theorem setRow_makes (clause : SetClause) (row : ResultRow) (updated : Nat) :
    Makes hash shows t (setRow clause t row updated) (setRowMeaning clause row updated) := by
  intro store state showing sized
  unfold Sized left setRowMeaning at *
  unfold setRow
  rw [faithful.views t store state showing]
  cases bound : row.bindings clause.variableName with
  | none => exact ⟨rfl,showing,fun _ => rfl⟩
  | some binding =>
    rw [bound] at sized
    cases binding with
    | edge id => exact ⟨rfl,showing,fun _ => rfl⟩
    | literal value => exact ⟨rfl,showing,fun _ => rfl⟩
    | node id =>
      dsimp only at sized ⊢
      cases evaluated : evaluateExpression row.bindings state.view clause.value with
      | error e => exact ⟨rfl,showing,fun _ => rfl⟩
      | ok value =>
        rw [evaluated] at sized
        dsimp only at sized ⊢
        cases held : state.model.graph.nodes id with
        | none =>
          have unseen : state.view.node id = none := by
            simp [QueryGraph.view,graphView,readNode,held,GraphStore.nodeNotFound,Except.toOption]
          simp only [unseen]
          exact ⟨trivial,showing,fun _ => trivial⟩
        | some old =>
          have seen : state.view.node id = some (nodeRecord id old,old) := by
            simp [QueryGraph.view,graphView,readNode,held,Except.toOption]
          rw [held] at sized
          obtain ⟨answered,later⟩ := faithful.updateNode t id _ old store state showing held sized.1
          simp only [seen]
          cases called : ExecutionContext.updateNode t id (setProperty clause.property value old) store with
          | mk result next =>
            rw [called] at answered later
            change result = _ at answered
            subst answered
            exact ⟨rfl,later,fun none => absurd none (List.cons_ne_nil _ _)⟩

theorem deleteBound_makes (bound : VariableBinding) (deleted : Nat × Nat) :
    Makes hash shows t (deleteBound t bound deleted) (deleteBoundMeaning bound deleted) := by
  have counted (failed done : Nat × Nat) (answer : Except Error UInt64) (next : Graph) :
      counts failed done (some (answer.map fun _ => ()),next) =
        (Outcome.value (if answer.toOption.isSome then done else failed),next) := by
    cases answer <;> rfl
  intro store state showing _
  cases bound with
  | literal value => exact ⟨rfl,showing,fun _ => rfl⟩
  | node id =>
    obtain ⟨answered,later⟩ := faithful.deleteNode t id store state showing
    cases called : ExecutionContext.deleteNode t id store with
    | mk result next =>
      rw [called] at answered later
      change result = _ at answered
      subst answered
      rw [deleteBound,called,counted]
      exact ⟨rfl,later,fun none => absurd none (List.cons_ne_nil _ _)⟩
  | edge id =>
    obtain ⟨answered,later⟩ := faithful.deleteEdge t id store state showing
    cases called : ExecutionContext.deleteEdge t id store with
    | mk result next =>
      rw [called] at answered later
      change result = _ at answered
      subst answered
      rw [deleteBound,called,counted]
      exact ⟨rfl,later,fun none => absurd none (List.cons_ne_nil _ _)⟩

end Loops

section Actions

variable (faithful : Faithful hash shows)

theorem writing_acts (write : Nat → Graph → Outcome α × Graph)
    (keeps : ∀ txId store, tables (write txId store).2 = tables store) (meaning : Meaning α)
    (makes : Makes hash shows t (write t) meaning) : Acts hash shows t (.writing write keeps) meaning := by
  intro db state showing sized
  obtain ⟨same,later,untouched⟩ := makes db.graphStore state showing sized
  exact ⟨same,later,fun none => congrArg (fun store => {db with graphStore := store}) (untouched none)⟩

theorem attempt_means (action : Action α) (meaning : Meaning α) (acts : Acts hash shows t action meaning)
    (rest : α → Database → Ended) (next : α → Meaning QueryResult)
    (goes : ∀ result db state, shows t db.graphStore state → Sized hash (next result) state →
      EndsAs hash shows t db (rest result db) (next result) state)
    (db : Database) (state : QueryGraph) (showing : shows t db.graphStore state)
    (sized : Sized hash (meaning.bind hash next) state) :
    EndsAs hash shows t db (attempt t action rest db) (meaning.bind hash next) state := by
  obtain ⟨same,later,untouched⟩ := acts db state showing (sized_first _ _ _ sized)
  unfold attempt
  cases done : action.run t db with
  | mk outcome reached =>
    rw [done] at same later untouched
    change outcome = _ at same
    cases outcome with
    | value result =>
      obtain ⟨outcomes,states,operations⟩ := bind_value _ next state result same.symm
      obtain ⟨last,shown,ended,kept⟩ := goes result reached _ later (sized_next _ _ state result same.symm sized)
      refine ⟨last,states.symm ▸ shown,ended.trans (by rw [outcomes]),fun none => ?_⟩
      rw [operations] at none
      obtain ⟨before,after⟩ := List.append_eq_nil_iff.mp none
      exact (kept after).trans (untouched before)
    | error e | thrown what | endless =>
      obtain ⟨outcomes,states,operations⟩ := bind_failed meaning next state (by rw [← same]; simp)
      refine ⟨reached,states.symm ▸ later,?_,fun none => untouched (operations.symm.trans none)⟩
      rw [outcomes,← same]
      rfl

theorem succeed_means (result : QueryResult) (db : Database) (state : QueryGraph)
    (showing : shows t db.graphStore state) :
    EndsAs hash shows t db (succeed t result db) (fun _ => {outcome := .value result}) state :=
  ⟨db,showing,rfl,fun _ => rfl⟩

theorem attempt_last (action : Action QueryResult) (meaning : Meaning QueryResult)
    (acts : Acts hash shows t action meaning) (db : Database) (state : QueryGraph)
    (showing : shows t db.graphStore state) (sized : Sized hash meaning state) :
    EndsAs hash shows t db (attempt t action (succeed t) db) meaning state := by
  obtain ⟨same,later,untouched⟩ := acts db state showing sized
  refine ⟨(action.run t db).2,later,?_,untouched⟩
  rw [← same]
  unfold attempt
  rcases action.run t db with ⟨_ | _ | _ | _,reached⟩ <;> rfl

theorem optional_means (clause : Option γ) (action : γ → Action α) (meaning : γ → Meaning α)
    (acts : ∀ clause, Acts hash shows t (action clause) (meaning clause)) (otherwise : α)
    (rest : α → Database → Ended) (next : α → Meaning QueryResult)
    (goes : ∀ result db state, shows t db.graphStore state → Sized hash (next result) state →
      EndsAs hash shows t db (rest result db) (next result) state)
    (db : Database) (state : QueryGraph) (showing : shows t db.graphStore state)
    (sized : Sized hash ((Meaning.optional clause meaning otherwise).bind hash next) state) :
    EndsAs hash shows t db (attemptIf t clause action otherwise rest db)
      ((Meaning.optional clause meaning otherwise).bind hash next) state := by
  cases clause with
  | some clause => exact attempt_means _ _ (acts clause) rest next goes db state showing sized
  | none => exact goes otherwise db state showing sized

theorem optional_last (clause : Option γ) (action : γ → Action QueryResult) (meaning : γ → Meaning QueryResult)
    (acts : ∀ clause, Acts hash shows t (action clause) (meaning clause)) (otherwise : QueryResult)
    (db : Database) (state : QueryGraph) (showing : shows t db.graphStore state)
    (sized : Sized hash (Meaning.optional clause meaning otherwise) state) :
    EndsAs hash shows t db (attemptIf t clause action otherwise (succeed t) db)
      (Meaning.optional clause meaning otherwise) state := by
  cases clause with
  | some clause => exact attempt_last _ _ (acts clause) db state showing sized
  | none => exact succeed_means otherwise db state showing

include faithful

theorem reading_acts (read : View → Outcome α) : Acts hash shows t (.reading read) (.reading read) :=
  fun db state showing _ => ⟨congrArg read (faithful.views t db.graphStore state showing),showing,fun _ => rfl⟩

theorem create_acts (clause : CreateClause) :
    Acts hash shows t (.writing (executeCreate clause) (executeCreate_tables clause)) (createMeaning hash clause) :=
  writing_acts _ _ _ (map_makes _ _ _ (createNodes_makes faithful _ 0))

theorem set_acts (clause : SetClause) (rows : ResultSet) : Acts hash shows t
    (.writing (executeSet clause rows) (executeSet_tables clause rows)) (setMeaning hash clause rows) :=
  writing_acts _ _ _ (map_makes _ _ _ (forEach_makes _ _ (setRow_makes faithful clause) rows 0))

theorem delete_acts (clause : DeleteClause) (rows : ResultSet) : Acts hash shows t
    (.writing (executeDelete clause rows) (executeDelete_tables clause rows)) (deleteMeaning hash clause rows) :=
  writing_acts _ _ _ (map_makes _ _ _ (forEach_makes _ _ (deleteBound_makes faithful) _ (0,0)))

end Actions

section Bodies

variable (faithful : Faithful hash shows) (library : StandardLibrary) (query : Query) (db : Database)
  (state : QueryGraph) (showing : shows t db.graphStore state)
include faithful showing

theorem matchRows_means (matching : MatchClause) (rest : ResultSet → Database → Ended)
    (next : ResultSet → Meaning QueryResult)
    (goes : ∀ rows db state, shows t db.graphStore state → Sized hash (next rows) state →
      EndsAs hash shows t db (rest rows db) (next rows) state)
    (sized : Sized hash ((Meaning.reading (matchedRows query matching)).bind hash next) state) :
    EndsAs hash shows t db (matchRows (graphExecutors library) query t matching rest db)
      ((Meaning.reading (matchedRows query matching)).bind hash next) state := by
  have split : (Meaning.reading (matchedRows query matching)).bind hash next =
      (Meaning.reading (executeMatch matching)).bind hash fun rows =>
        (Meaning.optional query.whereClause
          (fun clause => .reading fun view => .ofExcept (applyWhere clause view rows)) rows).bind hash next := by
    funext state
    unfold Meaning.bind Meaning.reading matchedRows
    cases executeMatch matching state.view with
    | error e => rfl
    | thrown what => rfl
    | endless => rfl
    | value rows =>
      cases query.whereClause with
      | none => rfl
      | some clause =>
        simp only [Outcome.bind,Meaning.optional,run_nil,List.nil_append]
  rw [split] at sized ⊢
  refine attempt_means _ _ (reading_acts faithful _) _ _ (fun rows db state showing sized => ?_) db state showing sized
  exact optional_means _ _ _ (fun clause => reading_acts faithful _) rows rest next goes db state showing sized

theorem executeWrite_means (matching : MatchClause) (sized : Sized hash (writeMeaning hash query matching) state) :
    EndsAs hash shows t db (executeWrite (graphExecutors library) query t matching db)
      (writeMeaning hash query matching) state := by
  refine matchRows_means faithful library query db state showing matching _ _ (fun rows db state showing sized => ?_) sized
  refine optional_means _ _ _ (fun clause => set_acts faithful clause rows) _ _ _
    (fun written db state showing sized => ?_) db state showing sized
  exact optional_last _ _ _ (fun clause => delete_acts faithful clause rows) written db state showing sized

theorem executeRead_means (matching : MatchClause) (returning : ReturnClause)
    (sized : Sized hash (readMeaning hash library query matching returning) state) :
    EndsAs hash shows t db (executeRead (graphExecutors library) query t matching returning db)
      (readMeaning hash library query matching returning) state := by
  refine matchRows_means faithful library query db state showing matching _ _ (fun rows db state showing sized => ?_) sized
  refine attempt_means _ _ (reading_acts faithful _) _ _ (fun result db state showing sized => ?_) db state showing sized
  refine optional_means _ _ _ (fun clause => reading_acts faithful _) _ _ _
    (fun sorted db state showing sized => ?_) db state showing sized
  exact optional_last _ _ _ (fun clause => reading_acts faithful _) sorted db state showing sized

theorem executeOther_means (sized : Sized hash (otherMeaning hash query) state) :
    EndsAs hash shows t db (executeOther (graphExecutors library) query t db) (otherMeaning hash query) state := by
  unfold executeOther otherMeaning at *
  cases creates : query.createClause with
  | none => exact ⟨db,showing,rfl,fun _ => rfl⟩
  | some clause =>
    rw [creates] at sized
    exact attempt_last _ _ (create_acts faithful clause) db state showing sized

/-- The clauses of a query end as it means. -/
theorem executeBody_means (sized : Sized hash (queryMeaning hash library query) state) :
    EndsAs hash shows t db (executeBody (graphExecutors library) query t db) (queryMeaning hash library query) state := by
  unfold executeBody queryMeaning at *
  cases found : query.matchClause with
  | none =>
    rw [found] at sized
    exact executeOther_means faithful library query db state showing sized
  | some matching =>
    rw [found] at sized
    dsimp only at sized ⊢
    by_cases writes : query.setClause.isSome || query.deleteClause.isSome
    · simp only [if_pos writes] at sized ⊢
      exact executeWrite_means faithful library query db state showing matching sized
    · simp only [if_neg writes] at sized ⊢
      by_cases reads : query.isReadQuery
      · simp only [if_pos reads] at sized ⊢
        cases returns : query.returnClause with
        | none =>
          rw [returns] at sized
          exact executeOther_means faithful library query db state showing sized
        | some returning =>
          rw [returns] at sized
          exact executeRead_means faithful library query db state showing matching returning sized
      · simp only [if_neg reads] at sized ⊢
        exact executeOther_means faithful library query db state showing sized

end Bodies

end Refinement

end LoreDB.Query.Cypher
