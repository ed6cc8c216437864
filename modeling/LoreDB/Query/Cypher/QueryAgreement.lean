import LoreDB.Query.Cypher.GraphQueries

/-! Queries on two databases side by side. Where the calls of the clauses give equal results on
related graph stores and keep them related, so do whole queries, and sequences of queries. -/
namespace LoreDB.Query.Cypher
open LoreDB.Storage LoreDB.Transaction

/-- Two calls with equal results, which leave related states. -/
def Agree {ρ σ τ : Type} (related : σ → τ → Prop) (first : ρ × σ) (second : ρ × τ) : Prop :=
  first.1 = second.1 ∧ related first.2 second.2

/-- The reads and writes of transaction `t` in one store agree with those of `u` in the other. -/
structure Alike (related : Graph → Graph → Prop) (t u : Nat) : Prop where
  views : ∀ first second, related first second →
    ExecutionContext.view t first = ExecutionContext.view u second
  createNode : ∀ properties first second, related first second →
    Agree related (ExecutionContext.createNode t properties first)
      (ExecutionContext.createNode u properties second)
  updateNode : ∀ nodeId properties first second, related first second →
    Agree related (ExecutionContext.updateNode t nodeId properties first)
      (ExecutionContext.updateNode u nodeId properties second)
  deleteNode : ∀ nodeId first second, related first second →
    Agree related (ExecutionContext.deleteNode t nodeId first)
      (ExecutionContext.deleteNode u nodeId second)
  deleteEdge : ∀ edgeId first second, related first second →
    Agree related (ExecutionContext.deleteEdge t edgeId first)
      (ExecutionContext.deleteEdge u edgeId second)

section Clauses

variable {related : Graph → Graph → Prop}

theorem continued_agree {α β : Type} (done : β) (first second : Option (Except Error α) × Graph)
    (agree : Agree related first second) :
    Agree related (continued done first) (continued done second) := by
  obtain ⟨result,store⟩ := first
  obtain ⟨other,later⟩ := second
  obtain ⟨same,kept⟩ := agree
  cases same
  rcases result with _ | _ | _ <;> exact ⟨rfl,kept⟩

theorem counts_agree {α β : Type} (failed done : β) (first second : Option (Except Error α) × Graph)
    (agree : Agree related first second) :
    Agree related (counts failed done first) (counts failed done second) := by
  obtain ⟨result,store⟩ := first
  obtain ⟨other,later⟩ := second
  obtain ⟨same,kept⟩ := agree
  cases same
  rcases result with _ | _ | _ <;> exact ⟨rfl,kept⟩

theorem mapped_agree {α β : Type} (f : α → β) (first second : Outcome α × Graph)
    (agree : Agree related first second) :
    Agree related (first.1.map f,first.2) (second.1.map f,second.2) :=
  ⟨congrArg (Outcome.map f) agree.1,agree.2⟩

theorem forEach_agree {α β : Type} (step other : α → β → Graph → Outcome β × Graph)
    (agree : ∀ item total first second, related first second →
      Agree related (step item total first) (other item total second))
    (items : List α) (total : β) (first second : Graph) (start : related first second) :
    Agree related (forEach step items total first) (forEach other items total second) := by
  induction items generalizing total first second with
  | nil => exact ⟨rfl,start⟩
  | cons item rest ih =>
    obtain ⟨same,kept⟩ := agree item total first second start
    unfold forEach
    cases done : step item total first with
    | mk outcome next =>
      cases again : other item total second with
      | mk repeated later =>
        rw [done,again] at same kept
        cases same
        cases outcome with
        | value result => exact ih result next later kept
        | error e => exact ⟨rfl,kept⟩
        | thrown what => exact ⟨rfl,kept⟩
        | endless => exact ⟨rfl,kept⟩

variable {t u : Nat} (alike : Alike related t u)
include alike

theorem executeCreate_agree (clause : CreateClause) (first second : Graph)
    (start : related first second) :
    Agree related (executeCreate clause t first) (executeCreate clause u second) := by
  refine mapped_agree _ _ _ (forEach_agree _ _ (fun node created first second start => ?_) _ _ _ _ start)
  exact continued_agree _ _ _ (alike.createNode _ first second start)

theorem setRow_agree (clause : SetClause) (row : ResultRow) (updated : Nat) (first second : Graph)
    (start : related first second) :
    Agree related (setRow clause t row updated first) (setRow clause u row updated second) := by
  unfold setRow
  rw [alike.views first second start]
  split
  · split
    · exact ⟨rfl,start⟩
    · split
      · exact ⟨rfl,start⟩
      · exact continued_agree _ _ _ (alike.updateNode _ _ first second start)
  · exact ⟨rfl,start⟩

theorem executeSet_agree (clause : SetClause) (rows : ResultSet) (first second : Graph)
    (start : related first second) :
    Agree related (executeSet clause rows t first) (executeSet clause rows u second) :=
  mapped_agree _ _ _ (forEach_agree _ _ (setRow_agree alike clause) _ _ _ _ start)

theorem executeDelete_agree (clause : DeleteClause) (rows : ResultSet) (first second : Graph)
    (start : related first second) :
    Agree related (executeDelete clause rows t first) (executeDelete clause rows u second) := by
  refine mapped_agree _ _ _ (forEach_agree _ _ (fun bound deleted first second start => ?_) _ _ _ _ start)
  cases bound with
  | node nodeId => exact counts_agree _ _ _ _ (alike.deleteNode nodeId first second start)
  | edge edgeId => exact counts_agree _ _ _ _ (alike.deleteEdge edgeId first second start)
  | literal value => exact ⟨rfl,start⟩

end Clauses

/-- How two databases are related between queries, and while the transactions `t` and `u` run. Only
their graph stores matter. -/
structure Simulates (idle : Graph → Graph → Prop) (busy : Nat → Nat → Graph → Graph → Prop) : Prop where
  begins : ∀ d e : Database, idle d.graphStore e.graphStore →
    busy d.beginTransaction.1.id e.beginTransaction.1.id d.beginTransaction.2.graphStore
      e.beginTransaction.2.graphStore
  alike : ∀ t u, Alike (busy t u) t u
  commits : ∀ t u (d e : Database), busy t u d.graphStore e.graphStore →
    idle ((d.commitTransaction t).unlockAll t).graphStore ((e.commitTransaction u).unlockAll u).graphStore
  aborts : ∀ t u (d e : Database), busy t u d.graphStore e.graphStore →
    idle ((d.abortTransaction t).unlockAll t).graphStore ((e.abortTransaction u).unlockAll u).graphStore

section Queries

variable {idle : Graph → Graph → Prop} {busy : Nat → Nat → Graph → Graph → Prop}

/-- Equal results, and after queries that have returned related stores. -/
def EndAlike (idle : Graph → Graph → Prop) (first second : Ended) : Prop :=
  first.1 = second.1 ∧ (first.1.isSome = true → idle first.2.graphStore second.2.graphStore)

/-- Actions whose runs on busy databases agree. -/
def ActAlike {α : Type} (busy : Nat → Nat → Graph → Graph → Prop) (action : Action α) : Prop :=
  ∀ t u (d e : Database), busy t u d.graphStore e.graphStore →
    (action.run t d).1 = (action.run u e).1 ∧
      busy t u (action.run t d).2.graphStore (action.run u e).2.graphStore

structure ExecutorsAlike (busy : Nat → Nat → Graph → Graph → Prop) (executors : ClauseExecutors) :
    Prop where
  executeMatch : ∀ matching, ActAlike busy (executors.executeMatch matching)
  applyWhere : ∀ clause rows, ActAlike busy (executors.applyWhere clause rows)
  executeReturn : ∀ clause rows, ActAlike busy (executors.executeReturn clause rows)
  executeCreate : ∀ clause, ActAlike busy (executors.executeCreate clause)
  executeSet : ∀ clause rows, ActAlike busy (executors.executeSet clause rows)
  executeDelete : ∀ clause rows, ActAlike busy (executors.executeDelete clause rows)
  applyOrderBy : ∀ result clause, ActAlike busy (executors.applyOrderBy result clause)
  applyLimit : ∀ result clause, ActAlike busy (executors.applyLimit result clause)

variable (simulates : Simulates idle busy)
include simulates

theorem reading_alike {α : Type} (read : View → Outcome α) : ActAlike busy (.reading read) :=
  fun t u _ _ start => ⟨congrArg read ((simulates.alike t u).views _ _ start),start⟩

omit simulates in
theorem writing_alike {α : Type} (write : Nat → Graph → Outcome α × Graph)
    (keeps : ∀ txId store, tables (write txId store).2 = tables store)
    (agree : ∀ t u first second, busy t u first second →
      Agree (busy t u) (write t first) (write u second)) : ActAlike busy (.writing write keeps) :=
  fun t u d e start => agree t u d.graphStore e.graphStore start

theorem graphExecutors_alike (library : StandardLibrary) :
    ExecutorsAlike busy (graphExecutors library) where
  executeMatch _ := reading_alike simulates _
  applyWhere clause rows := reading_alike simulates fun view => .ofExcept (applyWhere clause view rows)
  executeReturn clause rows :=
    reading_alike simulates fun view => .ofExcept (executeReturn clause rows view)
  executeCreate clause := writing_alike (executeCreate clause) (executeCreate_tables clause)
    fun t u => executeCreate_agree (simulates.alike t u) clause
  executeSet clause rows := writing_alike (executeSet clause rows) (executeSet_tables clause rows)
    fun t u => executeSet_agree (simulates.alike t u) clause rows
  executeDelete clause rows := writing_alike (executeDelete clause rows) (executeDelete_tables clause rows)
    fun t u => executeDelete_agree (simulates.alike t u) clause rows
  applyOrderBy result clause :=
    reading_alike simulates fun _ => .value (applyOrderBy library result clause)
  applyLimit result clause := reading_alike simulates fun _ => applyLimit library result clause

theorem succeed_alike (t u : Nat) (result : QueryResult) (d e : Database)
    (start : busy t u d.graphStore e.graphStore) :
    EndAlike idle (succeed t result d) (succeed u result e) :=
  ⟨rfl,fun _ => simulates.commits t u d e start⟩

theorem fail_alike (t u : Nat) (error : Error) (d e : Database)
    (start : busy t u d.graphStore e.graphStore) : EndAlike idle (fail t error d) (fail u error e) :=
  ⟨rfl,fun _ => simulates.aborts t u d e start⟩

section Steps

variable {α γ : Type} (t u : Nat) (next other : α → Database → Ended)
  (rest : ∀ result d e, busy t u d.graphStore e.graphStore →
    EndAlike idle (next result d) (other result e))
  (d e : Database) (start : busy t u d.graphStore e.graphStore)
include rest start

theorem attempt_alike (action : Action α) (acts : ActAlike busy action) :
    EndAlike idle (attempt t action next d) (attempt u action other e) := by
  obtain ⟨same,kept⟩ := acts t u d e start
  unfold attempt
  cases done : action.run t d with
  | mk outcome later =>
    cases again : action.run u e with
    | mk repeated last =>
      rw [done,again] at same kept
      cases same
      cases outcome with
      | value result => exact rest result later last kept
      | error error => exact fail_alike simulates t u error later last kept
      | thrown what => exact fail_alike simulates t u _ later last kept
      | endless => exact ⟨rfl,fun absurd => nomatch absurd⟩

theorem attemptIf_alike (clause : Option γ) (action : γ → Action α)
    (acts : ∀ clause, ActAlike busy (action clause)) (otherwise : α) :
    EndAlike idle (attemptIf t clause action otherwise next d)
      (attemptIf u clause action otherwise other e) := by
  cases clause with
  | some clause => exact attempt_alike simulates t u next other rest d e start _ (acts clause)
  | none => exact rest otherwise d e start

end Steps

section Branches

variable {executors : ClauseExecutors} (acts : ExecutorsAlike busy executors) (query : Query)
  (t u : Nat) (d e : Database) (start : busy t u d.graphStore e.graphStore)
include acts start

theorem matchRows_alike (matching : MatchClause) (next other : ResultSet → Database → Ended)
    (rest : ∀ rows d e, busy t u d.graphStore e.graphStore →
      EndAlike idle (next rows d) (other rows e)) :
    EndAlike idle (matchRows executors query t matching next d)
      (matchRows executors query u matching other e) := by
  refine attempt_alike simulates t u _ _ (fun rows d e start => ?_) d e start _ (acts.executeMatch _)
  exact attemptIf_alike simulates t u next other rest d e start _ _ (fun _ => acts.applyWhere _ _) rows

theorem executeWrite_alike (matching : MatchClause) :
    EndAlike idle (executeWrite executors query t matching d)
      (executeWrite executors query u matching e) := by
  refine matchRows_alike simulates acts query t u d e start _ _ _ fun rows d e start => ?_
  refine attemptIf_alike simulates t u _ _ (fun written d e start => ?_) d e start _ _
    (fun _ => acts.executeSet _ _) _
  exact attemptIf_alike simulates t u _ _ (succeed_alike simulates t u) d e start _ _
    (fun _ => acts.executeDelete _ _) _

theorem executeRead_alike (matching : MatchClause) (returning : ReturnClause) :
    EndAlike idle (executeRead executors query t matching returning d)
      (executeRead executors query u matching returning e) := by
  refine matchRows_alike simulates acts query t u d e start _ _ _ fun rows d e start => ?_
  refine attempt_alike simulates t u _ _ (fun result d e start => ?_) d e start _
    (acts.executeReturn _ _)
  refine attemptIf_alike simulates t u _ _ (fun result d e start => ?_) d e start _ _
    (fun _ => acts.applyOrderBy _ _) _
  exact attemptIf_alike simulates t u _ _ (succeed_alike simulates t u) d e start _ _
    (fun _ => acts.applyLimit _ _) _

theorem executeOther_alike :
    EndAlike idle (executeOther executors query t d) (executeOther executors query u e) := by
  unfold executeOther
  cases query.createClause with
  | some clause =>
    exact attempt_alike simulates t u _ _ (succeed_alike simulates t u) d e start _
      (acts.executeCreate clause)
  | none => exact fail_alike simulates t u _ d e start

theorem executeBody_alike :
    EndAlike idle (executeBody executors query t d) (executeBody executors query u e) := by
  unfold executeBody
  split
  · exact executeOther_alike simulates acts query t u d e start
  · split
    · exact executeWrite_alike simulates acts query t u d e start _
    · split
      · split
        · exact executeRead_alike simulates acts query t u d e start _ _
        · exact executeOther_alike simulates acts query t u d e start
      · exact executeOther_alike simulates acts query t u d e start

end Branches

theorem executeQuery_alike (library : StandardLibrary) (query : Query) (d e : Database)
    (start : idle d.graphStore e.graphStore) :
    EndAlike idle (executeQuery (graphExecutors library) query d)
      (executeQuery (graphExecutors library) query e) :=
  executeBody_alike simulates (graphExecutors_alike simulates library) query _ _ _ _
    (simulates.begins d e start)

end Queries

/-- What a sequence of queries returns, up to the first one that does not come back. -/
def results (executors : ClauseExecutors) :
    List Query → Database → List (Option (Except Error QueryResult))
  | [], _ => []
  | query::rest, db =>
    let ended := executeQuery executors query db
    ended.1::if ended.1.isSome then results executors rest ended.2 else []

theorem results_alike {idle : Graph → Graph → Prop} {busy : Nat → Nat → Graph → Graph → Prop}
    (simulates : Simulates idle busy) (library : StandardLibrary) (queries : List Query)
    (d e : Database) (start : idle d.graphStore e.graphStore) :
    results (graphExecutors library) queries d = results (graphExecutors library) queries e := by
  induction queries generalizing d e with
  | nil => rfl
  | cons query rest ih =>
    obtain ⟨same,kept⟩ := executeQuery_alike simulates library query d e start
    simp only [results,← same]
    congr 1
    split
    · exact ih _ _ (kept (by assumption))
    · rfl

end LoreDB.Query.Cypher
