import LoreDB.Query.Cypher.FailedQueries
import LoreDB.Query.Cypher.QueryOperations

/-! What queries mean. On a property graph a query is a list of operations and a result: no pages, no
transactions and no locks. -/
namespace LoreDB.Query.Cypher
open LoreDB.Storage LoreDB.Storage.GraphHistory LoreDB.Storage.GraphRefinement LoreDB.Library.History

/-- A property graph and the number of nodes that scans go up to. Where the store keeps versions, a deleted node
stays on its page and goes on being counted. -/
structure QueryGraph where
  versions : Bool := false
  model : CountedGraph := {}
  count : UInt64 := 0

namespace QueryGraph

variable (hash : Bytes → UInt64)

def view (state : QueryGraph) : View := graphView state.model state.count

/-- Whether there has ever been a node of that id. -/
def Created (state : QueryGraph) (id : NodeId) : Prop := 0 < id ∧ id < state.model.nextNodeId

instance (state : QueryGraph) (id : NodeId) : Decidable (Created state id) := inferInstanceAs (Decidable (_ ∧ _))

/-- Without versions a deletion only asks for edges. -/
def answer (state : QueryGraph) (operation : Operation) : Except Error UInt64 :=
  match operation with
  | .deleteNode id =>
    if state.versions ∧ ¬Created state id then .error ⟨.notFound,"Node not found"⟩
    else state.model.answer operation
  | _ => state.model.answer operation

def perform (state : QueryGraph) (operation : Operation) : QueryGraph where
  versions := state.versions
  model := state.model.step hash operation
  count :=
    match operation, state.answer operation with
    | .createNode _, .ok _ => state.count + 1
    | .deleteNode _, .ok _ => if state.versions then state.count else state.count - 1
    | _, _ => state.count

/-- The record that an operation writes fits a page, and the counters do not wrap. -/
def Fits (state : QueryGraph) (operation : Operation) : Prop := Short state.model operation

instance (state : QueryGraph) (operation : Operation) : Decidable (Fits state operation) :=
  inferInstanceAs (Decidable (Short _ _))

end QueryGraph

/-- How a query or a clause ends, and the operations it has made by then. -/
structure Effect (α : Type) where
  outcome : Outcome α
  operations : List Operation := []

abbrev Meaning (α : Type) := QueryGraph → Effect α

namespace Meaning

variable {α β γ : Type} (hash : Bytes → UInt64)

def reading (read : View → Outcome α) : Meaning α := fun state => {outcome := read state.view}

/-- One after the other, if the first one does not fail. -/
def bind (first : Meaning α) (next : α → Meaning β) : Meaning β := fun state =>
  match first state with
  | ⟨.value result,made⟩ =>
    let rest := next result (run (QueryGraph.perform hash) state made)
    ⟨rest.outcome,made ++ rest.operations⟩
  | ⟨.error e,made⟩ => ⟨.error e,made⟩
  | ⟨.thrown what,made⟩ => ⟨.thrown what,made⟩
  | ⟨.endless,made⟩ => ⟨.endless,made⟩

def map (f : α → β) (meaning : Meaning α) : Meaning β := fun state =>
  ⟨(meaning state).outcome.map f,(meaning state).operations⟩

def optional (clause : Option γ) (meaning : γ → Meaning α) (otherwise : α) : Meaning α :=
  match clause with
  | some clause => meaning clause
  | none => fun _ => {outcome := .value otherwise}

/-- A loop that makes operations, left with the first item that fails. -/
def forEach (step : α → β → Meaning β) : List α → β → Meaning β
  | [], total => fun _ => {outcome := .value total}
  | item::rest, total => (step item total).bind hash (forEach step rest)

theorem forEach_cons (step : α → β → Meaning β) (item : α) (rest : List α) (total : β) :
    forEach hash step (item::rest) total = (step item total).bind hash (forEach hash step rest) := rfl

/-- One operation that the graph allows, and how it is counted. -/
def performing (operation : Operation) (next : Except Error UInt64 → β) : Meaning β := fun state =>
  ⟨.value (next (state.answer operation)),[operation]⟩

/-- No other operations are made. -/
def Confined (wanted : Operation → Prop) (meaning : Meaning α) : Prop :=
  ∀ state, ∀ operation ∈ (meaning state).operations, wanted operation

section Confined

variable {wanted : Operation → Prop}

theorem idle_confined (outcome : QueryGraph → Outcome α) : Confined wanted fun state => {outcome := outcome state} :=
  fun _ _ member => absurd member List.not_mem_nil

theorem performing_confined (operation : Operation) (next : Except Error UInt64 → β) (among : wanted operation) :
    Confined wanted (performing operation next) :=
  fun _ _ member => List.mem_singleton.mp member ▸ among

theorem bind_confined {first : Meaning α} {next : α → Meaning β} (began : Confined wanted first)
    (goes : ∀ result, Confined wanted (next result)) : Confined wanted (first.bind hash next) := by
  intro state operation member
  have before := began state operation
  unfold Meaning.bind at member
  split at member
  · rename_i result made same
    rw [same] at before
    rcases List.mem_append.mp member with first | second
    · exact before first
    · exact goes result _ operation second
  · rename_i e made same
    rw [same] at before
    exact before member
  · rename_i what made same
    rw [same] at before
    exact before member
  · rename_i made same
    rw [same] at before
    exact before member

theorem map_confined (f : α → β) {meaning : Meaning α} (confined : Confined wanted meaning) :
    Confined wanted (meaning.map f) := confined

theorem optional_confined (clause : Option γ) {meaning : γ → Meaning α} (otherwise : α)
    (confined : ∀ clause, Confined wanted (meaning clause)) : Confined wanted (optional clause meaning otherwise) := by
  cases clause with
  | some clause => exact confined clause
  | none => exact idle_confined fun _ => .value otherwise

theorem forEach_confined {step : α → β → Meaning β} (steps : ∀ item total, Confined wanted (step item total))
    (items : List α) (total : β) : Confined wanted (forEach hash step items total) := by
  induction items generalizing total with
  | nil => exact idle_confined fun _ => .value total
  | cons item rest ih => exact bind_confined hash (steps item total) ih

end Confined

end Meaning

section Clauses

variable (hash : Bytes → UInt64)

def createMeaning (clause : CreateClause) : Meaning QueryResult :=
  (Meaning.forEach hash (fun node created => .performing (createOperation node) fun _ => created + 1)
      (clause.patterns.flatMap Pattern.nodes) 0).map fun created =>
    counted ["created_nodes","created_edges"] [created,(clause.patterns.flatMap Pattern.edges).length]

/-- A row that names a node of the graph gives it the value. -/
def setRowMeaning (clause : SetClause) (row : ResultRow) (updated : Nat) : Meaning Nat := fun state =>
  match row.bindings clause.variableName with
  | some (.node id) =>
    match evaluateExpression row.bindings state.view clause.value with
    | .error e => {outcome := .error e}
    | .ok value =>
      match state.model.graph.nodes id with
      | none => {outcome := .value updated}
      | some properties => ⟨.value (updated + 1),[.updateNode id (setProperty clause.property value properties)]⟩
  | _ => {outcome := .value updated}

def setMeaning (clause : SetClause) (rows : ResultSet) : Meaning QueryResult :=
  (Meaning.forEach hash (setRowMeaning clause) rows 0).map fun updated => counted ["updated_nodes"] [updated]

/-- Deletions that the graph refuses are passed over. -/
def deleteBoundMeaning (bound : VariableBinding) (deleted : Nat × Nat) : Meaning (Nat × Nat) :=
  match bound with
  | .node id => .performing (.deleteNode id) fun answer =>
    if answer.toOption.isSome then (deleted.1 + 1,deleted.2) else deleted
  | .edge id => .performing (.deleteEdge id) fun answer =>
    if answer.toOption.isSome then (deleted.1,deleted.2 + 1) else deleted
  | .literal _ => fun _ => {outcome := .value deleted}

def deleteMeaning (clause : DeleteClause) (rows : ResultSet) : Meaning QueryResult :=
  (Meaning.forEach hash deleteBoundMeaning (rows.flatMap fun row => clause.variableNames.filterMap row.bindings)
      (0,0)).map fun deleted => counted ["deleted_nodes","deleted_edges"] [deleted.1,deleted.2]

end Clauses

section Queries

variable (hash : Bytes → UInt64) (library : StandardLibrary) (query : Query)

def writeMeaning (matching : MatchClause) : Meaning QueryResult :=
  (Meaning.reading (matchedRows query matching)).bind hash fun rows =>
    (Meaning.optional query.setClause (fun clause => setMeaning hash clause rows)
      {columns := [ascii "updated_nodes"]}).bind hash
      (Meaning.optional query.deleteClause fun clause => deleteMeaning hash clause rows)

def readMeaning (matching : MatchClause) (returning : ReturnClause) : Meaning QueryResult :=
  (Meaning.reading (matchedRows query matching)).bind hash fun rows =>
    (Meaning.reading fun view => .ofExcept (executeReturn returning rows view)).bind hash fun result =>
      (Meaning.optional query.orderBy (fun clause => .reading fun _ => .value (applyOrderBy library result clause))
        result).bind hash fun result =>
        Meaning.optional query.limitClause (fun clause => .reading fun _ => applyLimit library result clause) result

def otherMeaning : Meaning QueryResult :=
  match query.createClause with
  | some clause => createMeaning hash clause
  | none => fun _ => {outcome := .error ⟨.invalidArgument,"Unsupported query type"⟩}

/-- What a query means on a property graph. -/
def queryMeaning : Meaning QueryResult :=
  match query.matchClause with
  | none => otherMeaning hash query
  | some matching =>
    if query.setClause.isSome || query.deleteClause.isSome then writeMeaning hash query matching
    else if query.isReadQuery then
      match query.returnClause with
      | some returning => readMeaning hash library query matching returning
      | none => otherMeaning hash query
    else otherMeaning hash query

end Queries

/-- What a query returns. Exceptions come back as errors. -/
def returned : Outcome QueryResult → Option (Except Error QueryResult)
  | .value result => some (.ok result)
  | .error e => some (.error e)
  | .thrown what => some (.error ⟨.invalidArgument,"Query execution error: " ++ what⟩)
  | .endless => none

end LoreDB.Query.Cypher
