import LoreDB.Query.Cypher.Clauses
import LoreDB.Query.Cypher.CompleteScans
import LoreDB.Query.Cypher.FailedQueries

/-! Plans that scan and filter. Nothing asks for a plan yet; what one would return is compared with what the executor
makes of the same clauses. -/
namespace LoreDB.Query
open LoreDB.Library.History LoreDB.Storage LoreDB.Storage.CountedNodes Cypher

inductive PhysicalOperator where
  | scan (variableName : Bytes) (label : Option Bytes)
  | filter (input : PhysicalOperator) (predicate : Expression)

/-- A row for each node. -/
def rowsOf (name : Bytes) (nodeIds : List NodeId) : ResultSet :=
  nodeIds.map fun nodeId => ResultRow.bind name (.node nodeId) {}

namespace PhysicalOperator

/-- The name that the rows of a plan bind; they bind no other. -/
def variableName : PhysicalOperator → Bytes
  | .scan name _ => name
  | .filter input _ => input.variableName

/-- The first hundred ids are tried, whatever the label. -/
def scanned (view : View) : List NodeId :=
  ((List.range 100).map fun i => UInt64.ofNat (i + 1)).filter fun nodeId => (view.node nodeId).isSome

def filterRows (predicate : Expression) (view : View) : ResultSet → Except Error ResultSet
  | [] => .ok []
  | row::rows =>
    match evaluateBooleanExpression row.bindings view predicate with
    | .error e => .error e
    | .ok true => (filterRows predicate view rows).map (row::·)
    | .ok false => filterRows predicate view rows

def execute (view : View) : PhysicalOperator → Except Error ResultSet
  | .scan name _ => .ok (rowsOf name (scanned view))
  | .filter input predicate =>
    match execute view input with
    | .error e => .error e
    | .ok rows => filterRows predicate view rows

end PhysicalOperator

structure ExecutionPlan where
  root : PhysicalOperator

/-- The ids of the nodes that the rows bind to a name. -/
def boundIds (name : Bytes) (rows : ResultSet) : QueryResult where
  columns := [ascii "_id"]
  rows := rows.filterMap fun row =>
    match row.bindings name with
    | some (.node nodeId) => some [toText nodeId.toNat]
    | _ => none

def ExecutionPlan.execute (plan : ExecutionPlan) (view : View) : Except Error QueryResult :=
  (plan.root.execute view).map (boundIds plan.root.variableName)

namespace Planner

def planMatch (matching : MatchClause) : Option PhysicalOperator :=
  match matching.patterns with
  | [] => none
  | pattern::_ =>
    match pattern.nodes with
    | [] => none
    | node::_ => some (.scan (node.variableName.getD []) node.labels.head?)

def createPlan (query : Cypher.Query) : Option ExecutionPlan :=
  (query.matchClause.bind planMatch).map fun operator =>
    match query.whereClause with
    | some clause => ⟨.filter operator clause.condition⟩
    | none => ⟨operator⟩

end Planner

section Agreement

variable {view : View}

theorem filterRows_where (predicate : Expression) (rows : ResultSet) :
    PhysicalOperator.filterRows predicate view rows = applyWhere ⟨predicate⟩ view rows := by
  induction rows with
  | nil => rfl
  | cons row rows ih =>
    rw [PhysicalOperator.filterRows,applyWhere]
    cases evaluateBooleanExpression row.bindings view predicate with
    | error e => rfl
    | ok kept =>
      cases kept with
      | true =>
        dsimp only
        rw [ih]
        rfl
      | false =>
        dsimp only
        rw [ih]
        cases applyWhere ⟨predicate⟩ view rows <;> rfl

/-- What holds only below two bounds is found below either one. -/
theorem filter_range (holds : ℕ → Bool) (m n : ℕ) (bounded : ∀ i, holds i = true → i < m ∧ i < n) :
    (List.range m).filter holds = (List.range n).filter holds := by
  have shorter (m n : ℕ) (bounded : ∀ i, holds i = true → i < m) (le : m ≤ n) :
      (List.range m).filter holds = (List.range n).filter holds := by
    obtain ⟨more,rfl⟩ := Nat.exists_eq_add_of_le le
    rw [List.range_add,List.filter_append]
    have none : ((List.range more).map (m + ·)).filter holds = [] := by
      refine List.filter_eq_nil_iff.mpr fun i member held => ?_
      obtain ⟨j,_,rfl⟩ := List.mem_map.mp member
      exact absurd (bounded _ held) (Nat.not_lt.mpr (Nat.le_add_right m j))
    rw [none,List.append_nil]
  rcases Nat.le_total m n with le | le
  · exact shorter m n (fun i held => (bounded i held).1) le
  · exact (shorter n m (fun i held => (bounded i held).2) le).symm

def firstHundred (nodeId : NodeId) : Bool := nodeId.toNat ≤ 100

/-- Where a scan by the count misses no node, the ids that a plan tries are those of it up to 100. -/
theorem scanned_first (finds : FindsAll {} view) :
    PhysicalOperator.scanned view = (scannedIds {} view).filter firstHundred := by
  have counted := ((finds_iff {} view).mp finds).2
  have bound := view.nodeCount.toNat_lt
  have visible (nodeId : NodeId) : matchesNodePattern {} nodeId view = (view.node nodeId).isSome := by
    unfold matchesNodePattern
    cases view.node nodeId <;> rfl
  have small (i : ℕ) (below : i < 100) : (UInt64.ofNat (i + 1)).toNat = i + 1 := by
    rw [UInt64.toNat_ofNat',Nat.mod_eq_of_lt (by omega)]
  let seen (i : ℕ) : Bool := (view.node (UInt64.ofNat (i + 1))).isSome && (decide (i < 100) && decide (i < view.nodeCount.toNat))
  have tried : (List.range 100).filter (fun i => (view.node (UInt64.ofNat (i + 1))).isSome) =
      (List.range 100).filter seen := by
    refine List.filter_congr fun i member => ?_
    rw [List.mem_range] at member
    cases found : view.node (UInt64.ofNat (i + 1)) with
    | none => simp only [seen,found,Option.isSome_none,Bool.false_and]
    | some record =>
      have below := (counted _ ⟨record,found,rfl⟩).2
      rw [small i member] at below
      simp only [seen,found,Option.isSome_some,Bool.true_and,decide_eq_true member,
        decide_eq_true (Nat.lt_of_succ_le below)]
  have scanned : (List.range view.nodeCount.toNat).filter (fun i =>
        (view.node (UInt64.ofNat (i + 1))).isSome && firstHundred (UInt64.ofNat (i + 1))) =
      (List.range view.nodeCount.toNat).filter seen := by
    refine List.filter_congr fun i member => ?_
    rw [List.mem_range] at member
    simp only [seen,firstHundred,counted_toNat i member,decide_eq_true member,Bool.and_true]
    rfl
  rw [PhysicalOperator.scanned,scannedIds,List.filter_map,List.filter_filter,List.filter_map]
  simp only [Function.comp_def,visible]
  rw [tried,filter_range seen 100 view.nodeCount.toNat (by simp [seen]),← scanned]
  simp only [Bool.and_comm]

end Agreement

/-- In every state in which the scan of all nodes misses none, a plan returns the nodes that MATCH and WHERE let
through, as far as their ids go up to 100. -/
theorem plan_agrees (txId : Nat) (store : Graph) (finds : FindsAll {} (ExecutionContext.view txId store))
    (query : Cypher.Query) (matching : MatchClause) (pattern : Pattern) (others : List Pattern) (node : Node)
    (name : Bytes) (asked : query.matchClause = some matching) (first : matching.patterns = pattern::others)
    (single : pattern.nodes = [node]) (named : node.variableName = some name) (unconstrained : node.properties = ∅) :
    let view := ExecutionContext.view txId store
    ∃ ids plan, executeMatch matching view = .value (rowsOf name ids) ∧ Planner.createPlan query = some plan ∧
      plan.execute view = ((query.whereClause.elim .ok fun clause => applyWhere clause view)
        (rowsOf name (ids.filter firstHundred))).map (boundIds name) := by
  intro view
  have passes := ((finds_iff {} view).mp finds).1
  have same : scannedIds node view = scannedIds {} view := by
    unfold scannedIds matchesNodePattern
    rw [unconstrained]
  have planned : Planner.planMatch matching = some (.scan name node.labels.head?) := by
    simp only [Planner.planMatch,first,single,named,Option.getD_some]
  have tried : PhysicalOperator.execute view (.scan name node.labels.head?) =
      .ok (rowsOf name ((scannedIds node view).filter firstHundred)) := by
    rw [PhysicalOperator.execute,scanned_first finds,same]
  have matched : executeMatch matching view = .value (rowsOf name (scannedIds node view)) := by
    simp only [executeMatch,first,matchPattern,single,matchNode,scan_ends node passes,named]
    rfl
  cases clause : query.whereClause with
  | none =>
    refine ⟨_,⟨.scan name node.labels.head?⟩,matched,?_,?_⟩
    · simp only [Planner.createPlan,asked,Option.bind_some,planned,Option.map_some,clause]
    · rw [ExecutionPlan.execute,tried]
      rfl
  | some clause' =>
    refine ⟨_,⟨.filter (.scan name node.labels.head?) clause'.condition⟩,matched,?_,?_⟩
    · simp only [Planner.createPlan,asked,Option.bind_some,planned,Option.map_some,clause]
    · rw [ExecutionPlan.execute,PhysicalOperator.execute,tried]
      dsimp only
      rw [filterRows_where]
      rfl

theorem plan_agrees_one :
    let view := ExecutionContext.view 1 (run (GraphHistory.step fun _ => 0)
      (startedWith (.openFile []) false none) [.plain (.createNode [])])
    ∃ ids plan, executeMatch everyNode view = .value (rowsOf (ascii "m") ids) ∧
      Planner.createPlan {matchClause := some everyNode} = some plan ∧
      plan.execute view = .ok (boundIds (ascii "m") (rowsOf (ascii "m") (ids.filter firstHundred))) := by
  intro view
  have counted : Guarded (GraphHistory.step fun _ => 0) Counted (startedWith (.openFile []) false none)
      [.plain (.createNode [])] := by
    refine ⟨?_,trivial⟩
    rintro _ rfl -
    exact ⟨⟨by decide,by decide⟩,by decide⟩
  exact plan_agrees 1 _ (counted_finds (fun _ => 0) (.openFile []) false none _ counted 1 {})
    {matchClause := some everyNode} everyNode _ [] {variableName := some (ascii "m")} _ rfl rfl rfl rfl rfl

end LoreDB.Query
