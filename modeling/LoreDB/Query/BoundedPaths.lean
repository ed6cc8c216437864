import LoreDB.Library.Trails
import LoreDB.Library.Walks
import LoreDB.Query.AdjacentNodes

/-! The enumeration of the simple paths up to a length. A call of the recursion adds the paths that go on
from the one it is given and leaves that path and the visited set as they were. -/
namespace LoreDB.Query.QueryExecutor
open LoreDB.Storage LoreDB.Library LoreDB.Library.History GraphStore GraphHistory Outlines Wiring

abbrev NodeTrail := Trail NodeId Unit

def leaving (store : GraphStore FilePageStore) (node : NodeId) : List (Unit × NodeId) :=
  (getAdjacentNodes node store).map fun next => ((),next)

/-- The paths to a node that go on from a trail with so many steps more. -/
def completions (store : GraphStore FilePageStore) (toNode : NodeId) (more : ℕ) (trail : NodeTrail) :
    List (List NodeId) :=
  ((trail.extensions (leaving store) more).filter fun other => other.last = toNode).map Trail.nodes

def stateOf (trail : NodeTrail) (paths : List (List NodeId)) : Paths where
  path := trail.nodes
  visited := trail.nodes.toFinset
  paths := paths

variable {store : GraphStore FilePageStore} {fromNode toNode : NodeId} {trail : NodeTrail}

theorem last_mem (trail : NodeTrail) : trail.last ∈ trail.nodes := List.getLast_mem _

/-- A path that has arrived does not come back to where it ends. -/
theorem completions_arrived (more : ℕ) (distinct : trail.nodes.Nodup) (arrived : trail.last = toNode) :
    completions store toNode more trail = [trail.nodes] := by
  cases more with
  | zero => simp [completions,Trail.extensions,arrived]
  | succ more =>
    have others : ((trail.longer (leaving store)).flatMap (Trail.extensions (leaving store) more)).filter
        (fun other => other.last = toNode) = [] := by
      refine List.filter_eq_nil_iff.mpr fun other member => ?_
      obtain ⟨next,grown,inside⟩ := List.mem_flatMap.mp member
      obtain ⟨step,-,fresh,rfl⟩ := (Trail.mem_longer trail next).mp grown
      have longer : (trail.snoc step).nodes.Nodup := by
        rw [Trail.snoc_nodes,← List.concat_eq_append]
        exact distinct.concat fresh
      obtain ⟨rest,rfl,-,-,nodup⟩ := (Trail.mem_extensions more _ _ longer).mp inside
      have later : (⟨(trail.snoc step).start,(trail.snoc step).steps ++ rest⟩ : NodeTrail).nodes =
          trail.nodes ++ step.2 :: rest.map Prod.snd := by
        simp [Trail.nodes]
      have ends : (⟨(trail.snoc step).start,(trail.snoc step).steps ++ rest⟩ : NodeTrail).last ∈
          step.2 :: rest.map Prod.snd := by
        simp only [Trail.last,later]
        rw [List.getLast_append_right (List.cons_ne_nil _ _)]
        exact List.getLast_mem _
      rw [later] at nodup
      intro again
      rw [decide_eq_true_eq,← arrived] at again
      exact List.disjoint_of_nodup_append nodup (last_mem trail) (again ▸ ends)
    simp [completions,Trail.extensions,arrived,others]

/-- What one neighbor of the end of a trail adds. -/
def gains (store : GraphStore FilePageStore) (toNode : NodeId) (more : ℕ) (trail : NodeTrail)
    (neighbor : NodeId) : List (List NodeId) :=
  if neighbor ∈ trail.nodes then [] else
    match more with
    | 0 => []
    | more + 1 => completions store toNode more (trail.snoc ((),neighbor))

theorem gains_known {neighbor : NodeId} (more : ℕ) (known : neighbor ∈ trail.nodes) :
    gains store toNode more trail neighbor = [] := by
  cases more <;> simp [gains,known]

theorem completions_neighbors (more : ℕ) (apart : trail.last ≠ toNode) :
    completions store toNode more trail =
      (getAdjacentNodes trail.last store).flatMap (gains store toNode more trail) := by
  cases more with
  | zero =>
    have none : gains store toNode 0 trail = fun _ => [] := by
      funext neighbor
      simp [gains]
    simp [completions,Trail.extensions,apart,none]
  | succ more =>
    have grown : completions store toNode (more + 1) trail =
        (trail.longer (leaving store)).flatMap (completions store toNode more) := by
      simp only [completions,Trail.extensions]
      rw [List.filter_cons_of_neg (by simpa using apart),List.filter_flatMap,List.map_flatMap]
      rfl
    rw [grown,Trail.longer,leaving,List.filter_map,List.flatMap_map,List.flatMap_map]
    induction getAdjacentNodes trail.last store with
    | nil => rfl
    | cons neighbor rest ih =>
      rw [List.flatMap_cons,gains,← ih,List.filter_cons]
      by_cases known : neighbor ∈ trail.nodes
      · simp [known]
      · simp [known]

/-- Each neighbor adds its own paths and leaves path and set as they were. -/
theorem foldlM_collects {step : Paths → NodeId → Option Paths} (gained : NodeId → List (List NodeId))
    (neighbors : List NodeId)
    (each : ∀ neighbor paths, step (stateOf trail paths) neighbor =
      some (stateOf trail (paths ++ gained neighbor))) (paths : List (List NodeId)) :
    neighbors.foldlM step (stateOf trail paths) =
      some (stateOf trail (paths ++ neighbors.flatMap gained)) := by
  induction neighbors generalizing paths with
  | nil => simp
  | cons neighbor rest ih =>
    rw [List.foldlM_cons,each]
    simp only [Option.bind_eq_bind,Option.bind_some,ih,List.flatMap_cons,List.append_assoc]

theorem restored (neighbor : NodeId) (paths : List (List NodeId)) (fresh : neighbor ∉ trail.nodes) :
    ({stateOf (trail.snoc ((),neighbor)) paths with
      path := (stateOf (trail.snoc ((),neighbor)) paths).path.dropLast
      visited := (stateOf (trail.snoc ((),neighbor)) paths).visited.erase neighbor} : Paths) =
        stateOf trail paths := by
  simp [stateOf,Finset.union_comm,fresh]

theorem entered (neighbor : NodeId) (paths : List (List NodeId)) :
    ({stateOf trail paths with
      visited := insert neighbor (stateOf trail paths).visited
      path := (stateOf trail paths).path ++ [neighbor]} : Paths) =
        stateOf (trail.snoc ((),neighbor)) paths := by
  simp [stateOf,Finset.union_comm]

theorem length_path (trail : NodeTrail) (paths : List (List NodeId)) :
    (stateOf trail paths).path.length = trail.steps.length + 1 := trail.length_nodes

theorem mem_visited (node : NodeId) (paths : List (List NodeId)) :
    node ∈ (stateOf trail paths).visited ↔ node ∈ trail.nodes := List.mem_toFinset

theorem arrived_far (away : trail.start ≠ toNode) (arrived : trail.last = toNode) :
    1 < trail.steps.length + 1 := by
  obtain ⟨start,steps⟩ := trail
  cases steps with
  | nil => exact absurd arrived away
  | cons step steps => simp

/-- A call whose path is too long returns at once. -/
theorem dfs_long (maxLength : UInt64) (rounds : ℕ) (trail : NodeTrail) (paths : List (List NodeId))
    (last : (maxLength + 1).toNat = maxLength.toNat + 1) (long : trail.steps.length = maxLength.toNat + 1) :
    dfs store toNode maxLength (rounds + 1) trail.last (stateOf trail paths) = some (stateOf trail paths) := by
  rw [dfs,if_pos]
  rw [length_path,last]
  omega

/-- What the calls for the neighbors add is what a call adds. -/
theorem dfs_call (maxLength : UInt64) (last : (maxLength + 1).toNat = maxLength.toNat + 1) (more rounds : ℕ)
    (away : trail.start ≠ toNode) (distinct : trail.nodes.Nodup)
    (left : trail.steps.length + more = maxLength.toNat)
    (each : ∀ neighbor ∉ trail.nodes, ∀ paths,
      dfs store toNode maxLength rounds neighbor (stateOf (trail.snoc ((),neighbor)) paths) =
        some (stateOf (trail.snoc ((),neighbor)) (paths ++ gains store toNode more trail neighbor)))
    (paths : List (List NodeId)) :
    dfs store toNode maxLength (rounds + 1) trail.last (stateOf trail paths) =
      some (stateOf trail (paths ++ completions store toNode more trail)) := by
  rw [dfs,if_neg (by rw [length_path,last]; omega),length_path]
  by_cases arrived : trail.last = toNode
  · rw [if_pos ⟨arrived,arrived_far away arrived⟩,completions_arrived more distinct arrived]
    rfl
  · rw [if_neg fun both => arrived both.1,completions_neighbors more arrived]
    apply foldlM_collects
    intro neighbor paths
    by_cases known : neighbor ∈ trail.nodes
    · rw [if_pos ((mem_visited neighbor paths).mpr known),gains_known more known,List.append_nil]
    · rw [if_neg (mt (mem_visited neighbor paths).mp known),entered,each neighbor known,Option.map_some,
        restored neighbor _ known]

theorem dfs_completes (maxLength : UInt64) (last : (maxLength + 1).toNat = maxLength.toNat + 1)
    (more rounds : ℕ) (trail : NodeTrail) (away : trail.start ≠ toNode) (distinct : trail.nodes.Nodup)
    (left : trail.steps.length + more = maxLength.toNat) (paths : List (List NodeId)) :
    dfs store toNode maxLength (rounds + more + 2) trail.last (stateOf trail paths) =
      some (stateOf trail (paths ++ completions store toNode more trail)) := by
  induction more generalizing trail paths with
  | zero =>
    refine dfs_call maxLength last 0 (rounds + 1) away distinct left (fun neighbor fresh paths => ?_) paths
    have long : dfs store toNode maxLength (rounds + 1) (trail.snoc ((),neighbor)).last _ = _ :=
      dfs_long maxLength rounds (trail.snoc ((),neighbor)) paths last (by simp; omega)
    rw [Trail.snoc_last] at long
    simp [long,gains]
  | succ more ih =>
    refine dfs_call maxLength last (more + 1) (rounds + more + 2) away distinct left
      (fun neighbor fresh paths => ?_) paths
    have longer : (trail.snoc ((),neighbor)).nodes.Nodup := by
      rw [Trail.snoc_nodes,← List.concat_eq_append]
      exact distinct.concat fresh
    have child := ih (trail.snoc ((),neighbor)) away longer (by simp; omega) paths
    rw [Trail.snoc_last] at child
    rw [child,gains,if_neg fresh]

/-- The simple paths from a node to another one with at most so many steps. -/
structure SimplePath (store : GraphStore FilePageStore) (fromNode toNode : NodeId) (maxLength : ℕ)
    (path : List NodeId) : Prop where
  walk : Walk (Joined store) fromNode toNode path
  simple : path.Nodup
  bounded : path.length ≤ maxLength + 1

theorem mem_completions (adjacent : ∀ node next, next ∈ getAdjacentNodes node store ↔ Joined store node next)
    (more : ℕ) (path : List NodeId) :
    path ∈ completions store toNode more ⟨fromNode,[]⟩ ↔ SimplePath store fromNode toNode more path := by
  have leads (start : NodeId) (steps : List (Unit × NodeId)) :
      Trail.Leads (fun node edge next => (edge,next) ∈ leaving store node) start steps ↔
        (start :: steps.map Prod.snd).IsChain (Joined store) := by
    rw [← Trail.leads_isChain (Joined store)]
    simp only [leaving,List.mem_map,adjacent,Prod.mk.injEq,true_and,exists_eq_right]
  have listed (other : NodeTrail) :
      other ∈ (⟨fromNode,[]⟩ : NodeTrail).extensions (leaving store) more ↔ _ :=
    Trail.mem_extensions more _ other (List.nodup_singleton fromNode)
  simp only [completions,List.mem_map,List.mem_filter,decide_eq_true_eq,listed]
  constructor
  · rintro ⟨_,⟨⟨steps,rfl,few,joined,nodup⟩,arrived⟩,rfl⟩
    refine ⟨⟨rfl,?_,(leads fromNode steps).mp joined⟩,nodup,?_⟩
    · rw [← arrived]
      exact List.getLast?_eq_some_getLast _
    · rw [Trail.length_nodes]
      exact Nat.succ_le_succ few
  · rintro ⟨walk,simple,bounded⟩
    cases path with
    | nil => exact absurd rfl walk.nonempty
    | cons start rest =>
      cases walk.starts
      have same : (⟨fromNode,rest.map fun next => ((),next)⟩ : NodeTrail).nodes = fromNode :: rest := by
        simp [Trail.nodes]
      refine ⟨⟨fromNode,rest.map fun next => ((),next)⟩,⟨⟨rest.map fun next => ((),next),rfl,?_,?_,?_⟩,?_⟩,
        same⟩
      · simpa using bounded
      · exact (leads fromNode _).mpr (by simpa using walk.joined)
      · exact same ▸ simple
      · have ends := walk.ends
        rw [← same,List.getLast?_eq_some_getLast (by simp [Trail.nodes])] at ends
        exact Option.some.inj ends

theorem nodup_completions (store : GraphStore FilePageStore) (toNode : NodeId) (more : ℕ) (trail : NodeTrail) :
    (completions store toNode more trail).Nodup := by
  refine List.Nodup.map Trail.nodes_injective ((Trail.nodup_extensions (fun node => ?_) more trail).filter _)
  exact (nodup_adjacent node store).map fun _ _ same => congrArg Prod.snd same

/-- The enumeration comes back with every simple path within the length, each once, in every store that
calls without wrapping id counters have made. -/
theorem bounded_paths (hash : Bytes → UInt64) (file : Bytes) (mvcc : Option Transaction.MVCCManager)
    (wal : Option WALManager) (calls : List Call)
    (last : Guarded (GraphHistory.step hash) CountersLast
      (started (FilePageStore.openFile file) mvcc wal) calls)
    (fromNode toNode : NodeId) (apart : fromNode ≠ toNode) (maxLength : UInt64)
    (unwrapped : maxLength.toNat < 2 ^ 64 - 1) :
    ∃ paths, (∃ enough, ∀ rounds ≥ enough, bfsPathsWithLength rounds fromNode toNode maxLength
        (after hash (started (FilePageStore.openFile file) mvcc wal) calls) = some paths) ∧
      paths.Nodup ∧ ∀ path, path ∈ paths ↔
        SimplePath (after hash (started (FilePageStore.openFile file) mvcc wal) calls) fromNode toNode
          maxLength.toNat path := by
  obtain ⟨ends,wired⟩ := after_wired hash _ calls last (started_wired file mvcc wal)
  generalize after hash (started (FilePageStore.openFile file) mvcc wal) calls = store at wired ⊢
  have next : (maxLength + 1).toNat = maxLength.toNat + 1 := by
    rw [UInt64.toNat_add,UInt64.toNat_one]
    exact Nat.mod_eq_of_lt (by omega)
  refine ⟨completions store toNode maxLength.toNat ⟨fromNode,[]⟩,⟨maxLength.toNat + 2,fun rounds enough => ?_⟩,
    nodup_completions store toNode maxLength.toNat ⟨fromNode,[]⟩,
    fun path => mem_completions (mem_adjacent wired) maxLength.toNat path⟩
  obtain ⟨rest,rfl⟩ := Nat.exists_eq_add_of_le' enough
  have complete : dfs store toNode maxLength (rest + maxLength.toNat + 2) fromNode _ = _ :=
    dfs_completes maxLength next maxLength.toNat rest ⟨fromNode,[]⟩ apart (List.nodup_singleton fromNode)
      (Nat.zero_add _) []
  exact congrArg (Option.map Paths.paths) complete

theorem bounded_paths_step :
    ∃ paths, (∃ enough, ∀ rounds ≥ enough, bfsPathsWithLength rounds 7 9 1 (after (fun _ => 0)
        (started (FilePageStore.openFile []) none none) [.plain (.createEdge 0 7 9 [] [])]) = some paths) ∧
      paths.Nodup ∧ ∀ path, path ∈ paths ↔ SimplePath (after (fun _ => 0)
        (started (FilePageStore.openFile []) none none) [.plain (.createEdge 0 7 9 [] [])]) 7 9 1 path := by
  have last : Guarded (GraphHistory.step fun _ => 0) CountersLast
      (started (FilePageStore.openFile []) none none) [.plain (.createEdge 0 7 9 [] [])] := by
    refine ⟨?_,trivial⟩
    rintro _ rfl
    decide
  exact bounded_paths (fun _ => 0) [] none none [.plain (.createEdge 0 7 9 [] [])] last 7 9 (by decide) 1
    (by decide)

end LoreDB.Query.QueryExecutor
