import LoreDB.Query.Cypher.FixedPatterns

/-! Patterns of one directed edge of many hops. The search takes paths of nodes from a queue; the
trails that they stand for are those that visit no node twice, each once, however many edges run side
by side. -/
namespace LoreDB.Query.Cypher
open LoreDB.Storage LoreDB.Library LoreDB.Library.History LoreDB.Storage.GraphHistory
  LoreDB.Storage.Outlines

/-- The edges of a pattern that leave a node, each with the node it leads to. -/
def leaving (edge : Edge) (view : View) (fromNode : NodeId) : List (EdgeId × NodeId) :=
  (findEdgesByPattern edge fromNode 0 view).filterMap fun edgeId =>
    (view.edge edgeId).map fun found => (edgeId,found.1.toNode)

section Edges

variable {view : View}

theorem mem_leaving (edge : Edge) (directed : edge.directed = true) (fromNode : NodeId)
    (step : EdgeId × NodeId) :
    step ∈ leaving edge view fromNode ↔ Step view edge fromNode step.1 step.2 := by
  rw [leaving,List.mem_filterMap]
  constructor
  · rintro ⟨edgeId,leaves,reached⟩
    obtain ⟨found,read,rfl⟩ := Option.map_eq_some_iff.mp reached
    obtain ⟨listed,other,read',edgeMatches⟩ := (mem_findEdges edge fromNode edgeId directed).mp leaves
    obtain rfl := Option.some.inj (read.symm.trans read')
    exact ⟨listed,found,read,rfl,edgeMatches⟩
  · obtain ⟨edgeId,toNode⟩ := step
    rintro ⟨listed,found,read,rfl,edgeMatches⟩
    exact ⟨edgeId,(mem_findEdges edge fromNode edgeId directed).mpr ⟨listed,found,read,edgeMatches⟩,
      by rw [read]; rfl⟩

theorem nodup_leaving (edge : Edge) (directed : edge.directed = true)
    (listed : ∀ node, (view.outgoingEdges node).Nodup) (fromNode : NodeId) :
    (leaving edge view fromNode).Nodup := by
  refine (nodup_findEdges edge fromNode directed listed).filterMap fun e e' step here there => ?_
  obtain ⟨_,-,rfl⟩ := Option.map_eq_some_iff.mp here
  obtain ⟨_,-,same⟩ := Option.map_eq_some_iff.mp there
  exact (congrArg Prod.fst same).symm

/-! The queue. -/

theorem last_path (trail : Trail NodeId EdgeId) : trail.nodes.getLastD 0 = trail.last := by
  rw [Trail.last,List.getLastD_eq_getLast?,List.getLast?_eq_some_getLast (by simp [Trail.nodes])]
  rfl

theorem neighborPaths_longer (edge : Edge) (trail : Trail NodeId EdgeId) :
    neighborPaths edge trail.nodes view = (trail.longer (leaving edge view)).map Trail.nodes := by
  rw [neighborPaths,Trail.longer,leaving,last_path,List.map_map,List.filter_filterMap,List.map_filterMap]
  refine List.filterMap_congr fun edgeId _ => ?_
  cases view.edge edgeId with
  | none => rfl
  | some found =>
    by_cases visited : found.1.toNode ∈ trail.nodes
    · simp [visited]
    · simp [visited]

end Edges

section Search

variable (fromNode toNode : Node) (edge : Edge) (view : View)

def rowOfEnds (trail : Trail NodeId EdgeId) : ResultRow :=
  (ResultRow.bindNamed fromNode.variableName (.node trail.start) {}).bindNamed toNode.variableName
    (.node trail.last)

def found (trail : Trail NodeId EdgeId) : Bool :=
  decide (hopBound edge.minHops ≤ trail.steps.length) && matchesNodePattern toNode trail.last view

/-- What a trail in the queue grows into. -/
def grown (trail : Trail NodeId EdgeId) : List (Trail NodeId EdgeId) :=
  if trail.steps.length ≤ mostHops edge then
    trail.extensions (leaving edge view) (mostHops edge - trail.steps.length)
  else []

def rowsOf (trails : List (Trail NodeId EdgeId)) : ResultSet :=
  ((trails.flatMap (grown edge view)).filter (found toNode edge view)).map (rowOfEnds fromNode toNode)

theorem rowsOf_append (trails more : List (Trail NodeId EdgeId)) :
    rowsOf fromNode toNode edge view (trails ++ more) =
      rowsOf fromNode toNode edge view trails ++ rowsOf fromNode toNode edge view more := by
  simp [rowsOf]

theorem rowsOf_cons (trail : Trail NodeId EdgeId) (trails : List (Trail NodeId EdgeId)) :
    rowsOf fromNode toNode edge view (trail :: trails) =
      ((grown edge view trail).filter (found toNode edge view)).map (rowOfEnds fromNode toNode) ++
        rowsOf fromNode toNode edge view trails := by
  simp [rowsOf]

theorem grown_longer (trail : Trail NodeId EdgeId) (room : trail.steps.length < mostHops edge) :
    grown edge view trail = trail :: (trail.longer (leaving edge view)).flatMap (grown edge view) := by
  have more : mostHops edge - trail.steps.length = mostHops edge - (trail.steps.length + 1) + 1 := by omega
  rw [grown,if_pos (Nat.le_of_lt room),more,Trail.extensions]
  refine congrArg _ (List.flatMap_congr fun next member => ?_)
  obtain ⟨step,-,-,rfl⟩ := (Trail.mem_longer trail next).mp member
  have length : (trail.snoc step).steps.length = trail.steps.length + 1 := by simp
  rw [grown,length,if_pos (Nat.succ_le_of_lt room)]

theorem grown_full (trail : Trail NodeId EdgeId) (full : trail.steps.length = mostHops edge) :
    grown edge view trail = [trail] := by
  rw [grown,if_pos (Nat.le_of_eq full),full,Nat.sub_self]
  rfl

theorem grown_beyond (trail : Trail NodeId EdgeId) (beyond : mostHops edge < trail.steps.length) :
    grown edge view trail = [] := by
  rw [grown,if_neg (Nat.not_le_of_lt beyond)]

theorem grown_start (start : NodeId) : grown edge view ⟨start,[]⟩ =
    Trail.extensions (leaving edge view) (mostHops edge) ⟨start,[]⟩ :=
  if_pos (Nat.zero_le (mostHops edge))

/-- The row that the search gives for a path at the head of the queue. -/
theorem own_row (trail : Trail NodeId EdgeId) :
    (if hopBound edge.minHops ≤ trail.nodes.length - 1 ∧
        matchesNodePattern toNode (trail.nodes.getLastD 0) view = true then
      [(ResultRow.bindNamed fromNode.variableName (.node trail.start) {}).bindNamed toNode.variableName
        (.node (trail.nodes.getLastD 0))] else []) =
      ([trail].filter (found toNode edge view)).map (rowOfEnds fromNode toNode) := by
  rw [last_path,Trail.length_nodes,Nat.add_sub_cancel,List.filter_singleton]
  by_cases here : found toNode edge view trail = true
  · have both := here
    rw [found,Bool.and_eq_true,decide_eq_true_iff] at both
    rw [if_pos both,here]
    rfl
  · have neither := here
    rw [found,Bool.and_eq_true,decide_eq_true_iff] at neither
    rw [if_neg neither,Bool.eq_false_iff.mpr here]
    rfl

/-- On the search. A path leaves the queue with its own row, and the neighbors put behind the others
stand for all that it grows into. -/
theorem searchPaths_rows (start : NodeId) (queue : List (List NodeId))
    (trails : List (Trail NodeId EdgeId)) (paths : queue = trails.map Trail.nodes)
    (starts : ∀ trail ∈ trails, trail.start = start) :
    (searchPaths fromNode toNode edge start view queue).Perm (rowsOf fromNode toNode edge view trails) := by
  fun_induction searchPaths fromNode toNode edge start view queue generalizing trails with
  | case1 =>
    obtain rfl := List.map_eq_nil_iff.mp paths.symm
    exact .refl _
  | case2 path queue hops beyond ih =>
    obtain ⟨trail,trails,rfl,rfl,rfl⟩ := List.map_eq_cons_iff.mp paths.symm
    rw [rowsOf_cons,grown_beyond]
    · exact ih trails rfl fun other among => starts other (.tail _ among)
    · simpa [hops,Trail.length_nodes] using beyond
  | case3 path queue hops last row own within room ih =>
    obtain ⟨trail,trails,rfl,rfl,rfl⟩ := List.map_eq_cons_iff.mp paths.symm
    obtain rfl := starts trail (.head _)
    have short : trail.steps.length < mostHops edge := by
      simpa [hops,Trail.length_nodes] using room
    have later := ih (trails ++ trail.longer (leaving edge view))
      (by rw [List.map_append,neighborPaths_longer]) fun other among => by
        rcases List.mem_append.mp among with among | among
        · exact starts other (.tail _ among)
        · obtain ⟨step,-,-,rfl⟩ := (Trail.mem_longer trail other).mp among
          rfl
    rw [rowsOf_append] at later
    rw [rowsOf_cons,grown_longer edge view trail short,← List.singleton_append,List.filter_append,
      List.map_append,List.append_assoc]
    exact (List.Perm.of_eq (own_row fromNode toNode edge view trail)).append
      (later.trans List.perm_append_comm)
  | case4 path queue hops last row own within full ih =>
    obtain ⟨trail,trails,rfl,rfl,rfl⟩ := List.map_eq_cons_iff.mp paths.symm
    obtain rfl := starts trail (.head _)
    rw [rowsOf_cons,grown_full]
    · exact (List.Perm.of_eq (own_row fromNode toNode edge view trail)).append
        (ih trails rfl fun other among => starts other (.tail _ among))
    · simp only [hops,Trail.length_nodes,Nat.add_sub_cancel] at within full
      omega

end Search

/-! The whole pattern. -/

theorem hopBound_toInt (hops : Int32) (positive : 0 ≤ hops) : (hopBound hops : ℤ) = hops.toInt := by
  have positive' : 0 ≤ hops.toInt := Int32.le_iff_toInt_le.mp positive
  have wide : 0 ≤ hops.toInt64 := by
    rw [Int64.le_iff_toInt_le,Int32.toInt_toInt64]
    exact positive'
  rw [hopBound,Int64.toNat_toUInt64_of_le wide,Int32.toNatClampNeg_toInt64,Int32.toNatClampNeg]
  exact Int.toNat_of_nonneg positive'

/-- Of how many hops a path of a pattern may be. -/
structure Allowed (edge : Edge) (hops : ℕ) : Prop where
  least : edge.minHops.toInt ≤ hops
  most : (hops : ℤ) ≤ if edge.maxHops = -1 then 10 else edge.maxHops.toInt

structure SimplePath (view : View) (fromNode : Node) (edge : Edge) (toNode : Node)
    (trail : Trail NodeId EdgeId) : Prop where
  starts : ∃ ids, findNodesByPattern fromNode view = .value ids ∧ trail.start ∈ ids
  leads : Trail.Leads (Step view edge) trail.start trail.steps
  distinct : trail.nodes.Nodup
  hops : Allowed edge trail.steps.length
  ends : matchesNodePattern toNode trail.last view = true

/-- The search returns, and its rows are those of the simple paths, one for each. -/
def EnumeratesPaths (view : View) (fromNode : Node) (edge : Edge) (toNode : Node) : Prop :=
  ∃ trails rows, matchVariableLengthPath fromNode edge toNode view = .value rows ∧ trails.Nodup ∧
    (∀ trail, trail ∈ trails ↔ SimplePath view fromNode edge toNode trail) ∧
    List.Forall₂ (fun trail row => Binds [(fromNode,trail.start),(toNode,trail.last)] [] row) trails rows

/-- A directed edge of many hops between nodes with two names. -/
structure ManyHops (fromNode : Node) (edge : Edge) (toNode : Node) : Prop where
  directed : edge.directed = true
  least : 0 ≤ edge.minHops
  most : 0 ≤ edge.maxHops ∨ edge.maxHops = -1
  fromNamed : fromNode.variableName ≠ none
  toNamed : toNode.variableName ≠ none
  apart : fromNode.variableName ≠ toNode.variableName

section Whole

variable {view : View} {fromNode toNode : Node} {edge : Edge}

theorem mostHops_toInt (hops : ManyHops fromNode edge toNode) :
    (mostHops edge : ℤ) = if edge.maxHops = -1 then 10 else edge.maxHops.toInt := by
  rw [mostHops]
  split
  · rfl
  · exact hopBound_toInt _ (hops.most.resolve_right (by assumption))

theorem row_binds (hops : ManyHops fromNode edge toNode) (trail : Trail NodeId EdgeId) :
    Binds [(fromNode,trail.start),(toNode,trail.last)] [] (rowOfEnds fromNode toNode trail) := by
  obtain ⟨a,first⟩ := Option.ne_none_iff_exists'.mp hops.fromNamed
  obtain ⟨b,second⟩ := Option.ne_none_iff_exists'.mp hops.toNamed
  have apart : b ≠ a := by
    rintro rfl
    exact hops.apart (first.trans second.symm)
  have empty : Binds [] [] {} := fun name bound => by simp
  have one := binds_new fromNode trail.start a empty first rfl
  have two := binds_new toNode trail.last b one second (by
    simp only [ResultRow.bind,Function.update_of_ne apart])
  rw [rowOfEnds,first,second]
  exact two

def simplePaths (view : View) (fromNode toNode : Node) (edge : Edge) : List (Trail NodeId EdgeId) :=
  (scannedIds fromNode view).flatMap fun start =>
    (grown edge view ⟨start,[]⟩).filter (found toNode edge view)

theorem mem_grown (hops : ManyHops fromNode edge toNode) (start : NodeId) (trail : Trail NodeId EdgeId) :
    trail ∈ grown edge view ⟨start,[]⟩ ↔ trail.start = start ∧ trail.steps.length ≤ mostHops edge ∧
      Trail.Leads (Step view edge) trail.start trail.steps ∧ trail.nodes.Nodup := by
  have steps : (fun node edgeId next => (edgeId,next) ∈ leaving edge view node) = Step view edge := by
    ext node edgeId next
    exact mem_leaving edge hops.directed node (edgeId,next)
  rw [grown_start,Trail.mem_extensions (mostHops edge) ⟨start,[]⟩ trail (List.nodup_singleton start),
    steps]
  constructor
  · rintro ⟨more,rfl,few,leads,distinct⟩
    exact ⟨rfl,few,leads,distinct⟩
  · obtain ⟨first,more⟩ := trail
    rintro ⟨rfl,few,leads,distinct⟩
    exact ⟨more,rfl,few,leads,distinct⟩

theorem mem_simplePaths (hops : ManyHops fromNode edge toNode) (passes : view.nodeCount.toNat + 1 ≠ 2 ^ 64)
    (trail : Trail NodeId EdgeId) :
    trail ∈ simplePaths view fromNode toNode edge ↔ SimplePath view fromNode edge toNode trail := by
  have scanned := scan_ends fromNode passes
  have least := hopBound_toInt edge.minHops hops.least
  have most := mostHops_toInt hops
  simp only [simplePaths,List.mem_flatMap,List.mem_filter,mem_grown hops,found,Bool.and_eq_true,
    decide_eq_true_iff]
  constructor
  · rintro ⟨_,among,⟨rfl,few,leads,distinct⟩,many,ends⟩
    exact ⟨⟨_,scanned,among⟩,leads,distinct,⟨by omega,by omega⟩,ends⟩
  · rintro ⟨⟨ids,scanned',among⟩,leads,distinct,⟨many,few⟩,ends⟩
    obtain rfl := Outcome.value.inj (scanned.symm.trans scanned')
    exact ⟨_,among,⟨rfl,by omega,leads,distinct⟩,by omega,ends⟩

theorem nodup_simplePaths (hops : ManyHops fromNode edge toNode)
    (listed : ∀ node, (view.outgoingEdges node).Nodup) :
    (simplePaths view fromNode toNode edge).Nodup := by
  refine List.nodup_flatMap.mpr ⟨fun start _ => ?_,(nodup_scannedIds fromNode).imp ?_⟩
  · refine List.Nodup.filter _ ?_
    rw [grown_start]
    exact Trail.nodup_extensions (nodup_leaving edge hops.directed listed) _ _
  · intro start start' apart trail here there
    have first := ((mem_grown hops start trail).mp (List.mem_of_mem_filter here)).1
    have second := ((mem_grown hops start' trail).mp (List.mem_of_mem_filter there)).1
    exact apart (first.symm.trans second)

theorem search_simplePaths (fromNode toNode : Node) (edge : Edge) (passes : view.nodeCount.toNat + 1 ≠ 2 ^ 64) :
    ∃ rows, matchVariableLengthPath fromNode edge toNode view = .value rows ∧
      rows.Perm ((simplePaths view fromNode toNode edge).map (rowOfEnds fromNode toNode)) := by
  refine ⟨_,by rw [matchVariableLengthPath,scan_ends fromNode passes]; rfl,?_⟩
  rw [simplePaths,List.map_flatMap]
  refine List.Perm.flatMap_left _ fun start _ => ?_
  have rows := searchPaths_rows fromNode toNode edge view start [[start]] [⟨start,[]⟩] rfl (by simp)
  rwa [rowsOf,List.flatMap_singleton] at rows

theorem enumerates (hops : ManyHops fromNode edge toNode) (listed : ∀ node, (view.outgoingEdges node).Nodup) :
    EnumeratesPaths view fromNode edge toNode ↔ view.nodeCount.toNat + 1 ≠ 2 ^ 64 := by
  constructor
  · rintro ⟨trails,rows,returned,-⟩ largest
    rw [matchVariableLengthPath,scan_endless fromNode largest] at returned
    cases returned
  · intro passes
    obtain ⟨rows,returned,perm⟩ := search_simplePaths fromNode toNode edge passes
    have bound : List.Forall₂ (fun row trail => Binds [(fromNode,trail.start),(toNode,trail.last)] [] row)
        ((simplePaths view fromNode toNode edge).map (rowOfEnds fromNode toNode))
        (simplePaths view fromNode toNode edge) := by
      rw [List.forall₂_map_left_iff]
      exact List.forall₂_same.mpr fun trail _ => row_binds hops trail
    obtain ⟨trails,inOrder,same⟩ := List.perm_comp_forall₂ perm bound
    refine ⟨trails,rows,returned,same.nodup_iff.mpr (nodup_simplePaths hops listed),?_,inOrder.flip⟩
    intro trail
    rw [same.mem_iff]
    exact mem_simplePaths hops passes trail

end Whole

/-- In every state of a store without versions, the search finds the simple paths, unless the number of
nodes has been counted down from none. -/
theorem simple_paths (hash : Bytes → UInt64) (pages : FilePageStore) (wal : Option WALManager)
    (calls : List Call)
    (last : Guarded (GraphHistory.step hash) CountersLast (started pages none wal) calls) (txId : Nat)
    (fromNode toNode : Node) (edge : Edge) (hops : ManyHops fromNode edge toNode) :
    EnumeratesPaths (ExecutionContext.view txId (after hash (started pages none wal) calls)) fromNode edge
        toNode ↔
      (after hash (started pages none wal) calls).nodeCount.toNat + 1 ≠ 2 ^ 64 :=
  enumerates hops (after_listed hash (started pages none wal) calls (started_listed pages none wal) last).outgoing

def friends : Edge := {types := [ascii "FRIEND"], minHops := 0, maxHops := -1}

theorem friends_hops : ManyHops {variableName := ascii "a"} friends {variableName := ascii "b"} :=
  ⟨rfl,by decide,.inr rfl,by simp,by simp,by decide⟩

theorem simple_paths_linked :
    EnumeratesPaths (ExecutionContext.view 1 (after (fun _ => 0) unversioned
        [.plain (.createEdge 0 7 7 [] [])])) {variableName := ascii "a"} friends {variableName := ascii "b"} ↔
      (after (fun _ => 0) unversioned [.plain (.createEdge 0 7 7 [] [])]).nodeCount.toNat + 1 ≠ 2 ^ 64 := by
  have last : Guarded (GraphHistory.step fun _ => 0) CountersLast unversioned
      [.plain (.createEdge 0 7 7 [] [])] := by
    refine ⟨?_,trivial⟩
    rintro _ rfl
    decide
  exact simple_paths (fun _ => 0) (FilePageStore.openFile []) none _ last 1 _ _ friends friends_hops

theorem friends_endless :
    ManyHops {variableName := ascii "a"} friends {variableName := ascii "b"} ∧
      matchVariableLengthPath {variableName := ascii "a"} friends {variableName := ascii "b"}
        (ExecutionContext.view 1 uncounted) = .endless := by
  refine ⟨friends_hops,?_⟩
  rw [matchVariableLengthPath,scan_endless _ (uncounted_largest 1)]
  rfl

end LoreDB.Query.Cypher
