import LoreDB.Library.Walks
import LoreDB.Query.AdjacentNodes
import Mathlib.Data.FinEnum

/-! The search for a shortest path. The queue holds the visited nodes that have not been gone on from,
nearest first, and no two of them are more than one step apart in their distance from the start. So a node
that is found is found over a shortest walk, and the parents lead back along one. -/
namespace LoreDB.Query.QueryExecutor
open LoreDB.Storage LoreDB.Library LoreDB.Library.History GraphStore GraphHistory Outlines Wiring

variable {store : GraphStore FilePageStore} {fromNode toNode current : NodeId} {search : Search}
  {pending : List NodeId}

/-- The pending nodes are the visited ones whose neighbors may not have been visited. -/
structure Explored (store : GraphStore FilePageStore) (fromNode : NodeId) (pending : List NodeId)
    (search : Search) : Prop where
  begins : fromNode ∈ search.visited
  reached : ∀ node ∈ search.visited, ∃ path, Walk (Joined store) fromNode node path
  parents : ∀ node ∈ search.visited, node ≠ fromNode →
    search.parent node ∈ search.visited ∧ Joined store (search.parent node) node ∧
      distance (Joined store) fromNode node = distance (Joined store) fromNode (search.parent node) + 1
  queued : ∀ node ∈ pending, node ∈ search.visited
  sorted : pending.Pairwise fun first second =>
    distance (Joined store) fromNode first ≤ distance (Joined store) fromNode second
  near : ∀ first ∈ pending, ∀ second ∈ pending,
    distance (Joined store) fromNode second ≤ distance (Joined store) fromNode first + 1
  closed : ∀ node ∈ search.visited, node ∉ pending → ∀ next, Joined store node next → next ∈ search.visited

theorem begin_explored (store : GraphStore FilePageStore) (fromNode : NodeId) :
    Explored store fromNode [fromNode] {queue := [fromNode], visited := {fromNode}} where
  begins := Finset.mem_singleton_self fromNode
  reached node member := by
    obtain rfl := Finset.mem_singleton.mp member
    exact ⟨[node],.single node⟩
  parents node member apart := absurd (Finset.mem_singleton.mp member) apart
  queued node member := by simpa using member
  sorted := List.pairwise_singleton _ _
  near first one second two := by
    rw [List.mem_singleton.mp one,List.mem_singleton.mp two]
    exact Nat.le_succ _
  closed node member settled := absurd (List.mem_singleton.mpr (Finset.mem_singleton.mp member)) settled

theorem nearest {queue : List NodeId} (explored : Explored store fromNode (current :: queue) search) :
    ∀ other ∈ current :: queue,
      distance (Joined store) fromNode current ≤ distance (Joined store) fromNode other := by
  intro other member
  rcases List.mem_cons.mp member with rfl | behind
  · exact Nat.le_refl _
  · exact (List.pairwise_cons.mp explored.sorted).1 other behind

theorem visit_explored {neighbor : NodeId} (explored : Explored store fromNode (current :: search.queue) search)
    (joined : Joined store current neighbor) (unvisited : neighbor ∉ search.visited) :
    Explored store fromNode (current :: (search.visit neighbor current).queue)
      (search.visit neighbor current) := by
  obtain ⟨path,walk⟩ := explored.reached current (explored.queued current List.mem_cons_self)
  have far : distance (Joined store) fromNode neighbor = distance (Joined store) fromNode current + 1 :=
    distance_next (fun node => node ∈ search.visited) (fun node => node ∈ current :: search.queue)
      explored.begins explored.closed (fun other _ member => nearest explored other member) walk joined unvisited
  have ranks (node : NodeId) (member : node ∈ current :: search.queue) :
      distance (Joined store) fromNode node ≤ distance (Joined store) fromNode neighbor :=
    far ▸ explored.near current List.mem_cons_self node member
  have apart (node : NodeId) (member : node ∈ search.visited) : node ≠ neighbor :=
    fun same => unvisited (same ▸ member)
  have pended (node : NodeId) (member : node ∈ current :: (search.queue ++ [neighbor])) :
      node ∈ current :: search.queue ∨ node = neighbor := by
    simpa [or_assoc] using member
  refine ⟨?_,?_,?_,?_,?_,?_,?_⟩
  · exact Finset.mem_insert_of_mem explored.begins
  · intro node member
    rcases Finset.mem_insert.mp member with rfl | old
    · exact ⟨_,walk.snoc joined⟩
    · exact explored.reached node old
  · intro node member other
    rcases Finset.mem_insert.mp member with rfl | old
    · simp only [Search.visit,Function.update_self]
      exact ⟨Finset.mem_insert_of_mem (explored.queued current List.mem_cons_self),joined,far⟩
    · obtain ⟨known,leads,next⟩ := explored.parents node old other
      simp only [Search.visit,Function.update_of_ne (apart node old)]
      exact ⟨Finset.mem_insert_of_mem known,leads,next⟩
  · intro node member
    rcases pended node member with old | rfl
    · exact Finset.mem_insert_of_mem (explored.queued node old)
    · exact Finset.mem_insert_self _ _
  · rw [Search.visit,← List.cons_append]
    refine List.pairwise_append.mpr ⟨explored.sorted,List.pairwise_singleton _ _,?_⟩
    intro node member last same
    rw [List.mem_singleton.mp same]
    exact ranks node member
  · intro first one second two
    rcases pended first one with old | rfl
    · rcases pended second two with old' | rfl
      · exact explored.near first old second old'
      · exact far ▸ Nat.succ_le_succ (nearest explored first old)
    · rcases pended second two with old' | rfl
      · exact (ranks second old').trans (Nat.le_succ _)
      · exact Nat.le_succ _
  · intro node member settled next leads
    rcases Finset.mem_insert.mp member with rfl | old
    · exact absurd (by simp [Search.visit]) settled
    · refine Finset.mem_insert_of_mem (explored.closed node old (fun pends => settled ?_) next leads)
      simpa [Search.visit,or_assoc] using Or.inl (List.mem_cons.mp pends)

/-- What going through the neighbors of a node has come to. -/
structure Expanded (store : GraphStore FilePageStore) (fromNode toNode current : NodeId)
    (neighbors : List NodeId) (search next : Search) (ended : Bool) : Prop where
  explored : Explored store fromNode (current :: next.queue) next
  found : ended = true ↔ toNode ∈ next.visited
  passed : ended = false → ∀ neighbor ∈ neighbors, neighbor ∈ next.visited
  kept : search.visited ⊆ next.visited
  rounds : next.visited.card + search.queue.length = search.visited.card + next.queue.length

theorem visit_rounds (current : NodeId) {neighbor : NodeId} (unvisited : neighbor ∉ search.visited) :
    (search.visit neighbor current).visited.card + search.queue.length =
      search.visited.card + (search.visit neighbor current).queue.length := by
  rw [Search.visit,Finset.card_insert_of_notMem unvisited,List.length_append,List.length_singleton]
  omega

theorem expand_expanded (neighbors : List NodeId) (search : Search)
    (joined : ∀ neighbor ∈ neighbors, Joined store current neighbor) (unfound : toNode ∉ search.visited)
    (explored : Explored store fromNode (current :: search.queue) search) :
    Expanded store fromNode toNode current neighbors search (expand toNode current neighbors search).1
      (expand toNode current neighbors search).2 := by
  fun_induction expand toNode current neighbors search with
  | case1 search => exact ⟨explored,by simpa using unfound,by simp,subset_rfl,rfl⟩
  | case2 neighbor rest search visited ih =>
    have later := ih (fun other member => joined other (List.mem_cons_of_mem _ member)) unfound explored
    refine ⟨later.explored,later.found,fun ends other member => ?_,later.kept,later.rounds⟩
    rcases List.mem_cons.mp member with rfl | behind
    · exact later.kept visited
    · exact later.passed ends other behind
  | case3 rest search unvisited =>
    refine ⟨visit_explored explored (joined toNode List.mem_cons_self) unvisited,?_,by simp,
      Finset.subset_insert _ _,visit_rounds current unvisited⟩
    exact iff_of_true rfl (Finset.mem_insert_self _ _)
  | case4 neighbor rest search unvisited other ih =>
    have missing : toNode ∉ (search.visit neighbor current).visited := by
      rw [Search.visit,Finset.mem_insert]
      exact fun here => here.elim (Ne.symm other) unfound
    have later := ih (fun other member => joined other (List.mem_cons_of_mem _ member)) missing
      (visit_explored explored (joined neighbor List.mem_cons_self) unvisited)
    have kept := (Finset.subset_insert neighbor search.visited).trans later.kept
    have rounds := later.rounds
    have visits := visit_rounds current unvisited
    refine ⟨later.explored,later.found,fun ends other member => ?_,kept,by omega⟩
    rcases List.mem_cons.mp member with rfl | behind
    · exact later.kept (Finset.mem_insert_self _ _)
    · exact later.passed ends other behind

/-- A node whose neighbors are all visited need not be gone on from again. -/
theorem settle_explored {queue : List NodeId} (explored : Explored store fromNode (current :: queue) search)
    (passed : ∀ next, Joined store current next → next ∈ search.visited) :
    Explored store fromNode queue search where
  begins := explored.begins
  reached := explored.reached
  parents := explored.parents
  queued node member := explored.queued node (List.mem_cons_of_mem _ member)
  sorted := (List.pairwise_cons.mp explored.sorted).2
  near first one second two :=
    explored.near first (List.mem_cons_of_mem _ one) second (List.mem_cons_of_mem _ two)
  closed node member settled next leads := by
    by_cases here : node = current
    · exact passed next (here ▸ leads)
    · exact explored.closed node member (List.not_mem_cons_of_ne_of_not_mem here settled) next leads

/-- The parents of a visited node lead back along a shortest walk. -/
theorem reconstruct_shortest (explored : Explored store fromNode pending search) (rounds : ℕ) (node : NodeId)
    (visited : node ∈ search.visited) (enough : distance (Joined store) fromNode node ≤ rounds)
    (behind : List NodeId) :
    ∃ path, reconstruct fromNode search.parent rounds node behind = some (path ++ behind.reverse) ∧
      ShortestWalk (Joined store) fromNode node path := by
  induction rounds generalizing node behind with
  | zero =>
    obtain ⟨path,walk⟩ := explored.reached node visited
    obtain ⟨short,reaches,length⟩ := exists_shortest walk
    exact absurd (List.length_pos_of_ne_nil reaches.nonempty) (by omega)
  | succ rounds ih =>
    rw [reconstruct]
    by_cases here : node = fromNode
    · subst here
      refine ⟨[node],by simp,.single node,fun other walk => ?_⟩
      exact List.length_pos_of_ne_nil walk.nonempty
    · obtain ⟨known,leads,next⟩ := explored.parents node visited here
      obtain ⟨path,traced,short⟩ := ih (search.parent node) known (by omega) (behind ++ [node])
      refine ⟨path ++ [node],by simp [here,traced],?_⟩
      obtain ⟨least,reaches,length⟩ := exists_shortest short.walk
      have shortest := short.least least reaches
      have above := distance_le short.walk
      refine shortest_distance (short.walk.snoc leads) ?_
      rw [List.length_append,List.length_singleton]
      omega

/-- The path is a shortest walk, or it is empty and there is no walk at all. -/
def PathFound (store : GraphStore FilePageStore) (fromNode toNode : NodeId) (path : List NodeId) : Prop :=
  ShortestWalk (Joined store) fromNode toNode path ∨
    path = [] ∧ ∀ other, ¬Walk (Joined store) fromNode toNode other

theorem searchQueue_finds (adjacent : ∀ node next, next ∈ getAdjacentNodes node store ↔ Joined store node next)
    (rounds : ℕ) (search : Search) (explored : Explored store fromNode search.queue search)
    (unfound : toNode ∉ search.visited)
    (enough : Fintype.card NodeId + search.queue.length + distance (Joined store) fromNode toNode <
      rounds + search.visited.card) :
    ∃ path, searchQueue store fromNode toNode rounds search = some path ∧
      PathFound store fromNode toNode path := by
  have few := search.visited.card_le_univ
  induction rounds generalizing search with
  | zero => omega
  | succ rounds ih =>
    rw [searchQueue]
    cases queued : search.queue with
    | nil =>
      refine ⟨[],rfl,.inr ⟨rfl,fun other walk => ?_⟩⟩
      rw [queued] at explored
      obtain ⟨node,visited,none,-⟩ := walk.passes (fun node => node ∈ search.visited) (fun _ => False)
        explored.begins (fun node member _ => explored.closed node member List.not_mem_nil) unfound
      exact none
    | cons current queue =>
      rw [queued] at explored enough
      have popped : Explored store fromNode (current :: queue) {search with queue := queue} :=
        ⟨explored.begins,explored.reached,explored.parents,explored.queued,explored.sorted,explored.near,
          explored.closed⟩
      have expanded := expand_expanded (getAdjacentNodes current store) {search with queue := queue}
        (fun neighbor member => (adjacent current neighbor).mp member) unfound popped
      dsimp only
      cases went : expand toNode current (getAdjacentNodes current store) {search with queue := queue} with
      | mk next ended =>
        rw [went] at expanded
        have spent := expanded.rounds
        simp only [List.length_cons] at enough spent
        cases ended with
        | true =>
          obtain ⟨path,traced,short⟩ := reconstruct_shortest expanded.explored rounds toNode
            (expanded.found.mp rfl) (by omega) []
          exact ⟨path,by simpa using traced,.inl short⟩
        | false =>
          have missing : toNode ∉ next.visited := fun here => by cases expanded.found.mpr here
          have settled := settle_explored expanded.explored fun other leads =>
            expanded.passed rfl other ((adjacent current other).mpr leads)
          exact ih next settled missing (by omega) next.visited.card_le_univ

/-! More rounds change nothing. -/

theorem reconstruct_more (parent : NodeId → NodeId) (rounds : ℕ) (node : NodeId) (behind path : List NodeId)
    (traced : reconstruct fromNode parent rounds node behind = some path) :
    reconstruct fromNode parent (rounds + 1) node behind = some path := by
  induction rounds generalizing node behind with
  | zero => cases traced
  | succ rounds ih =>
    rw [reconstruct] at traced ⊢
    by_cases here : node = fromNode
    · rwa [if_pos here] at traced ⊢
    · rw [if_neg here] at traced ⊢
      exact ih _ _ traced

theorem searchQueue_more (rounds : ℕ) (search : Search) (path : List NodeId)
    (found : searchQueue store fromNode toNode rounds search = some path) :
    searchQueue store fromNode toNode (rounds + 1) search = some path := by
  induction rounds generalizing search with
  | zero => cases found
  | succ rounds ih =>
    rw [searchQueue] at found ⊢
    cases queued : search.queue with
    | nil =>
      rw [queued] at found
      exact found
    | cons current queue =>
      rw [queued] at found
      dsimp only at found ⊢
      cases went : expand toNode current (getAdjacentNodes current store) {search with queue := queue} with
      | mk next ended =>
        rw [went] at found
        cases ended with
        | true => exact reconstruct_more _ _ _ _ _ found
        | false => exact ih next found

/-- The search comes back with a shortest walk if there is one, in every store that calls without wrapping
id counters have made. -/
theorem shortest_path (hash : Bytes → UInt64) (file : Bytes) (mvcc : Option Transaction.MVCCManager)
    (wal : Option WALManager) (calls : List Call)
    (last : Guarded (GraphHistory.step hash) CountersLast (started (FilePageStore.openFile file) mvcc wal) calls)
    (fromNode toNode : NodeId) :
    ∃ path, (∃ enough, ∀ rounds ≥ enough, bfsShortestPath rounds fromNode toNode
        (after hash (started (FilePageStore.openFile file) mvcc wal) calls) = some path) ∧
      (fromNode = toNode → path = [fromNode]) ∧
      PathFound (after hash (started (FilePageStore.openFile file) mvcc wal) calls) fromNode toNode path := by
  obtain ⟨ends,wired⟩ := after_wired hash _ calls last (started_wired file mvcc wal)
  generalize after hash (started (FilePageStore.openFile file) mvcc wal) calls = store at wired ⊢
  by_cases same : fromNode = toNode
  · subst same
    refine ⟨[fromNode],⟨0,fun rounds _ => if_pos rfl⟩,fun _ => rfl,.inl ⟨.single fromNode,fun other walk => ?_⟩⟩
    exact List.length_pos_of_ne_nil walk.nonempty
  · obtain ⟨path,found,correct⟩ := searchQueue_finds (mem_adjacent wired)
      (Fintype.card NodeId + 1 + distance (Joined store) fromNode toNode)
      {queue := [fromNode], visited := {fromNode}} (begin_explored store fromNode)
      (by simpa using Ne.symm same) (by simp)
    refine ⟨path,⟨Fintype.card NodeId + 1 + distance (Joined store) fromNode toNode,fun rounds enough => ?_⟩,
      fun equal => absurd equal same,correct⟩
    rw [bfsShortestPath,if_neg same]
    induction rounds, enough using Nat.le_induction with
    | base => exact found
    | succ rounds _ ih => exact searchQueue_more rounds _ path ih

/-- A step from node 7 to node 9. -/
theorem shortest_path_step :
    ∃ path, (∃ enough, ∀ rounds ≥ enough, bfsShortestPath rounds 7 9 (after (fun _ => 0)
        (started (FilePageStore.openFile []) none none) [.plain (.createEdge 0 7 9 [] [])]) = some path) ∧
      ((7 : NodeId) = 9 → path = [7]) ∧
      PathFound (after (fun _ => 0) (started (FilePageStore.openFile []) none none)
        [.plain (.createEdge 0 7 9 [] [])]) 7 9 path := by
  have last : Guarded (GraphHistory.step fun _ => 0) CountersLast
      (started (FilePageStore.openFile []) none none) [.plain (.createEdge 0 7 9 [] [])] := by
    refine ⟨?_,trivial⟩
    rintro _ rfl
    decide
  exact shortest_path (fun _ => 0) [] none none [.plain (.createEdge 0 7 9 [] [])] last 7 9

end LoreDB.Query.QueryExecutor
