import LoreDB.Library.Cycles
import LoreDB.Transaction.LockManager
import Mathlib.Data.Finset.Card

/-! The depth-first search of `detect_deadlock`. A vertex that was left without an alarm is
explored: all its successors were explored before it, so no cycle passes through it. -/
namespace LoreDB.Transaction.LockManager
open Relation LoreDB.Library.Cycles

def WaitsFor (graph : AList (fun _ : Nat => List Nat)) (u v : Nat) : Prop :=
  v ∈ (graph.lookup u).getD []

instance (graph : AList (fun _ : Nat => List Nat)) (u v : Nat) : Decidable (WaitsFor graph u v) :=
  inferInstanceAs (Decidable (_ ∈ _))

theorem waits_finite (graph : AList (fun _ : Nat => List Nat)) :
    Set.Finite {u | ∃ v, WaitsFor graph u v} := by
  refine (List.finite_toSet graph.keys).subset fun u waits => ?_
  obtain ⟨v,edge⟩ := waits
  unfold WaitsFor at edge
  cases found : graph.lookup u with
  | none =>
    rw [found] at edge
    exact absurd edge List.not_mem_nil
  | some edges => exact AList.mem_keys.mp (AList.lookup_isSome.mp (by rw [found]; rfl))

theorem waits_inserted (graph : AList (fun _ : Nat => List Nat)) (t : Nat) (edges : List Nat) :
    WaitsFor (graph.insert t edges) = redirect (WaitsFor graph) t (· ∈ edges) := by
  ext u v
  unfold WaitsFor redirect
  by_cases here : u = t
  · subst here
    simp
  · rw [AList.lookup_insert_ne here,if_neg here]

theorem waits_erased (graph : AList (fun _ : Nat => List Nat)) (t u v : Nat) :
    WaitsFor (graph.erase t) u v ↔ u ≠ t ∧ WaitsFor graph u v := by
  unfold WaitsFor
  by_cases here : u = t
  · subst here
    simp
  · rw [AList.lookup_erase_ne here]
    simp [here]

/-- Looking up the edges of a transaction inserts an empty list at most. -/
theorem waits_looked (graph : AList (fun _ : Nat => List Nat)) (u : Nat) :
    WaitsFor (graph.insert u ((graph.lookup u).getD [])) = WaitsFor graph := by
  rw [waits_inserted]
  ext x y
  by_cases here : x = u
  · subst here
    exact redirect_here x _ y
  · exact redirect_elsewhere u _ x y here

def Explored (search : Search) (u : Nat) : Prop :=
  search.visited u = some true ∧ search.recursionStack u = false

/-- What holds of the maps whenever no cycle was found yet. -/
structure Consistent (edges : Nat → Nat → Prop) (search : Search) : Prop where
  graph : WaitsFor search.graph = edges
  stacked : ∀ u, search.recursionStack u = true → search.visited u = some true
  closed : ∀ u v, Explored search u → edges u v → Explored search v
  acyclic : ∀ u, Explored search u → ¬TransGen edges u u

structure Extends (before after : Search) : Prop where
  stack : after.recursionStack = before.recursionStack
  visited : ∀ u, before.visited u = some true → after.visited u = some true

theorem Extends.refl (search : Search) : Extends search search := ⟨rfl,fun _ known => known⟩

theorem Extends.trans {first second third : Search} (left : Extends first second)
    (right : Extends second third) : Extends first third :=
  ⟨right.stack.trans left.stack,fun u known => right.visited u (left.visited u known)⟩

theorem Extends.explored {before after : Search} (later : Extends before after) (u : Nat)
    (explored : Explored before u) : Explored after u :=
  ⟨later.visited u explored.1,by rw [later.stack]; exact explored.2⟩

/-- The end of a search from some targets: an alarm is for a cycle that can be reached from
one of them, and without an alarm all of them are explored. -/
structure Settled (edges : Nat → Nat → Prop) (targets : List Nat) (before : Search)
    (found : Bool) (after : Search) : Prop where
  graph : WaitsFor after.graph = edges
  alarm : found = true → ∃ v ∈ targets, ∃ x, ReflTransGen edges v x ∧ TransGen edges x x
  clear : found = false →
    Consistent edges after ∧ (∀ v ∈ targets, Explored after v) ∧ Extends before after

def unvisited (vertices : Finset Nat) (search : Search) : Finset Nat :=
  vertices.filter fun u => search.visited u ≠ some true

theorem unvisited_fewer (vertices : Finset Nat) (before after : Search)
    (later : Extends before after) :
    (unvisited vertices after).card ≤ (unvisited vertices before).card := by
  apply Finset.card_le_card
  intro u member
  rw [unvisited,Finset.mem_filter] at member ⊢
  exact ⟨member.1,fun known => member.2 (later.visited u known)⟩

/-- `visited[v]` of a missing key inserts `false`. -/
theorem consistent_looked (edges : Nat → Nat → Prop) (search : Search)
    (consistent : Consistent edges search) (v : Nat) :
    let looked := {search with
      visited := Function.update search.visited v (some ((search.visited v).getD false))}
    Consistent edges looked ∧ Extends search looked ∧ (∀ u, Explored looked u ↔ Explored search u) := by
  have same : ∀ u, Function.update search.visited v (some ((search.visited v).getD false)) u = some true ↔
      search.visited u = some true := by
    intro u
    by_cases here : u = v
    · subst here
      cases known : search.visited u <;> simp
    · rw [Function.update_of_ne here]
  have explored : ∀ u, Explored {search with
      visited := Function.update search.visited v (some ((search.visited v).getD false))} u ↔
      Explored search u := fun u => and_congr_left fun _ => same u
  refine ⟨⟨consistent.graph,fun u on => (same u).mpr (consistent.stacked u on),?_,?_⟩,
    ⟨rfl,fun u known => (same u).mpr known⟩,explored⟩
  · intro u v inside edge
    exact (explored v).mpr (consistent.closed u v ((explored u).mp inside) edge)
  · intro u inside
    exact consistent.acyclic u ((explored u).mp inside)

/-- What a visit of one vertex owes, when `room` bounds the vertices it may still enter. -/
def Visits (edges : Nat → Nat → Prop) (vertices : Finset Nat) (room : Nat)
    (visit : Nat → Search → Option (Bool × Search)) : Prop :=
  ∀ u search, u ∈ vertices → Consistent edges search → search.visited u = some false →
    (∀ w, search.recursionStack w = true → TransGen edges w u) →
    (unvisited vertices search).card ≤ room →
    ∃ found after, visit u search = some (found,after) ∧ Settled edges [u] search found after

theorem scanEdges_settles (edges : Nat → Nat → Prop) (vertices : Finset Nat) (room : Nat)
    (visit : Nat → Search → Option (Bool × Search)) (visits : Visits edges vertices room visit)
    (u : Nat) (targets : List Nat) (search : Search) (inside : ∀ v ∈ targets, v ∈ vertices)
    (successors : ∀ v ∈ targets, edges u v) (consistent : Consistent edges search)
    (path : ∀ w, search.recursionStack w = true → ReflTransGen edges w u)
    (bounded : (unvisited vertices search).card ≤ room) :
    ∃ found after, scanEdges visit targets search = some (found,after) ∧
      Settled edges targets search found after := by
  induction targets generalizing search with
  | nil =>
    refine ⟨false,search,rfl,consistent.graph,fun alarm => (Bool.false_ne_true alarm).elim,fun _ => ?_⟩
    exact ⟨consistent,fun v member => absurd member List.not_mem_nil,.refl search⟩
  | cons v rest ih =>
    obtain ⟨looked,extended,explored⟩ := consistent_looked edges search consistent v
    have edge := successors v List.mem_cons_self
    have fewer := (unvisited_fewer vertices search _ extended).trans bounded
    -- what is left of the list, once this vertex is explored
    have others : ∀ next, Consistent edges next → Extends search next → Explored next v →
        ∃ found after, scanEdges visit rest next = some (found,after) ∧
          Settled edges (v::rest) search found after := by
      intro next ready more done
      obtain ⟨found,after,scanned,settled⟩ := ih next
        (fun w member => inside w (List.mem_cons_of_mem v member))
        (fun w member => successors w (List.mem_cons_of_mem v member)) ready
        (fun w on => path w (by rwa [more.stack] at on))
        ((unvisited_fewer vertices search next more).trans bounded)
      refine ⟨found,after,scanned,settled.graph,fun alarm => ?_,fun clear => ?_⟩
      · obtain ⟨w,member,cycle⟩ := settled.alarm alarm
        exact ⟨w,List.mem_cons_of_mem v member,cycle⟩
      · obtain ⟨kept,all,later⟩ := settled.clear clear
        refine ⟨kept,fun w member => ?_,more.trans later⟩
        rcases List.mem_cons.mp member with rfl | member
        · exact later.explored w done
        · exact all w member
    cases known : (search.visited v).getD false with
    | true =>
      have seen : search.visited v = some true := by
        cases visited : search.visited v with
        | none => rw [visited] at known; cases known
        | some value => rw [visited] at known; exact congrArg some known
      cases on : search.recursionStack v with
      | true =>
        -- the vertex is an ancestor of the one whose edges are scanned
        refine ⟨true,_,by simp only [scanEdges,known,on,if_true],looked.graph,fun _ => ?_,
          fun clear => (Bool.false_ne_true clear.symm).elim⟩
        exact ⟨v,List.mem_cons_self,v,.refl,.tail' (path v on) edge⟩
      | false =>
        obtain ⟨found,after,scanned,settled⟩ :=
          others _ looked extended ((explored v).mpr ⟨seen,on⟩)
        refine ⟨found,after,?_,settled⟩
        rw [← scanned]
        simp only [scanEdges,known,on,if_true]
        rfl
    | false =>
      obtain ⟨found,after,visited,settled⟩ := visits v _ (inside v List.mem_cons_self) looked
        (by rw [known]; exact Function.update_self v _ _)
        (fun w on => .tail' (path w on) edge) fewer
      cases found with
      | true =>
        refine ⟨true,after,?_,settled.graph,fun alarm => ?_,
          fun clear => (Bool.false_ne_true clear.symm).elim⟩
        · rw [known] at visited
          simp only [scanEdges,known,visited,Bool.false_eq_true,if_false]
        · obtain ⟨w,member,cycle⟩ := settled.alarm alarm
          rw [List.mem_singleton] at member
          exact ⟨v,List.mem_cons_self,member ▸ cycle⟩
      | false =>
        obtain ⟨kept,all,later⟩ := settled.clear rfl
        obtain ⟨found,last,scanned,final⟩ :=
          others after kept (extended.trans later) (all v (List.mem_singleton.mpr rfl))
        refine ⟨found,last,?_,final⟩
        rw [known] at visited
        simp only [scanEdges,known,visited,Bool.false_eq_true,if_false,scanned]

/-- The search after `has_cycle` has entered a vertex. -/
def enter (u : Nat) (search : Search) : Search := {
  graph := search.graph.insert u ((search.graph.lookup u).getD [])
  visited := Function.update search.visited u (some true)
  recursionStack := Function.update search.recursionStack u true}

theorem enter_explored (u : Nat) (search : Search) (fresh : search.visited u = some false) (v : Nat) :
    Explored (enter u search) v ↔ Explored search v := by
  unfold Explored enter
  by_cases here : v = u
  · subst here
    simp [fresh]
  · simp [here]

theorem enter_consistent (edges : Nat → Nat → Prop) (u : Nat) (search : Search)
    (consistent : Consistent edges search) (fresh : search.visited u = some false) :
    Consistent edges (enter u search) where
  graph := (waits_looked search.graph u).trans consistent.graph
  stacked v on := by
    by_cases here : v = u
    · subst here
      exact Function.update_self v _ _
    · simp only [enter,Function.update_of_ne here] at on ⊢
      exact consistent.stacked v on
  closed v w inside edge := by
    rw [enter_explored u search fresh] at inside ⊢
    exact consistent.closed v w inside edge
  acyclic v inside := consistent.acyclic v ((enter_explored u search fresh v).mp inside)

/-- The search after `has_cycle` has left a vertex without an alarm. -/
def leave (u : Nat) (search : Search) : Search :=
  {search with recursionStack := Function.update search.recursionStack u false}

theorem leave_explored (u : Nat) (search : Search) (known : search.visited u = some true) (v : Nat) :
    Explored (leave u search) v ↔ v = u ∨ Explored search v := by
  unfold Explored leave
  by_cases here : v = u
  · subst here
    simp [known]
  · simp [here]

/-- A vertex is left when its successors are explored; a cycle through it would enter them. -/
theorem leave_consistent (edges : Nat → Nat → Prop) (u : Nat) (search : Search)
    (consistent : Consistent edges search) (on : search.recursionStack u = true)
    (successors : ∀ v, edges u v → Explored search v) : Consistent edges (leave u search) := by
  have explored := leave_explored u search (consistent.stacked u on)
  refine ⟨consistent.graph,fun v still => ?_,fun v w inside edge => ?_,fun v inside cycle => ?_⟩
  · by_cases here : v = u
    · subst here
      exact consistent.stacked v on
    · simp only [leave,Function.update_of_ne here] at still
      exact consistent.stacked v still
  · rcases (explored v).mp inside with rfl | inside
    · exact (explored w).mpr (.inr (successors w edge))
    · exact (explored w).mpr (.inr (consistent.closed v w inside edge))
  · rcases (explored v).mp inside with rfl | inside
    · obtain ⟨next,edge,back⟩ := TransGen.head'_iff.mp cycle
      have returns : Explored search v := by
        rcases reflTransGen_iff_eq_or_transGen.mp back with same | path
        · exact same ▸ successors next edge
        · exact path_closed path (Explored search) consistent.closed (successors next edge)
      rw [returns.2] at on
      contradiction
    · exact consistent.acyclic v inside cycle

section Calls

variable (depth u : Nat) (search after : Search) (fresh : search.visited u = some false)
include fresh

theorem hasCycle_alarmed (scanned : scanEdges (hasCycle depth) ((search.graph.lookup u).getD [])
    (enter u search) = some (true,after)) : hasCycle (depth + 1) u search = some (true,after) := by
  unfold enter at scanned
  simp only [hasCycle,fresh,Option.isNone_some,Bool.false_eq_true,if_false,scanned]

theorem hasCycle_cleared (scanned : scanEdges (hasCycle depth) ((search.graph.lookup u).getD [])
    (enter u search) = some (false,after)) :
    hasCycle (depth + 1) u search = some (false,leave u after) := by
  unfold enter at scanned
  simp only [hasCycle,fresh,Option.isNone_some,Bool.false_eq_true,if_false,scanned]
  rfl

end Calls

theorem hasCycle_settles (edges : Nat → Nat → Prop) (vertices : Finset Nat)
    (inside : ∀ u v, edges u v → v ∈ vertices) (depth : Nat) :
    Visits edges vertices depth (hasCycle depth) := by
  induction depth with
  | zero =>
    intro u search member _ fresh _ bounded
    have none : u ∉ unvisited vertices search := by
      rw [Finset.card_eq_zero.mp (Nat.le_zero.mp bounded)]
      exact Finset.notMem_empty u
    exact absurd (Finset.mem_filter.mpr ⟨member,by simp [fresh]⟩) none
  | succ depth ih =>
    intro u search member consistent fresh path bounded
    have entered := enter_consistent edges u search consistent fresh
    have off : search.recursionStack u = false := by
      by_contra on
      have := consistent.stacked u (by simpa using on)
      rw [fresh] at this
      cases this
    have successors : ∀ v, v ∈ (search.graph.lookup u).getD [] ↔ edges u v := by
      intro v
      rw [← consistent.graph]
      rfl
    have fewer : (unvisited vertices (enter u search)).card ≤ depth := by
      have less : (unvisited vertices (enter u search)).card < (unvisited vertices search).card := by
        apply Finset.card_lt_card
        refine (Finset.ssubset_iff_of_subset fun v kept => ?_).mpr ⟨u,?_,?_⟩
        · rw [unvisited,Finset.mem_filter] at kept ⊢
          refine ⟨kept.1,fun known => kept.2 ?_⟩
          by_cases here : v = u
          · subst here
            exact Function.update_self v _ _
          · simpa [enter,here] using known
        · exact Finset.mem_filter.mpr ⟨member,by simp [fresh]⟩
        · rw [unvisited,Finset.mem_filter]
          exact fun kept => kept.2 (Function.update_self u _ _)
      omega
    obtain ⟨found,after,scanned,settled⟩ := scanEdges_settles edges vertices depth (hasCycle depth) ih
      u ((search.graph.lookup u).getD []) (enter u search)
      (fun v edge => inside u v ((successors v).mp edge)) (fun v edge => (successors v).mp edge)
      entered (fun w on => by
        by_cases here : w = u
        · exact here ▸ .refl
        · simp only [enter,Function.update_of_ne here] at on
          exact (path w on).to_reflTransGen) fewer
    cases found with
    | true =>
      refine ⟨true,after,hasCycle_alarmed depth u search after fresh scanned,settled.graph,fun alarm => ?_,
        fun clear => (Bool.false_ne_true clear.symm).elim⟩
      obtain ⟨v,edge,x,reach,cycle⟩ := settled.alarm alarm
      exact ⟨u,List.mem_singleton.mpr rfl,x,reach.head ((successors v).mp edge),cycle⟩
    | false =>
      obtain ⟨kept,all,later⟩ := settled.clear rfl
      have on : after.recursionStack u = true := by
        rw [later.stack]
        exact Function.update_self u _ _
      have final := leave_consistent edges u after kept on fun v edge =>
        all v ((successors v).mpr edge)
      refine ⟨false,leave u after,hasCycle_cleared depth u search after fresh scanned,final.graph,
        fun alarm => (Bool.false_ne_true alarm).elim,fun _ => ⟨final,fun v target => ?_,?_,?_⟩⟩
      · rw [List.mem_singleton.mp target]
        exact (leave_explored u after (kept.stacked u on) u).mpr (.inl rfl)
      · ext v
        by_cases here : v = u
        · subst here
          simp [leave,off]
        · simp [leave,later.stack,enter,here]
      · intro v known
        apply later.visited
        by_cases here : v = u
        · subst here
          exact Function.update_self v _ _
        · simpa [enter,here] using known

theorem start_consistent (graph : AList (fun _ : Nat => List Nat)) :
    Consistent (WaitsFor graph) {
      graph := graph
      visited := fun txId => (graph.lookup txId).map (fun _ => false)
      recursionStack := fun _ => false} := by
  have unexplored : ∀ u, (graph.lookup u).map (fun _ => false) ≠ some true := by
    intro u
    cases graph.lookup u <;> simp
  refine ⟨rfl,fun u on => (Bool.false_ne_true on).elim,fun u v inside => ?_,fun u inside => ?_⟩
  · exact absurd inside.1 (unexplored u)
  · exact absurd inside.1 (unexplored u)

/-- The transactions of the graph, with an entry or without. -/
def vertices (graph : AList (fun _ : Nat => List Nat)) : List Nat :=
  graph.entries.flatMap fun entry => entry.1::entry.2

theorem vertices_length (graph : AList (fun _ : Nat => List Nat)) :
    (vertices graph).length + 2 = searchDepth graph := by
  simp [vertices,searchDepth,List.length_flatMap]

theorem vertices_key (graph : AList (fun _ : Nat => List Nat)) (u : Nat)
    (known : (graph.lookup u).isSome) : u ∈ vertices graph := by
  obtain ⟨edges,found⟩ := Option.isSome_iff_exists.mp known
  exact List.mem_flatMap.mpr ⟨⟨u,edges⟩,AList.mem_lookup_iff.mp found,List.mem_cons_self⟩

theorem vertices_target (graph : AList (fun _ : Nat => List Nat)) (u v : Nat)
    (waits : WaitsFor graph u v) : v ∈ vertices graph := by
  unfold WaitsFor at waits
  cases found : graph.lookup u with
  | none =>
    rw [found] at waits
    exact absurd waits List.not_mem_nil
  | some edges =>
    rw [found] at waits
    exact List.mem_flatMap.mpr
      ⟨⟨u,edges⟩,AList.mem_lookup_iff.mp found,List.mem_cons_of_mem u waits⟩

/-- The search ends, leaves every edge as it was, and raises an alarm for a cycle that can be
reached; without an alarm no cycle can be. -/
theorem detectDeadlock_settles (graph : AList (fun _ : Nat => List Nat)) (t : Nat) :
    ∃ found search, detectDeadlock t graph = some (found,search) ∧
      WaitsFor search.graph = WaitsFor graph ∧
      (found = true ↔ ∃ x, ReflTransGen (WaitsFor graph) t x ∧ TransGen (WaitsFor graph) x x) := by
  unfold detectDeadlock
  cases known : graph.lookup t with
  | none =>
    have alone : ∀ v, ¬WaitsFor graph t v := by
      intro v edge
      rw [WaitsFor,known] at edge
      exact List.not_mem_nil edge
    refine ⟨false,_,by rw [searchDepth,hasCycle]; simp only [known]; rfl,rfl,
      fun alarm => (Bool.false_ne_true alarm).elim,?_⟩
    rintro ⟨x,reach,cycle⟩
    rcases reflTransGen_iff_eq_or_transGen.mp reach with rfl | path
    · obtain ⟨next,edge,_⟩ := TransGen.head'_iff.mp cycle
      exact absurd edge (alone next)
    · obtain ⟨next,edge,_⟩ := TransGen.head'_iff.mp path
      exact absurd edge (alone next)
  | some edges =>
    have size : (vertices graph).toFinset.card ≤ searchDepth graph :=
      (List.toFinset_card_le _).trans (vertices_length graph ▸ Nat.le_add_right _ 2)
    obtain ⟨found,search,returned,settled⟩ := hasCycle_settles (WaitsFor graph)
      (vertices graph).toFinset (fun u v edge => List.mem_toFinset.mpr (vertices_target graph u v edge))
      (searchDepth graph) t _ (List.mem_toFinset.mpr (vertices_key graph t (by rw [known]; rfl)))
      (start_consistent graph) (by simp only [known]; rfl) (fun w on => (Bool.false_ne_true on).elim)
      ((Finset.card_filter_le _ _).trans size)
    refine ⟨found,search,returned,settled.graph,fun alarm => ?_,fun cyclic => ?_⟩
    · obtain ⟨v,target,cycle⟩ := settled.alarm alarm
      rwa [List.mem_singleton.mp target] at cycle
    · obtain ⟨x,reach,cycle⟩ := cyclic
      cases found with
      | true => rfl
      | false =>
        obtain ⟨kept,all,_⟩ := settled.clear rfl
        have start := all t (List.mem_singleton.mpr rfl)
        have explored : Explored search x := by
          rcases reflTransGen_iff_eq_or_transGen.mp reach with rfl | path
          · exact start
          · exact path_closed path (Explored search) kept.closed start
        exact absurd cycle (kept.acyclic x explored)

/-! The search as a run without a bound on its depth. -/

/-- The list that `operator[]` finds for a transaction, an inserted one included. -/
def edgesOf (graph : AList (fun _ : Nat => List Nat)) (u : Nat) : List Nat := (graph.lookup u).getD []

theorem edgesOf_looked (graph : AList (fun _ : Nat => List Nat)) (u : Nat) :
    edgesOf (graph.insert u (edgesOf graph u)) = edgesOf graph := by
  funext v
  unfold edgesOf
  by_cases here : v = u
  · subst here
    rw [AList.lookup_insert,Option.getD_some]
  · rw [AList.lookup_insert_ne here]

theorem scanEdges_edges (visit : Nat → Search → Option (Bool × Search))
    (keeps : ∀ v search found after, visit v search = some (found,after) →
      edgesOf after.graph = edgesOf search.graph)
    (targets : List Nat) (search : Search) (found : Bool) (after : Search)
    (scanned : scanEdges visit targets search = some (found,after)) :
    edgesOf after.graph = edgesOf search.graph := by
  induction targets generalizing search with
  | nil =>
    obtain ⟨-,rfl⟩ := Prod.mk.inj (Option.some.inj scanned)
    rfl
  | cons v rest ih =>
    unfold scanEdges at scanned
    dsimp only at scanned
    have later := ih {search with
      visited := Function.update search.visited v (some ((search.visited v).getD false))}
    have called := keeps v {search with
      visited := Function.update search.visited v (some ((search.visited v).getD false))}
    split at scanned
    · split at scanned
      · obtain ⟨-,rfl⟩ := Prod.mk.inj (Option.some.inj scanned)
        rfl
      · exact later scanned
    · split at scanned
      · cases scanned
      · rename_i alarmed visited
        obtain ⟨-,rfl⟩ := Prod.mk.inj (Option.some.inj scanned)
        exact called _ _ visited
      · rename_i cleared visited
        exact (ih _ scanned).trans (called _ _ visited)

theorem hasCycle_edges (depth u : Nat) (search : Search) (found : Bool) (after : Search)
    (returned : hasCycle depth u search = some (found,after)) :
    edgesOf after.graph = edgesOf search.graph := by
  induction depth generalizing u search found after with
  | zero => cases returned
  | succ depth ih =>
    have looked := edgesOf_looked search.graph u
    unfold hasCycle at returned
    split at returned
    · obtain ⟨-,rfl⟩ := Prod.mk.inj (Option.some.inj returned)
      rfl
    · dsimp only at returned
      split at returned
      · cases returned
      · rename_i alarmed scanned
        obtain ⟨-,rfl⟩ := Prod.mk.inj (Option.some.inj returned)
        exact (scanEdges_edges (hasCycle depth) ih _ _ _ _ scanned).trans looked
      · rename_i cleared scanned
        obtain ⟨-,rfl⟩ := Prod.mk.inj (Option.some.inj returned)
        exact (scanEdges_edges (hasCycle depth) ih _ _ _ _ scanned).trans looked

theorem scanEdges_more (visit further : Nat → Search → Option (Bool × Search))
    (agrees : ∀ v search result, visit v search = some result → further v search = some result)
    (targets : List Nat) (search : Search) (result : Bool × Search)
    (scanned : scanEdges visit targets search = some result) :
    scanEdges further targets search = some result := by
  induction targets generalizing search with
  | nil => exact scanned
  | cons v rest ih =>
    unfold scanEdges at scanned ⊢
    dsimp only at scanned ⊢
    by_cases known : (search.visited v).getD false = true
    · rw [if_pos known] at scanned ⊢
      by_cases stacked : search.recursionStack v = true
      · rw [if_pos stacked] at scanned ⊢
        exact scanned
      · rw [if_neg stacked] at scanned ⊢
        exact ih _ scanned
    · rw [if_neg known] at scanned ⊢
      split at scanned
      · cases scanned
      · rename_i alarmed visited
        rw [agrees v _ _ visited]
        exact scanned
      · rename_i cleared visited
        rw [agrees v _ _ visited]
        exact ih _ scanned

/-- A search that ends within a depth does the same within a larger one. -/
theorem hasCycle_more (depth u : Nat) (search : Search) (result : Bool × Search)
    (returned : hasCycle depth u search = some result) : hasCycle (depth + 1) u search = some result := by
  induction depth generalizing u search result with
  | zero => cases returned
  | succ depth ih =>
    unfold hasCycle at returned ⊢
    by_cases missing : (search.visited u).isNone = true
    · rw [if_pos missing] at returned ⊢
      exact returned
    · rw [if_neg missing] at returned ⊢
      dsimp only at returned ⊢
      split at returned
      · cases returned
      · rename_i alarmed scanned
        rw [scanEdges_more _ _ ih _ _ _ scanned]
        exact returned
      · rename_i cleared scanned
        rw [scanEdges_more _ _ ih _ _ _ scanned]
        exact returned

/-- The search ends at whatever depth its calls are cut short, from a bound on. It tells whether a cycle can be
reached, and all lists of edges are as they were. -/
theorem cycle_detection_exact (graph : AList (fun _ : Nat => List Nat)) (startTx : Nat) :
    ∃ found search, detectDeadlock startTx graph = some (found,search) ∧
      (∀ depth, searchDepth graph ≤ depth → hasCycle depth startTx {
        graph := graph
        visited := fun txId => (graph.lookup txId).map (fun _ => false)
        recursionStack := fun _ => false} = some (found,search)) ∧
      (found = true ↔ ∃ x, ReflTransGen (WaitsFor graph) startTx x ∧ TransGen (WaitsFor graph) x x) ∧
      ∀ u, (search.graph.lookup u).getD [] = (graph.lookup u).getD [] := by
  obtain ⟨found,search,returned,-,exact⟩ := detectDeadlock_settles graph startTx
  refine ⟨found,search,returned,fun depth enough => ?_,exact,fun u => ?_⟩
  · induction depth, enough using Nat.le_induction with
    | base => exact returned
    | succ depth _ ih => exact hasCycle_more depth startTx _ _ ih
  · exact congrFun (hasCycle_edges _ startTx _ found search returned) u

end LoreDB.Transaction.LockManager
