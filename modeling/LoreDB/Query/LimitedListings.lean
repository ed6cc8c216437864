import LoreDB.Query.NodeReads
import LoreDB.Storage.CountedNodes

/-! Listings with a limit. The limit bounds both the ids that are tried and the rows, so a listing goes wrong as
soon as an id up to the limit is missing and a larger one is there. -/
namespace LoreDB.Query.LimitedListings
open LoreDB.Storage LoreDB.Library LoreDB.Library.History GraphStore GraphHistory GraphRefinement
  Outlines CountedNodes

section Scans

variable {ρ : Type}

/-- The loop of a listing over the ids from one on, with the rows so far. It is cut short after some rounds. -/
def scan (row : UInt64 → Option ρ) (limit : UInt64) : Nat → UInt64 → List ρ → Option (List ρ)
  | 0, _, _ => none
  | rounds + 1, id, rows =>
    if id ≤ limit ∧ rows.length < limit.toNat then scan row limit rounds (id + 1) (rows ++ (row id).toList)
    else some rows

/-- All ids in increasing order. -/
def everyId : List UInt64 := (List.range (2 ^ 64)).map UInt64.ofNat

def triedIds (limit : UInt64) : List UInt64 := (List.range limit.toNat).map fun i => UInt64.ofNat (i + 1)

def largerIds (limit : UInt64) : List UInt64 :=
  (List.range (2 ^ 64 - (limit.toNat + 1))).map fun i => UInt64.ofNat (limit.toNat + 1 + i)

/-- The loop ends with the rows of the smallest ids that have one, as many as the limit allows. -/
def ListsSmallest (row : UInt64 → Option ρ) (limit : UInt64) : Prop :=
  ∃ rounds, scan row limit rounds 1 [] = some ((everyId.filterMap row).take limit.toNat)

theorem everyId_split (limit : UInt64) : everyId = 0::(triedIds limit ++ largerIds limit) := by
  have total : 2 ^ 64 = limit.toNat + 1 + (2 ^ 64 - (limit.toNat + 1)) := by
    have := limit.toNat_lt
    omega
  unfold everyId triedIds largerIds
  rw [total,List.range_add,List.range_succ_eq_map,Nat.add_sub_cancel_left]
  simp only [List.map_append,List.map_cons,List.map_map,List.cons_append]
  rfl

theorem scan_unique (row : UInt64 → Option ρ) (limit : UInt64) (first second : Nat) (id : UInt64)
    (rows one other : List ρ) (ends : scan row limit first id rows = some one)
    (again : scan row limit second id rows = some other) : one = other := by
  induction first generalizing second id rows with
  | zero => cases ends
  | succ first ih =>
    cases second with
    | zero => cases again
    | succ second =>
      unfold scan at ends again
      split at ends
      · rename_i more
        rw [if_pos more] at again
        exact ih second _ _ ends again
      · rename_i done
        rw [if_neg done] at again
        exact Option.some.inj (ends.symm.trans again)

/-- A counter that can pass the limit goes through all ids up to it. -/
theorem scan_ends (row : UInt64 → Option ρ) (limit : UInt64) (passes : limit.toNat + 1 < 2 ^ 64) (left k : Nat)
    (rest : k + left = limit.toNat) (rows : List ρ) (few : rows.length ≤ k) :
    scan row limit (left + 1) (UInt64.ofNat (k + 1)) rows =
      some (rows ++ ((List.range left).map fun i => UInt64.ofNat (k + i + 1)).filterMap row) := by
  induction left generalizing k rows with
  | zero =>
    have above : ¬UInt64.ofNat (k + 1) ≤ limit := by
      rw [UInt64.le_iff_toNat_le,UInt64.toNat_ofNat',Nat.mod_eq_of_lt (by omega)]
      omega
    rw [scan,if_neg fun more => above more.1]
    simp
  | succ left ih =>
    have below : UInt64.ofNat (k + 1) ≤ limit := by
      rw [UInt64.le_iff_toNat_le,UInt64.toNat_ofNat',Nat.mod_eq_of_lt (by omega)]
      omega
    have next : UInt64.ofNat (k + 1) + 1 = UInt64.ofNat (k + 1 + 1) := (UInt64.ofNat_add (k + 1) 1).symm
    have longer : (rows ++ (row (UInt64.ofNat (k + 1))).toList).length ≤ k + 1 := by
      rw [List.length_append]
      cases row (UInt64.ofNat (k + 1)) with
      | none => exact few.trans (Nat.le_succ k)
      | some found => exact Nat.succ_le_succ few
    rw [scan,if_pos ⟨below,by omega⟩,next,ih (k + 1) (by omega) _ longer,List.range_succ_eq_map,List.map_cons,
      List.filterMap_cons,List.map_map]
    have shifted : (fun i => UInt64.ofNat (k + i + 1)) ∘ Nat.succ = fun i => UInt64.ofNat (k + 1 + i + 1) := by
      funext i
      exact congrArg UInt64.ofNat (by simp only [Nat.succ_eq_add_one]; omega)
    rw [shifted,Nat.add_zero]
    cases row (UInt64.ofNat (k + 1)) <;> simp

/-- No counter passes the largest limit, so the loop goes on until there are as many rows. -/
theorem scan_largest (row : UInt64 → Option ρ) (limit : UInt64) (largest : limit.toNat + 1 = 2 ^ 64)
    (rounds : Nat) (id : UInt64) (rows result : List ρ) (ends : scan row limit rounds id rows = some result) :
    limit.toNat ≤ result.length := by
  induction rounds generalizing id rows with
  | zero => cases ends
  | succ rounds ih =>
    unfold scan at ends
    split at ends
    · exact ih _ _ ends
    · rename_i done
      have below : id ≤ limit := by
        rw [UInt64.le_iff_toNat_le]
        have := id.toNat_lt
        omega
      obtain rfl := Option.some.inj ends
      exact Nat.not_lt.mp fun fewer => done ⟨below,fewer⟩

theorem tried_mem (limit id : UInt64) : id ∈ triedIds limit ↔ 1 ≤ id ∧ id ≤ limit := by
  have bound := limit.toNat_lt
  unfold triedIds
  rw [List.mem_map,UInt64.le_iff_toNat_le,UInt64.le_iff_toNat_le]
  constructor
  · rintro ⟨i,below,rfl⟩
    rw [List.mem_range] at below
    rw [UInt64.toNat_ofNat',Nat.mod_eq_of_lt (by omega)]
    exact ⟨Nat.le_add_left 1 i,below⟩
  · rintro ⟨positive,below⟩
    change 1 ≤ id.toNat at positive
    refine ⟨id.toNat - 1,List.mem_range.mpr (by omega),?_⟩
    rw [Nat.sub_add_cancel positive,UInt64.ofNat_toNat]

theorem larger_mem (limit id : UInt64) : id ∈ largerIds limit ↔ ¬id ≤ limit := by
  have bound := limit.toNat_lt
  have size := id.toNat_lt
  unfold largerIds
  rw [List.mem_map,UInt64.le_iff_toNat_le]
  constructor
  · rintro ⟨i,below,rfl⟩
    rw [List.mem_range] at below
    rw [UInt64.toNat_ofNat',Nat.mod_eq_of_lt (by omega)]
    omega
  · intro above
    refine ⟨id.toNat - (limit.toNat + 1),List.mem_range.mpr (by omega),?_⟩
    rw [Nat.add_sub_cancel' (by omega),UInt64.ofNat_toNat]

/-- A prefix that is not too long is the part of that length exactly if it is that long or all there is. -/
theorem take_short {α : Type} (front back : List α) (n : Nat) (short : front.length ≤ n) :
    (front ++ back).take n = front ↔ front.length = n ∨ back = [] := by
  rw [List.take_append,List.take_of_length_le short,List.append_right_eq_self,List.take_eq_nil_iff]
  exact or_congr_left (by omega)

/-- Where neither the smallest nor the largest id has a row, a listing is right exactly if its counter can pass
the limit and no id with a row is larger, or all ids up to the limit have one. -/
theorem lists_exactly (row : UInt64 → Option ρ) (limit : UInt64) (zero : row 0 = none)
    (top : ∀ id : UInt64, id.toNat + 1 = 2 ^ 64 → row id = none) :
    ListsSmallest row limit ↔ limit.toNat + 1 < 2 ^ 64 ∧
      ((∀ id, row id ≠ none → id ≤ limit) ∨ ∀ id, 1 ≤ id → id ≤ limit → row id ≠ none) := by
  have bound := limit.toNat_lt
  have rows : everyId.filterMap row = (triedIds limit).filterMap row ++ (largerIds limit).filterMap row := by
    rw [everyId_split limit,List.filterMap_cons,zero,List.filterMap_append]
  have size : (triedIds limit).length = limit.toNat := by rw [triedIds,List.length_map,List.length_range]
  by_cases passes : limit.toNat + 1 < 2 ^ 64
  · have ends := scan_ends row limit passes limit.toNat 0 (Nat.zero_add _) [] (Nat.le_refl 0)
    simp only [Nat.zero_add,List.nil_append] at ends
    have exact : ListsSmallest row limit ↔
        (everyId.filterMap row).take limit.toNat = (triedIds limit).filterMap row := by
      constructor
      · rintro ⟨rounds,lists⟩
        exact scan_unique row limit rounds _ 1 [] _ _ lists ends
      · intro same
        exact ⟨_,same ▸ ends⟩
    have short : ((triedIds limit).filterMap row).length ≤ limit.toNat :=
      (List.length_filterMap_le _ _).trans_eq size
    rw [exact,rows,take_short _ _ _ short,and_iff_right passes,← size,List.filterMap_length_eq_length,
      List.filterMap_eq_nil_iff,Or.comm]
    refine or_congr ⟨fun empty id found => ?_,fun below id larger => ?_⟩ ⟨fun all id low high => ?_,
      fun all id tried => ?_⟩
    · exact not_not.mp fun above => found (empty id ((larger_mem limit id).mpr above))
    · exact not_not.mp fun found => (larger_mem limit id).mp larger (below id found)
    · exact Option.isSome_iff_ne_none.mp (all id ((tried_mem limit id).mpr ⟨low,high⟩))
    · obtain ⟨low,high⟩ := (tried_mem limit id).mp tried
      exact Option.isSome_iff_ne_none.mpr (all id low high)
  · have largest : limit.toNat + 1 = 2 ^ 64 := by omega
    refine iff_of_false ?_ fun both => passes both.1
    rintro ⟨rounds,lists⟩
    have many := scan_largest row limit largest rounds 1 [] _ lists
    have nothing : largerIds limit = [] := by
      rw [largerIds,largest]
      rfl
    have fewer : ((triedIds limit).filterMap row).length ≠ (triedIds limit).length := fun same => by
      have tried : limit ∈ triedIds limit := by
        rw [tried_mem,UInt64.le_iff_toNat_le]
        exact ⟨by change 1 ≤ limit.toNat; omega,UInt64.le_refl limit⟩
      have found := List.filterMap_length_eq_length.mp same limit tried
      rw [top limit largest] at found
      cases found
    have short := List.length_filterMap_le row (triedIds limit)
    rw [rows,nothing,List.filterMap_nil,List.append_nil,List.length_take] at many
    omega

end Scans

/-! The listings of the executor. -/

section Listings

def edgeRow (found : EdgeRecord × List Property) : List Bytes :=
  [Cypher.ascii (toString found.1.id.toNat),Cypher.ascii (toString found.1.fromNode.toNat),
    Cypher.ascii (toString found.1.toNode.toNat),
    (Cypher.ascii ", ").intercalate (found.2.map fun property =>
      property.key ++ Cypher.ascii ":" ++ QueryExecutor.propertyValueToString property.value)]

def readNodeRow (store : GraphStore FilePageStore) (id : NodeId) : Option (List Bytes) :=
  (getNode id store).1.toOption.map QueryExecutor.nodeRow

def readEdgeRow (store : GraphStore FilePageStore) (id : EdgeId) : Option (List Bytes) :=
  (getEdge id store).1.toOption.map edgeRow

def getAllNodes (limit : UInt64) (store : GraphStore FilePageStore) (rounds : Nat) : Option QueryResult :=
  (scan (readNodeRow store) limit rounds 1 []).map fun rows => {
    columns := [Cypher.ascii "id",Cypher.ascii "properties"]
    rows := rows}

def getAllEdges (limit : UInt64) (store : GraphStore FilePageStore) (rounds : Nat) : Option QueryResult :=
  (scan (readEdgeRow store) limit rounds 1 []).map fun rows => {
    columns := [Cypher.ascii "id",Cypher.ascii "from_node",Cypher.ascii "to_node",Cypher.ascii "properties"]
    rows := rows}

/-- Where its counter can pass the limit, the loop returns what the executor's listing does. -/
theorem getAllNodes_returns (limit : UInt64) (store : GraphStore FilePageStore) (passes : limit.toNat + 1 < 2 ^ 64) :
    ∃ rounds result, getAllNodes limit store rounds = some result ∧
      QueryExecutor.getAllNodes limit store = .value result := by
  have ends := scan_ends (readNodeRow store) limit passes limit.toNat 0 (Nat.zero_add _) [] (Nat.le_refl 0)
  simp only [Nat.zero_add,List.nil_append] at ends
  refine ⟨limit.toNat + 1,_,congrArg (Option.map _) ends,?_⟩
  rw [QueryExecutor.getAllNodes,if_neg (Nat.ne_of_lt passes)]
  unfold QueryExecutor.batchGetNodes QueryExecutor.nodesToResult
  rw [List.map_filterMap]
  rfl

def Live (kind : Kind) (store : GraphStore FilePageStore) (id : UInt64) : Prop :=
  ∃ found, (GraphHistory.get kind id store).1 = .ok found

/-- What a listing of one kind returns are the rows of the live ids, from the smallest on, up to the limit. -/
def ListsLive (store : GraphStore FilePageStore) (limit : UInt64) : Kind → Prop
  | .node => ∃ rounds, getAllNodes limit store rounds = some {
      columns := [Cypher.ascii "id",Cypher.ascii "properties"]
      rows := (everyId.filterMap (readNodeRow store)).take limit.toNat}
  | .edge => ∃ rounds, getAllEdges limit store rounds = some {
      columns := [Cypher.ascii "id",Cypher.ascii "from_node",Cypher.ascii "to_node",Cypher.ascii "properties"]
      rows := (everyId.filterMap (readEdgeRow store)).take limit.toNat}

theorem listsLive_rows (store : GraphStore FilePageStore) (limit : UInt64) :
    (ListsLive store limit .node ↔ ListsSmallest (readNodeRow store) limit) ∧
      (ListsLive store limit .edge ↔ ListsSmallest (readEdgeRow store) limit) := by
  constructor
  · refine exists_congr fun rounds => ?_
    rw [getAllNodes,Option.map_eq_some_iff]
    exact ⟨fun ⟨rows,ends,same⟩ => ends.trans (congrArg some (QueryResult.mk.inj same).2),
      fun ends => ⟨_,ends,rfl⟩⟩
  · refine exists_congr fun rounds => ?_
    rw [getAllEdges,Option.map_eq_some_iff]
    exact ⟨fun ⟨rows,ends,same⟩ => ends.trans (congrArg some (QueryResult.mk.inj same).2),
      fun ends => ⟨_,ends,rfl⟩⟩

theorem live_row (store : GraphStore FilePageStore) (id : UInt64) :
    (readNodeRow store id ≠ none ↔ Live .node store id) ∧
      (readEdgeRow store id ≠ none ↔ Live .edge store id) := by
  unfold readNodeRow readEdgeRow Live GraphHistory.get
  constructor
  · cases (getNode id store).1 with
    | error e => exact ⟨fun absent => absurd rfl absent,fun ⟨_,absurd⟩ => nomatch absurd⟩
    | ok found => exact ⟨fun _ => ⟨found,rfl⟩,fun _ => Option.some_ne_none _⟩
  · cases (getEdge id store).1 with
    | error e => exact ⟨fun absent => absurd rfl absent,fun ⟨_,absurd⟩ => nomatch absurd⟩
    | ok found => exact ⟨fun _ => ⟨found,rfl⟩,fun _ => Option.some_ne_none _⟩

/-- Ids are issued from 1 on. -/
structure Issued (o : Outline) : Prop where
  nodes : ∀ id, o.nodePageIndex id ≠ none → 0 < id ∧ id < o.nextNodeId
  edges : ∀ id, o.edgePageIndex id ≠ none → 0 < id ∧ id < o.nextEdgeId
  nextNode : 0 < o.nextNodeId
  nextEdge : 0 < o.nextEdgeId

theorem above_zero {next : UInt64} (last : next + 1 ≠ 0) : 0 < next + 1 := by
  rw [UInt64.lt_iff_toNat_lt,next_toNat next last]
  exact Nat.succ_pos _

theorem between_issued {next id : UInt64} (last : next + 1 ≠ 0) (between : 0 < id ∧ id < next) :
    0 < id ∧ id < next + 1 := ⟨between.1,next_above last (.inl between.2)⟩

/-- An index that names an id newly names one that has been issued. -/
theorem placed_issued (index : UInt64 → Option PageId) (next target : UInt64) (entry : Option PageId)
    (here : 0 < target ∧ target < next) (issued : ∀ id, index id ≠ none → 0 < id ∧ id < next) (id : UInt64)
    (named : Function.update index target entry id ≠ none) : 0 < id ∧ id < next := by
  by_cases same : id = target
  · exact same ▸ here
  · exact issued id (by rwa [Function.update_of_ne same] at named)

theorem plain_issued (hash : Bytes → UInt64) (store : GraphStore FilePageStore) (operation : Operation)
    (issued : Issued (outline store)) (last : Counts store.nextNodeId store.nextEdgeId operation) :
    Issued (outline (plain hash store operation)) := by
  obtain ⟨nodes,edges,nextNode,nextEdge⟩ := issued
  cases operation with
  | createNode properties =>
    have old (id : NodeId) (named : store.nodePageIndex id ≠ none) := between_issued last (nodes id named)
    obtain same | ⟨-,page,same⟩ := createNode_outline properties store
    · exact same ▸ ⟨old,edges,above_zero last,nextEdge⟩
    · exact same ▸ ⟨placed_issued _ _ store.nextNodeId page ⟨nextNode,next_above last (.inr rfl)⟩ old,edges,
        above_zero last,nextEdge⟩
  | updateNode id properties =>
    obtain same | ⟨placed,page,same⟩ := updateNode_outline id properties store
    · exact same ▸ ⟨nodes,edges,nextNode,nextEdge⟩
    · exact same ▸ ⟨placed_issued _ _ id page (nodes id placed) nodes,edges,nextNode,nextEdge⟩
  | deleteNode id =>
    obtain same | ⟨-,-,-,same⟩ := deleteNode_outline id store
    · exact same ▸ ⟨nodes,edges,nextNode,nextEdge⟩
    · exact same ▸ ⟨fun other kept => nodes other ((dropped_index ..).mp kept).2,edges,nextNode,nextEdge⟩
  | createEdge clock fromNode toNode label properties =>
    have old (id : EdgeId) (named : store.edgePageIndex id ≠ none) := between_issued last (edges id named)
    obtain same | ⟨page,same⟩ := createEdge_outline hash clock fromNode toNode label properties store
    · exact same ▸ ⟨nodes,old,nextNode,above_zero last⟩
    · exact same ▸ ⟨nodes,placed_issued _ _ store.nextEdgeId page ⟨nextEdge,next_above last (.inr rfl)⟩ old,
        nextNode,above_zero last⟩
  | updateEdge id properties =>
    obtain same | ⟨placed,page,same⟩ := updateEdge_outline id properties store
    · exact same ▸ ⟨nodes,edges,nextNode,nextEdge⟩
    · exact same ▸ ⟨nodes,placed_issued _ _ id page (edges id placed) edges,nextNode,nextEdge⟩
  | deleteEdge id =>
    obtain same | ⟨placed,fromNode,toNode,same⟩ := deleteEdge_outline id store
    · exact same ▸ ⟨nodes,edges,nextNode,nextEdge⟩
    · exact same ▸ ⟨nodes,placed_issued _ _ id none (edges id placed) edges,nextNode,nextEdge⟩

theorem reached_issued (hash : Bytes → UInt64) (mvcc : Option Transaction.MVCCManager) (wal : Option WALManager)
    (calls : List Operation) (last : Guarded (plain hash) Lasts (fresh mvcc wal) calls) :
    Issued (outline (run (plain hash) (fresh mvcc wal) calls)) := by
  refine run_preserves (fun store => Issued (outline store))
    (fun store operation last issued => plain_issued hash store operation issued last) _ calls last ?_
  exact ⟨fun _ named => absurd rfl named,fun _ named => absurd rfl named,(by decide : (0 : UInt64) < 1),
    (by decide : (0 : UInt64) < 1)⟩

variable {store : GraphStore FilePageStore}

theorem live_issued (issued : Issued (outline store)) (kind : Kind) (id : UInt64) (live : Live kind store id) :
    id ≠ 0 ∧ id.toNat + 1 ≠ 2 ^ 64 := by
  have between (next : UInt64) (issued : 0 < id ∧ id < next) : id ≠ 0 ∧ id.toNat + 1 ≠ 2 ^ 64 := by
    obtain ⟨positive,below⟩ := issued
    rw [UInt64.lt_iff_toNat_lt] at positive below
    have bound := next.toNat_lt
    refine ⟨fun zero => ?_,by omega⟩
    rw [zero] at positive
    exact Nat.lt_irrefl _ positive
  obtain ⟨found,read⟩ := live
  have placed := get_placed kind id store found read
  cases kind with
  | node => exact between _ (issued.nodes id placed)
  | edge => exact between _ (issued.edges id placed)

/-- No live record is skipped. -/
def Covered (store : GraphStore FilePageStore) (limit : UInt64) (kind : Kind) : Prop :=
  limit.toNat + 1 < 2 ^ 64 ∧
    ((∀ id, Live kind store id → id ≤ limit) ∨ ∀ id, 1 ≤ id → id ≤ limit → Live kind store id)

theorem issued_lists (issued : Issued (outline store)) (limit : UInt64) (kind : Kind) :
    ListsLive store limit kind ↔ Covered store limit kind := by
  have unlisted (row : UInt64 → Option (List Bytes)) (same : ∀ id, row id ≠ none ↔ Live kind store id) :
      ListsSmallest row limit ↔ Covered store limit kind := by
    rw [lists_exactly row limit]
    · simp only [same]
      rfl
    · exact not_not.mp fun found => (live_issued issued kind 0 ((same 0).mp found)).1 rfl
    · intro id largest
      exact not_not.mp fun found => (live_issued issued kind id ((same id).mp found)).2 largest
  cases kind with
  | node => exact (listsLive_rows store limit).1.trans (unlisted _ fun id => (live_row store id).1)
  | edge => exact (listsLive_rows store limit).2.trans (unlisted _ fun id => (live_row store id).2)

/-- After any operations a listing with a limit returns the live nodes, or edges, with the smallest ids exactly
if its counter can pass the limit, and no live id is larger or all ids up to the limit are live. -/
theorem listings_exact (hash : Bytes → UInt64) (mvcc : Option Transaction.MVCCManager) (wal : Option WALManager)
    (calls : List Operation) (last : Guarded (plain hash) Lasts (fresh mvcc wal) calls) (limit : UInt64)
    (kind : Kind) :
    ListsLive (run (plain hash) (fresh mvcc wal) calls) limit kind ↔
      Covered (run (plain hash) (fresh mvcc wal) calls) limit kind :=
  issued_lists (reached_issued hash mvcc wal calls last) limit kind

end Listings

/-- Of two nodes the first one goes again. -/
def gap : List Operation := [.createNode [],.createNode [],.deleteNode 1]

theorem gap_fits : Guarded (plain fun _ => 0) (Fits fun _ => 0) (fresh none none) gap :=
  short_guarded _ gap (fresh_represents none none) (by decide +kernel)

theorem gap_lasts : Guarded (plain fun _ => 0) Lasts (fresh none none) gap :=
  guarded_follows (fun _ => True) (fun _ _ _ => trivial) (fun _ _ _ fits => fits.1) _ gap trivial gap_fits

theorem listings_exact_gap :
    ListsLive (run (plain fun _ => 0) (fresh none none) gap) 2 .node ↔
      Covered (run (plain fun _ => 0) (fresh none none) gap) 2 .node :=
  listings_exact _ none none gap gap_lasts 2 .node

/-- A listing of one node finds none, though node 2 is there. -/
theorem gap_skipped : ¬ListsLive (run (plain fun _ => 0) (fresh none none) gap) 1 .node := by
  have represents := run_represents _ gap (fresh_represents none none) gap_fits
  rw [issued_lists (reached_issued _ none none gap gap_lasts)]
  have reads (id : NodeId) : (GraphHistory.get .node id (run (plain fun _ => 0) (fresh none none) gap)).1 =
    readNode (run (CountedGraph.step fun _ => 0) {} gap).graph id := represents.tells.nodes id
  rintro ⟨-,smaller | all⟩
  · exact absurd (smaller 2 ⟨({id := 2},[]),(reads 2).trans rfl⟩) (by decide)
  · obtain ⟨found,read⟩ := all 1 (UInt64.le_refl 1) (UInt64.le_refl 1)
    have missing : readNode (run (CountedGraph.step fun _ => 0) {} gap).graph 1 = nodeNotFound := rfl
    rw [reads,missing] at read
    cases read

end LoreDB.Query.LimitedListings
