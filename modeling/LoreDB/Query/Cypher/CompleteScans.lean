import LoreDB.Query.Cypher.GraphViews
import LoreDB.Query.Cypher.NodeScans
import LoreDB.Storage.CountedNodes

/-! Which nodes a scan finds. It finds all that its query sees as long as no node with a larger id
than the number counted is kept. -/
namespace LoreDB.Query.Cypher
open LoreDB.Transaction LoreDB.Library LoreDB.Library.History LoreDB.Storage LoreDB.Storage.GraphStore
  LoreDB.Storage.GraphHistory LoreDB.Storage.Outlines LoreDB.Storage.CountedNodes
  LoreDB.Storage.GraphRefinement

/-- A query reads a node under the id, and its properties satisfy the pattern. -/
def Fulfils (node : Node) (view : View) (id : NodeId) : Prop :=
  ∃ found, view.node id = some found ∧ matchesPropertyConstraints node.properties found.2 = true

/-- The scan returns the ids of exactly the nodes that are read and satisfy the pattern, each once. -/
def FindsAll (node : Node) (view : View) : Prop :=
  ∃ ids, findNodesByPattern node view = .value ids ∧ ids.Nodup ∧ ∀ id, id ∈ ids ↔ Fulfils node view id

theorem matchesNode_iff (node : Node) (view : View) (id : NodeId) :
    matchesNodePattern node id view = true ↔ Fulfils node view id := by
  rw [matchesNodePattern,Option.any_eq_true]
  rfl

theorem finds_iff (node : Node) (view : View) : FindsAll node view ↔
    view.nodeCount.toNat + 1 ≠ 2 ^ 64 ∧
      ∀ id, Fulfils node view id → 1 ≤ id.toNat ∧ id.toNat ≤ view.nodeCount.toNat := by
  constructor
  · rintro ⟨ids,returned,-,exact⟩
    obtain ⟨passes,rfl⟩ := (scan_value node ids).mp returned
    exact ⟨passes,fun id fulfils => ((mem_scannedIds node id).mp ((exact id).mpr fulfils)).1⟩
  · rintro ⟨passes,counted⟩
    refine ⟨_,scan_ends node passes,nodup_scannedIds node,fun id => ?_⟩
    rw [mem_scannedIds,matchesNode_iff]
    exact and_iff_right_of_imp (counted id)

theorem ok_of_toOption {ε α : Type} {result : Except ε α} {a : α} (some : result.toOption = some a) :
    result = .ok a := by
  cases result with
  | error e => cases some
  | ok b => exact congrArg Except.ok (Option.some.inj some)

/-- A record is read from its page, or from a version that is one of a record of its kind. -/
theorem read_told (kind : Kind) (txId : Nat) (store : GraphStore FilePageStore) (id : UInt64)
    (found : kind.Record × List Property) (read : (if ExecutionContext.hasMvcc store then
      getTx kind txId id store else GraphHistory.get kind id store).1.toOption = some found) :
    (GraphHistory.get kind id store).1 = .ok found ∨
      ∃ v ∈ (mvcc store).chain id, kind.pick v.data = some found.1 := by
  cases enabled : store.mvccManager with
  | none =>
    rw [ExecutionContext.hasMvcc,enabled] at read
    exact .inl (ok_of_toOption read)
  | some manager =>
    have kept : store.mvccManager = some (mvcc store) := by rw [mvcc,enabled]; rfl
    rw [ExecutionContext.hasMvcc,enabled,Option.isSome_some,if_pos rfl,
      (getTx_spec kind txId id store kept).1] at read
    cases newest : VersionChain.newest (isVersionVisible (mvcc store).txnManager txId)
        ((mvcc store).chain id) with
    | none =>
      rw [newest] at read
      cases read
    | some version =>
      rw [newest,told] at read
      cases picked : kind.pick version.data with
      | none =>
        rw [picked] at read
        exact .inl (ok_of_toOption read)
      | some record =>
        rw [picked] at read
        obtain rfl := Option.some.inj read
        exact .inr ⟨version,(VersionChain.newest_mem _ _ _ newest).1,picked⟩

theorem seen_kept (txId : Nat) (store : GraphStore FilePageStore) (id : NodeId)
    (found : NodeRecord × List Property) (read : (ExecutionContext.view txId store).node id = some found) :
    (outline store).nodePageIndex id ≠ none ∨ NodeVersion store id := by
  rcases read_told .node txId store id found read with paged | ⟨v,member,node⟩
  · exact .inl (get_placed .node id store found paged)
  · exact .inr ⟨v,member,Option.ne_none_iff_exists'.mpr ⟨_,node⟩⟩

theorem covered_finds (store : GraphStore FilePageStore)
    (covered : Covered (outline store) (NodeVersion store)) (txId : Nat) (node : Node) :
    FindsAll node (ExecutionContext.view txId store) := by
  refine (finds_iff node _).mpr ⟨covered.passes,?_⟩
  rintro id ⟨found,read,-⟩
  exact covered.ids id (seen_kept txId store id found read)

/-- A new store, with or without versions. -/
def startedWith (pages : FilePageStore) (versions : Bool) (wal : Option WALManager) :
    GraphStore FilePageStore :=
  started pages (if versions then some {} else none) wal

theorem started_covered (pages : FilePageStore) (versions : Bool) (wal : Option WALManager) :
    Covered (outline (startedWith pages versions wal)) (NodeVersion (startedWith pages versions wal)) where
  ids id kept := by
    rcases kept with placed | ⟨version,member,-⟩
    · exact absurd rfl placed
    · cases versions <;> cases member
  passes := by
    change (0 : UInt64).toNat + 1 ≠ 2 ^ 64
    decide

theorem counted_finds (hash : Bytes → UInt64) (pages : FilePageStore) (versions : Bool) (wal : Option WALManager)
    (calls : List Call) (counted : Guarded (GraphHistory.step hash) Counted (startedWith pages versions wal) calls)
    (txId : Nat) (node : Node) :
    FindsAll node (ExecutionContext.view txId (after hash (startedWith pages versions wal) calls)) := by
  have covered := run_preserves (fun store => Covered (outline store) (NodeVersion store))
    (fun store call counted covered => step_covers hash store call covered counted) _ calls counted
    (started_covered pages versions wal)
  exact covered_finds _ covered txId node

/-- In every state of a run whose creations and deletions come in turn, every scan of every query finds
the nodes that the query reads. -/
theorem scans_complete (hash : Bytes → UInt64) (pages : FilePageStore) (versions : Bool)
    (wal : Option WALManager) (calls : List Call)
    (counted : Guarded (GraphHistory.step hash) Counted (startedWith pages versions wal) calls) :
    Always (GraphHistory.step hash)
      (fun store => ∀ txId node, FindsAll node (ExecutionContext.view txId store))
      (startedWith pages versions wal) calls :=
  always_follows (fun store => Covered (outline store) (NodeVersion store))
    (fun store call counted covered => step_covers hash store call covered counted) covered_finds _ calls counted
    (started_covered pages versions wal)

theorem scans_complete_one :
    Always (GraphHistory.step fun _ => 0)
      (fun store => ∀ txId node, FindsAll node (ExecutionContext.view txId store))
      (startedWith (FilePageStore.openFile []) false none) [.plain (.createNode [])] := by
  refine scans_complete (fun _ => 0) (FilePageStore.openFile []) false none _ ⟨?_,trivial⟩
  rintro _ rfl -
  exact ⟨⟨by decide,by decide⟩,by decide⟩

/-- Two nodes, of which the first one is deleted. -/
def firstDeleted : List Operation := [.createNode [],.createNode [],.deleteNode 1]

/-- The node that is left has the id 2, and the scan ends with 1. -/
theorem second_missed : ¬FindsAll {} (ExecutionContext.view 1
    (after (fun _ => 0) (startedWith (FilePageStore.openFile []) false none)
      (firstDeleted.map Call.plain))) := by
  have empty : Holds (fresh none none) {} := ⟨fresh_represents none none,rfl⟩
  have short : Guarded (CountedGraph.step fun _ => 0) Short {} firstDeleted := by decide +kernel
  have one := plain_holds (fun _ => 0) (.createNode []) empty short.1
  have two := plain_holds (fun _ => 0) (.createNode []) one short.2.1
  have left := run_holds (fun _ => 0) firstDeleted empty short
  have count : (run (plain fun _ => 0) (fresh none none) firstDeleted).nodeCount = 1 := by
    rw [firstDeleted,run_cons,run_cons,run_cons,run_nil,deleteNode_counts _ 1 two rfl rfl,
      createNode_counts _ _ one,createNode_counts _ _ empty]
    rfl
  change ¬FindsAll {} (ExecutionContext.view 1 (run (plain fun _ => 0) (fresh none none) firstDeleted))
  rw [view_holds 1 left,count,finds_iff]
  rintro ⟨-,counted⟩
  have beyond := (counted 2 ⟨(nodeRecord 2 [],[]),by decide +kernel,rfl⟩).2
  exact absurd beyond (by decide)

end LoreDB.Query.Cypher
