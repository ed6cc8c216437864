import LoreDB.Query.Cypher.Sessions
import LoreDB.Query.Cypher.QueryOperations
import LoreDB.Storage.SeparatePages

/-! Pages over whole sessions. Neither operations nor queries ever write a page again or put two records on one. -/
namespace LoreDB.Query.Cypher
open LoreDB.Storage LoreDB.Storage.GraphHistory LoreDB.Storage.OpenStores LoreDB.Storage.SeparatePages
  LoreDB.Transaction LoreDB.Library.History GraphStore

/-- What operations and changes of the versions leave true of a store. -/
structure Lasting (lasts : Graph → Prop) : Prop where
  managed : ∀ store mvcc, lasts store → lasts {store with mvccManager := mvcc}
  performs : ∀ t operation store, lasts store → lasts (perform unhashed t store operation).2
  plains : ∀ operation store, lasts store → lasts (plain unhashed store operation)

section Queries

variable {lasts : Graph → Prop} (lasting : Lasting lasts)
include lasting

theorem manage_lasts (change : MVCCManager → MVCCManager) (db : Database) (holds : lasts db.graphStore) :
    lasts (db.manage change).graphStore := by
  unfold Database.manage
  split
  · exact lasting.managed db.graphStore _ holds
  · exact holds

omit lasting in
theorem chosen_lasts {α : Type} (transactional : Option (Except Error α) × Graph) (plain : Except Error α × Graph)
    (store : Graph) (first : lasts transactional.2) (second : lasts plain.2) :
    lasts (ExecutionContext.choose transactional plain store).2 := by
  unfold ExecutionContext.choose
  split
  · exact first
  · exact second

/-- A simulation keeps in addition what lasts on one side. -/
theorem simulates_lasts {idle : Graph → Graph → Prop} {busy : Nat → Nat → Graph → Graph → Prop}
    (simulates : Simulates idle busy) :
    Simulates (fun s s' => idle s s' ∧ lasts s) fun t u s s' => busy t u s s' ∧ lasts s where
  begins d e start := ⟨simulates.begins d e start.1,manage_lasts lasting _ d start.2⟩
  alike t u := {
    views := fun first second start => (simulates.alike t u).views first second start.1
    createNode := fun properties first second start => by
      obtain ⟨same,kept⟩ := (simulates.alike t u).createNode properties first second start.1
      exact ⟨same,kept,chosen_lasts _ _ first (lasting.performs t (.createNode properties) first start.2)
        (lasting.plains (.createNode properties) first start.2)⟩
    updateNode := fun nodeId properties first second start => by
      obtain ⟨same,kept⟩ := (simulates.alike t u).updateNode nodeId properties first second start.1
      exact ⟨same,kept,chosen_lasts _ _ first (lasting.performs t (.updateNode nodeId properties) first start.2)
        (lasting.plains (.updateNode nodeId properties) first start.2)⟩
    deleteNode := fun nodeId first second start => by
      obtain ⟨same,kept⟩ := (simulates.alike t u).deleteNode nodeId first second start.1
      exact ⟨same,kept,chosen_lasts _ _ first (lasting.performs t (.deleteNode nodeId) first start.2)
        (lasting.plains (.deleteNode nodeId) first start.2)⟩
    deleteEdge := fun edgeId first second start => by
      obtain ⟨same,kept⟩ := (simulates.alike t u).deleteEdge edgeId first second start.1
      exact ⟨same,kept,chosen_lasts _ _ first (lasting.performs t (.deleteEdge edgeId) first start.2)
        (lasting.plains (.deleteEdge edgeId) first start.2)⟩}
  commits t u d e start :=
    ⟨simulates.commits t u d e start.1,manage_lasts lasting _ _ (manage_lasts lasting _ d start.2)⟩
  aborts t u d e start :=
    ⟨simulates.aborts t u d e start.1,manage_lasts lasting _ _ (manage_lasts lasting _ d start.2)⟩

variable (library : StandardLibrary)

theorem query_lasts (versions : Bool) (db : Database) (query : Query) (kept : Kept versions db)
    (returned : (executeQuery (graphExecutors library) query db).1.isSome = true) (holds : lasts db.graphStore) :
    lasts (executeQuery (graphExecutors library) query db).2.graphStore := by
  cases versions with
  | true =>
    exact ((executeQuery_alike (simulates_lasts lasting versioned_simulates) library query db db ⟨⟨rfl,kept⟩,holds⟩).2 returned).2
  | false =>
    exact ((executeQuery_alike (simulates_lasts lasting unversioned_simulates) library query db db ⟨⟨rfl,kept⟩,holds⟩).2
      returned).2

end Queries

theorem pages_lasting (origin : FilePageStore) : Lasting (Lasts origin) where
  managed store mvcc holds := swapped_lasts holds mvcc store.walManager
  performs t operation store holds := places_lasts holds (perform_places unhashed t store operation)
  plains operation store holds := places_lasts holds (plain_places unhashed store operation)

section Sessions

variable (hash : Bytes → UInt64) (library : StandardLibrary)

theorem sessionStep_lasts (origin : FilePageStore) (versions : Bool) (db : Database) (call : SessionCall)
    (legal : SessionLegal library db call) (holds : Kept versions db ∧ Lasts origin db.graphStore) :
    Kept versions (sessionStep hash library db call) ∧ Lasts origin (sessionStep hash library db call).graphStore := by
  refine ⟨sessionStep_kept hash library versions db call legal holds.1,?_⟩
  cases call with
  | graph call => exact step_lasts holds.2 hash call
  | query query => exact query_lasts (pages_lasting origin) library versions db query holds.1 legal holds.2

/-- In a session no two records are ever on one page, and a page that has been handed out is never written again:
what operations and queries update or delete stays behind on its page. -/
theorem pages_last (file : Bytes) (versions : Bool) (wal : Option WALManager) (calls further : List SessionCall)
    (history : Guarded (sessionStep hash library) (SessionLegal library) (session file versions wal)
      (calls ++ further)) (db last : Database)
    (reached : db = run (sessionStep hash library) (session file versions wal) calls)
    (ended : last = run (sessionStep hash library) db further) :
    Separate last.graphStore ∧ ∀ page, FilePageStore.Allocated db.graphStore.pageStore page →
      FilePageStore.Allocated last.graphStore.pageStore page ∧
        (last.graphStore.pageStore.readPage page).1 = (db.graphStore.pageStore.readPage page).1 := by
  obtain ⟨early,others⟩ := (guarded_append _ calls further).mp history
  have steps (origin : FilePageStore) := fun db call => sessionStep_lasts hash library origin versions db call
  have opened : Kept versions (session file versions wal) ∧
      Lasts (FilePageStore.openFile file) (session file versions wal).graphStore :=
    ⟨session_kept file versions wal,opened_lasts _ _ wal⟩
  have middle := run_preserves _ (steps _) _ calls early opened
  rw [← reached] at middle others
  have lasts := (run_preserves _ (steps db.graphStore.pageStore) db further others
    ⟨middle.1,middle.2.separate,pages_refl _⟩).2
  rw [← ended] at lasts
  exact ⟨lasts.separate,lasts.pages⟩

end Sessions

/-- A node makes way for another one. -/
def createdCalls : List SessionCall := plainCalls [.createNode one]

def replacedCalls : List SessionCall := plainCalls [.deleteNode 1,.createNode []]

theorem pages_last_replaced :
    let step := sessionStep (fun _ => 0) stableLibrary
    let db := run step (session [7] false none) createdCalls
    let last := run step db replacedCalls
    pageIndex db.graphStore .node 1 = some 1 ∧ pageIndex last.graphStore .node 1 = none ∧
      pageIndex last.graphStore .node 2 = some 2 ∧
      (last.graphStore.pageStore.readPage 1).1 = (db.graphStore.pageStore.readPage 1).1 := by
  dsimp only
  have held : FilePageStore.Allocated (run (sessionStep (fun _ => 0) stableLibrary) (session [7] false none)
    createdCalls).graphStore.pageStore 1 := ⟨by decide +kernel,by decide +kernel⟩
  refine ⟨by decide +kernel,by decide +kernel,by decide +kernel,?_⟩
  exact ((pages_last (fun _ => 0) stableLibrary [7] false none createdCalls replacedCalls
    (plainCalls_legal _ _ [.createNode one,.deleteNode 1,.createNode []] _) _ _ rfl rfl).2 1 held).2

end LoreDB.Query.Cypher
