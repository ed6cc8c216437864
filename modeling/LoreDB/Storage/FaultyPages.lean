import LoreDB.Storage.KeptPages

/-! Page stores in which any call may fail. A failed allocation may take its page all the same, and a failed
write may leave anything on the page that it was to write, but on no other one. -/
namespace LoreDB.Storage.FaultyPages
open LoreDB.Transaction LoreDB.Library.History GraphStore GraphHistory Outlines KeptPages PageStore LawfulPageStore

variable {σ : Type} [LawfulPageStore σ]

/-- How a call fails. -/
structure Fault (σ : Type) [LawfulPageStore σ] where
  error : Error
  taken : Bool
  damage : PageId → σ → σ
  contained : ∀ target pages page, allocated pages page →
    allocated (damage target pages) page ∧ (page ≠ target →
      (readPage page (damage target pages)).1 = (readPage page pages).1)

/-- The pages, and which of the calls to come fail. -/
structure Faulty (σ : Type) [LawfulPageStore σ] where
  pages : σ
  faults : ℕ → Option (Fault σ)

namespace Faulty

/-- One call has been made. -/
def went (pages : σ) (store : Faulty σ) : Faulty σ := {pages := pages, faults := fun n => store.faults (n + 1)}

def allocatePage (store : Faulty σ) : Except Error PageId × Faulty σ :=
  match store.faults 0 with
  | none => ((PageStore.allocatePage store.pages).1,store.went (PageStore.allocatePage store.pages).2)
  | some fault =>
    (.error fault.error,store.went (if fault.taken then (PageStore.allocatePage store.pages).2 else store.pages))

def readPage (page : PageId) (store : Faulty σ) : Except Error Bytes × Faulty σ :=
  match store.faults 0 with
  | none => ((PageStore.readPage page store.pages).1,store.went (PageStore.readPage page store.pages).2)
  | some fault => (.error fault.error,store.went store.pages)

def writePage (page : PageId) (data : Bytes) (store : Faulty σ) : Except Error Unit × Faulty σ :=
  match store.faults 0 with
  | none => ((PageStore.writePage page data store.pages).1,store.went (PageStore.writePage page data store.pages).2)
  | some fault => (.error fault.error,store.went (fault.damage page store.pages))

def sync (store : Faulty σ) : Except Error Unit × Faulty σ :=
  match store.faults 0 with
  | none => ((PageStore.sync store.pages).1,store.went (PageStore.sync store.pages).2)
  | some fault => (.error fault.error,store.went store.pages)

instance : PageStore (Faulty σ) where
  allocatePage := allocatePage
  readPage := readPage
  writePage := writePage
  sync := sync

theorem allocate_keeps (store : Faulty σ) : PagesKept store.pages store.allocatePage.2.pages := by
  have allocates : PagesKept store.pages (PageStore.allocatePage store.pages).2 :=
    fun page held => LawfulPageStore.allocate_keeps store.pages page held
  unfold allocatePage
  split
  · exact allocates
  · dsimp only [went]
    split
    · exact allocates
    · exact pages_refl _

theorem allocate_fresh (store : Faulty σ) (page : PageId) (taken : store.allocatePage.1 = .ok page) :
    ¬allocated store.pages page ∧ allocated store.allocatePage.2.pages page := by
  unfold allocatePage at taken ⊢
  split at taken
  · exact LawfulPageStore.allocate_fresh store.pages page taken
  · cases taken

theorem read_keeps (page : PageId) (store : Faulty σ) : PagesKept store.pages (store.readPage page).2.pages := by
  unfold readPage
  split
  · exact fun other held => LawfulPageStore.read_keeps store.pages page other held
  · exact pages_refl _

theorem write_keeps (target : PageId) (data : Bytes) (store : Faulty σ) (page : PageId)
    (held : allocated store.pages page) :
    allocated (store.writePage target data).2.pages page ∧ (page ≠ target →
      (PageStore.readPage page (store.writePage target data).2.pages).1 =
        (PageStore.readPage page store.pages).1) := by
  unfold writePage
  split
  · exact LawfulPageStore.write_keeps store.pages target data page held
  · rename_i fault _
    exact fault.contained target store.pages page held

/-- What fails does not reach the pages that are in use. -/
theorem store_keeps (type : PageType) (serialized : Bytes) (store : GraphStore (Faulty σ)) :
    PagesKept store.pageStore.pages (storeRecord type serialized store).2.pageStore.pages ∧
      ∀ page, (storeRecord type serialized store).1 = .ok page →
        allocated (storeRecord type serialized store).2.pageStore.pages page := by
  have keeps := allocate_keeps store.pageStore
  have fresh := allocate_fresh store.pageStore
  unfold storeRecord
  cases taken : PageStore.allocatePage store.pageStore with
  | mk result pages =>
    rw [show store.pageStore.allocatePage = (result,pages) from taken] at keeps fresh
    cases result with
    | error e => exact ⟨keeps,fun _ absurd => nomatch absurd⟩
    | ok page =>
      obtain ⟨unused,held⟩ := fresh page rfl
      have writes := write_keeps page (pageImage page type serialized) pages
      dsimp only
      cases wrote : PageStore.writePage page (pageImage page type serialized) pages with
      | mk result last =>
        rw [show pages.writePage page (pageImage page type serialized) = (result,last) from wrote] at writes
        have kept : PagesKept store.pageStore.pages last.pages := by
          intro other earlier
          obtain ⟨present,same⟩ := keeps other earlier
          obtain ⟨still,unwritten⟩ := writes other present
          exact ⟨still,(unwritten fun same => unused (same ▸ earlier)).trans same⟩
        cases result with
        | error e => exact ⟨kept,fun _ absurd => nomatch absurd⟩
        | ok _ =>
          refine ⟨kept,fun other returned => ?_⟩
          cases returned
          exact (writes page held).1

end Faulty

/-- Pages in use keep what they hold, whatever fails. -/
def keeping : Keeping (Faulty σ) where
  kept before later := PagesKept before.pages later.pages
  held store := allocated store.pages
  refl store := pages_refl store.pages
  trans _ _ _ := pages_trans
  held_kept _ _ kept page held := (kept page held).1
  read page store := Faulty.read_keeps page store
  stored := Faulty.store_keeps

/-- The store as it answers when nothing fails. -/
def calm (store : GraphStore (Faulty σ)) : GraphStore σ := {store with pageStore := store.pageStore.pages}

/-- Whatever fails in an operation or has failed before it, an operation that reports an error changes nothing
that can be read. -/
theorem failed_unseen (hash : Bytes → UInt64) (pages : Faulty σ) (mvcc : Option MVCCManager)
    (wal : Option WALManager) (calls : List Call) (operation : Operation) (e : Error)
    (failed : GraphRefinement.answer hash (after hash (started pages mvcc wal) calls) operation = .error e) :
    Unseen (calm (after hash (started pages mvcc wal) calls))
      (calm (plain hash (after hash (started pages mvcc wal) calls) operation)) := by
  have placed : KeptPages.Placed keeping (after hash (started pages mvcc wal) calls) := by
    refine run_keeps _ (step_placed hash) _ calls fun kind id page found => ?_
    cases kind <;> cases found
  generalize after hash (started pages mvcc wal) calls = store at failed placed ⊢
  obtain ⟨nodeId,edgeId,same⟩ := failed_outline hash store operation e failed
  have kept : Kept keeping store _ := plain_keeps hash store operation
  refine unseen_outline (fun kind id page found => ?_) kept.pages nodeId edgeId same
  cases kind with
  | node => exact placed .node id page found
  | edge => exact placed .edge id page found

/-- A write that leaves zeros on its page and reports an error. -/
def tear : Fault σ where
  error := ⟨.ioError,"Failed to write page"⟩
  taken := false
  damage page pages := (PageStore.writePage page (List.replicate pageSize 0) pages).2
  contained target pages page held := LawfulPageStore.write_keeps pages target _ page held

/-- On a new file the second call fails, which is to write the record of the first node. -/
theorem failed_unseen_torn :
    let pages : Faulty FilePageStore := {
      pages := .openFile []
      faults := fun n => if n = 1 then some tear else none}
    let store := after (fun _ => 0) (started pages none none) []
    GraphRefinement.answer (fun _ => 0) store (.createNode []) = .error ⟨.ioError,"Failed to write page"⟩ ∧
      Unseen (calm store) (calm (plain (fun _ => 0) store (.createNode []))) :=
  ⟨rfl,failed_unseen _ _ _ _ [] _ _ rfl⟩

end LoreDB.Storage.FaultyPages
