import LoreDB.Library.History
import LoreDB.Storage.FilePageStore
import Mathlib.Data.Finset.Basic
import Mathlib.Logic.Function.Basic

/-! A page file over the lifetimes of several stores. The file keeps the images, but a new
store starts with an allocator that has issued no page. -/
namespace LoreDB.Storage.PageReopen
open LoreDB.Library FilePageStore

inductive Call where
  | allocate
  | write (page : PageId) (data : Bytes)
  | deallocate (iteration : Iteration) (page : PageId)
  | reopen

/-- A store, the pages that were handed out and not given back, and the last image written
to each page, as `write_page` completes it. -/
structure Session where
  store : FilePageStore := {}
  allocated : Finset PageId := ∅
  written : PageId → Option Bytes := fun _ => none

def step (session : Session) : Call → Session
  | .allocate =>
    match session.store.allocatePage with
    | (.ok page,store) => {session with store := store, allocated := insert page session.allocated}
    | (.error _,store) => {session with store := store}
  | .write page data =>
    match session.store.writePage page data with
    | (.ok (),store) => {session with
      store := store
      written := Function.update session.written page (some (sealed page data))}
    | (.error _,store) => {session with store := store}
  | .deallocate iteration page =>
    match session.store.deallocatePage iteration page with
    | (.ok (),store) => {session with store := store, allocated := session.allocated.erase page}
    | (.error _,store) => {session with store := store}
  | .reopen => {session with store := openFile session.store.file}

/-- Allocated pages read as they were last written, and the next page that is handed out
is not one of them. -/
structure Persistent (session : Session) : Prop where
  reads : ∀ page ∈ session.allocated, ∀ data, session.written page = some data →
    (session.store.readPage page).1 = .ok data
  fresh : ∀ page, session.store.allocatePage.1 = .ok page → page ∉ session.allocated

/-- A store is opened again only when no page is allocated. -/
def Allowed (session : Session) : Call → Prop
  | .reopen => session.allocated = ∅
  | _ => True

instance (session : Session) : (call : Call) → Decidable (Allowed session call)
  | .reopen => inferInstanceAs (Decidable (_ = _))
  | .allocate | .write _ _ | .deallocate _ _ => .isTrue trivial

structure Kept (session : Session) : Prop where
  isOpen : session.store.isClosed = false
  allocated : ∀ page ∈ session.allocated, Allocated session.store page
  images : ∀ page data, session.written page = some data → image session.store.file page = data

theorem allocate_kept (session : Session) (kept : Kept session) : Kept (step session .allocate) := by
  obtain ⟨isOpen,allocated,images⟩ := kept
  obtain ⟨closed,_⟩ | ⟨page,next,returned,closed,change⟩ := allocate_cases session.store
  · rw [isOpen] at closed
    contradiction
  · have taken : session.store.allocatePage.1 = .ok page := by rw [returned]
    have fresh := allocate_fresh session.store page taken
    rw [step,returned]
    constructor
    · exact closed.trans isOpen
    · intro other member
      rcases Finset.mem_insert.mp member with rfl | before
      · rw [returned] at fresh
        exact fresh.2
      · have held := (FilePageStore.allocate_keeps session.store other (allocated other before)).1
        rwa [returned] at held
    · intro other data last
      rw [← images other data last]
      obtain ⟨_,_,file⟩ | ⟨_,_,_,_,file⟩ := change
      · exact congrArg (image · other) file
      · exact (congrArg (image · other) file).trans (image_extended _ _ _)

theorem write_kept (session : Session) (page : PageId) (data : Bytes) (kept : Kept session) :
    Kept (step session (.write page data)) := by
  obtain ⟨isOpen,allocated,images⟩ := kept
  rcases write_cases page data session.store with ⟨e,failed⟩ | ⟨size,_,wrote⟩
  · rw [step,failed]
    exact ⟨isOpen,allocated,images⟩
  · rw [step,wrote]
    refine ⟨isOpen,allocated,fun other last found => ?_⟩
    dsimp only at found
    by_cases same : other = page
    · subst same
      rw [Function.update_self] at found
      rw [← Option.some.inj found]
      exact image_written _ _ _ (sealed_length other data size)
    · rw [Function.update_of_ne same] at found
      rw [← images other last found]
      exact image_overwritten _ _ _ _ (sealed_length page data size) same

theorem deallocate_kept (session : Session) (iteration : Iteration) (page : PageId)
    (kept : Kept session) : Kept (step session (.deallocate iteration page)) := by
  obtain ⟨isOpen,allocated,images⟩ := kept
  obtain ⟨e,failed⟩ | ⟨next,done,closed,issued,file,perm⟩ :=
    deallocate_cases iteration page session.store
  · rw [step,failed]
    exact ⟨isOpen,allocated,images⟩
  · rw [step,done]
    constructor
    · exact closed.trans isOpen
    · intro other member
      obtain ⟨different,before⟩ := Finset.mem_erase.mp member
      obtain ⟨valid,taken⟩ := allocated other before
      refine ⟨⟨valid.1,issued ▸ valid.2⟩,fun inside => ?_⟩
      rcases List.mem_cons.mp (perm.mem_iff.mp inside) with same | free
      · exact different same
      · exact taken free
    · intro other data last
      rw [← images other data last]
      exact congrArg (image · other) file

theorem step_kept (session : Session) (call : Call) (allowed : Allowed session call)
    (kept : Kept session) : Kept (step session call) := by
  cases call with
  | allocate => exact allocate_kept session kept
  | write page data => exact write_kept session page data kept
  | deallocate iteration page => exact deallocate_kept session iteration page kept
  | reopen =>
    have none : session.allocated = ∅ := allowed
    exact ⟨rfl,by simp [step,none],kept.images⟩

theorem kept_persistent (session : Session) (kept : Kept session) : Persistent session := by
  obtain ⟨isOpen,allocated,images⟩ := kept
  constructor
  · intro page member data last
    have valid := (allocated page member).1
    simp [readPage,isOpen,valid,images page data last]
  · intro page taken member
    exact (allocate_fresh session.store page taken).1 (allocated page member)

/-- As long as a store is opened again only when no page is allocated, every allocated page
reads as it was last written and none is handed out twice. -/
theorem pages_persist (calls : List Call) (allowed : History.Guarded step Allowed {} calls) :
    Persistent (History.run step {} calls) := by
  apply kept_persistent
  apply History.run_preserves Kept step_kept {} calls allowed
  exact ⟨rfl,by simp,by simp⟩

def first : Iteration := ⟨id,fun _ => .rfl⟩

theorem pages_persist_again : Persistent (History.run step {}
    [.allocate,.write 1 (List.replicate pageSize 7),.deallocate first 1,.reopen,.allocate]) := by
  apply pages_persist
  decide +kernel

/-- Behind a reopen the page cannot be read and is handed out again. -/
theorem reopen_forgets :
    let session := History.run step {} [.allocate,.write 1 (List.replicate pageSize 7),.reopen]
    (session.store.readPage 1).1 = .error ⟨.invalidArgument,"Invalid page ID"⟩ ∧
      session.store.allocatePage.1 = .ok 1 ∧ ¬Persistent session := by
  intro session
  have facts : (session.store.readPage 1).1 = .error ⟨.invalidArgument,"Invalid page ID"⟩ ∧
      session.store.allocatePage.1 = .ok 1 ∧ 1 ∈ session.allocated := by
    decide +kernel
  clear_value session
  obtain ⟨unread,taken,held⟩ := facts
  exact ⟨unread,taken,fun persistent => persistent.fresh 1 taken held⟩

-- with no page in use a store starts again with the first one
example : (History.run step {} [.allocate,.deallocate first 1,.reopen]).store.allocatePage.1 = .ok 1 := by
  decide +kernel

end LoreDB.Storage.PageReopen
