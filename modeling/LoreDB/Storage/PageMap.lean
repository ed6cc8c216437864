import LoreDB.Library.History
import LoreDB.Storage.FilePageStore
import Mathlib.Data.Finset.Basic
import Mathlib.Logic.Function.Basic

/-! What a page file is for: a map from page numbers to images, and a set of pages in use.
One flat file, a counter and the set of free pages keep them in every order of calls. -/
namespace LoreDB.Storage.PageMap
open LoreDB.Library LoreDB.Library.ByteStream FilePageStore

inductive Call where
  | allocate
  | deallocate (iteration : Iteration) (page : PageId)
  | write (page : PageId) (data : Bytes)
  | read (page : PageId)

/-- A store on an empty file, with the pages that were handed out and not given back, and the
images that were written last, all as its answers tell. -/
structure Session where
  store : FilePageStore := openFile []
  allocated : Finset PageId := ∅
  written : PageId → Option Bytes := fun _ => none

def step (session : Session) : Call → Session
  | .allocate =>
    match session.store.allocatePage with
    | (.ok page,store) => {session with store := store, allocated := insert page session.allocated}
    | (.error _,store) => {session with store := store}
  | .deallocate iteration page =>
    match session.store.deallocatePage iteration page with
    | (.ok (),store) => {session with store := store, allocated := session.allocated.erase page}
    | (.error _,store) => {session with store := store}
  | .write page data =>
    match session.store.writePage page data with
    | (.ok (),store) =>
      {session with store := store, written := Function.update session.written page (some data)}
    | (.error _,store) => {session with store := store}
  | .read page => {session with store := (session.store.readPage page).2}

/-- The bytes of the magic number, the checksum and the page id. -/
def HeaderField (i : Nat) : Prop := i < 4 ∨ 12 ≤ i ∧ i < 16 ∨ 24 ≤ i ∧ i < 32

instance (i : Nat) : Decidable (HeaderField i) := inferInstanceAs (Decidable (_ ∨ _))

theorem overwrite_elsewhere (data : Bytes) (position : Nat) (bytes : Bytes) (i : Nat)
    (elsewhere : i < position ∨ position + bytes.length ≤ i)
    (fits : position + bytes.length ≤ data.length) :
    (overwrite data position bytes)[i]? = data[i]? := by
  have length := overwrite_length data position bytes
  by_cases here : i < data.length
  · have same := overwrite_getD data position bytes i elsewhere
    rw [List.getD_eq_getElem?_getD,List.getD_eq_getElem?_getD,
      List.getElem?_eq_getElem (by omega),List.getElem?_eq_getElem here] at same
    rw [List.getElem?_eq_getElem (by omega),List.getElem?_eq_getElem here]
    exact congrArg some same
  · rw [List.getElem?_eq_none (by omega),List.getElem?_eq_none (by omega)]

theorem sealed_elsewhere (page : PageId) (data : Bytes) (size : data.length = pageSize) (i : Nat)
    (outside : ¬HeaderField i) : (sealed page data)[i]? = data[i]? := by
  have bounds : 4 ≤ i ∧ (i < 12 ∨ 16 ≤ i) ∧ (i < 24 ∨ 32 ≤ i) := by
    unfold HeaderField at outside
    omega
  have lengths : data.length = 4096 := size
  simp only [sealed]
  rw [overwrite_elsewhere,overwrite_elsewhere,overwrite_elsewhere,overwrite_elsewhere] <;>
    simp only [overwrite_length,littleEndian_length,lengths] <;> omega

/-- The free pages and one more issued page are no more than were issued. -/
theorem free_fewer (store : FilePageStore) (page : PageId) (held : Allocated store page) :
    store.freePages.length + 1 ≤ store.getPageCount := by
  have nodup : (page::store.freePages).Nodup := List.nodup_cons.mpr ⟨held.2,store.free_nodup⟩
  have inside : (page::store.freePages) ⊆ List.range' 1 store.getPageCount := by
    intro other member
    have issued : Valid other store := by
      rcases List.mem_cons.mp member with rfl | free
      · exact held.1
      · exact store.free_issued other free
    refine List.mem_range'_1.mpr ⟨issued.1,?_⟩
    have below : other - 1 < store.getPageCount := Nat.sub_lt_sub_right issued.1 issued.2
    exact (Nat.sub_lt_iff_lt_add' issued.1).mp below
  have fewer := (nodup.subperm inside).length_le
  rwa [List.length_cons,List.length_range'] at fewer

/-- An open store hands out one page that was not in use, and every other page stays as it is. -/
theorem allocate_exact (store : FilePageStore) (isOpen : store.isClosed = false) :
    ∃ page next, store.allocatePage = (.ok page,next) ∧ page ≠ 0 ∧ ¬Allocated store page ∧
      (∀ other, Allocated next other ↔ other = page ∨ Allocated store other) ∧
      next.isClosed = false ∧ next.getAllocatedPages = store.getAllocatedPages + 1 ∧
      next.freePages.length + store.getPageCount + 1 = store.freePages.length + next.getPageCount ∧
      ∀ other, image next.file other = image store.file other := by
  have fresh := allocate_fresh store
  have counts : store.allocatePage.2.getAllocatedPages = store.getAllocatedPages + 1 := by
    unfold allocatePage
    rw [if_neg (by simp [isOpen])]
    split <;> rfl
  obtain ⟨closed,_⟩ | ⟨page,next,returned,closed,change⟩ := allocate_cases store
  · exact absurd closed (by simp [isOpen])
  rw [returned] at fresh counts
  obtain ⟨unused,used⟩ := fresh page rfl
  refine ⟨page,next,returned,Nat.ne_of_gt used.1.1,unused,fun other => ?_,closed.trans isOpen,counts,?_⟩
  · obtain ⟨free,same,_⟩ | ⟨free,none,rfl,more,_⟩ := change
    · have nodup : page ∉ next.freePages := (List.nodup_cons.mp (free ▸ store.free_nodup)).1
      unfold Allocated Valid
      rw [free,same,List.mem_cons]
      constructor
      · rintro ⟨valid,taken⟩
        by_cases here : other = page
        · exact .inl here
        · exact .inr ⟨valid,by simp [here,taken]⟩
      · rintro (rfl | ⟨valid,taken⟩)
        · exact ⟨same ▸ used.1,nodup⟩
        · exact ⟨valid,fun member => taken (.inr member)⟩
    · unfold Allocated Valid
      rw [free,none,more]
      constructor
      · rintro ⟨⟨positive,below⟩,_⟩
        rcases Nat.lt_or_eq_of_le (Nat.le_of_lt_succ below) with before | here
        · exact .inr ⟨⟨positive,before⟩,List.not_mem_nil⟩
        · exact .inl here
      · rintro (rfl | ⟨⟨positive,below⟩,_⟩)
        · exact ⟨⟨store.next_positive,Nat.lt_succ_self _⟩,List.not_mem_nil⟩
        · exact ⟨⟨positive,Nat.lt_succ_of_lt below⟩,List.not_mem_nil⟩
  · have positive := store.next_positive
    unfold getPageCount
    obtain ⟨free,same,file⟩ | ⟨free,none,_,more,file⟩ := change
    · refine ⟨?_,fun other => by rw [file]⟩
      rw [free,same,List.length_cons]
      omega
    · refine ⟨?_,fun other => by rw [file,image_extended]⟩
      rw [free,none,more,Nat.add_sub_cancel]
      have := Nat.sub_add_cancel positive
      omega

/-- A page is given back exactly when it is in use. -/
theorem deallocate_exact (iteration : Iteration) (page : PageId) (store : FilePageStore)
    (isOpen : store.isClosed = false) :
    (¬Allocated store page ∧ ∃ e, store.deallocatePage iteration page = (.error e,store)) ∨
    Allocated store page ∧ ∃ next, store.deallocatePage iteration page = (.ok (),next) ∧
      (∀ other, Allocated next other ↔ other ≠ page ∧ Allocated store other) ∧
      next.isClosed = false ∧ next.getAllocatedPages = store.getAllocatedPages - 1 ∧
      next.freePages.length = store.freePages.length + 1 ∧
      next.getPageCount = store.getPageCount ∧ next.file = store.file := by
  unfold deallocatePage
  rw [if_neg (by simp [isOpen])]
  split
  · rename_i invalid
    exact .inl ⟨fun held => invalid held.1,_,rfl⟩
  · rename_i valid
    split
    · rename_i free
      exact .inl ⟨fun held => held.2 free,_,rfl⟩
    · rename_i taken
      refine .inr ⟨⟨not_not.mp valid,taken⟩,_,rfl,fun other => ?_,isOpen,rfl,?_,rfl,rfl⟩
      · have member := (iteration.perm (page::store.freePages)).mem_iff (a := other)
        unfold Allocated Valid
        dsimp only
        rw [member,List.mem_cons]
        tauto
      · exact (iteration.perm _).length_eq

structure Kept (session : Session) : Prop where
  isOpen : session.store.isClosed = false
  held : ∀ page, page ∈ session.allocated ↔ Allocated session.store page
  counted : session.store.getAllocatedPages + session.store.freePages.length =
    session.store.getPageCount
  images : ∀ page, image session.store.file page =
    (session.written page).elim (List.replicate pageSize 0) (sealed page)
  sizes : ∀ page data, session.written page = some data → data.length = pageSize

theorem kept_start : Kept {} where
  isOpen := rfl
  held page := by
    constructor
    · exact fun member => absurd member (Finset.notMem_empty page)
    · rintro ⟨⟨positive,below⟩,_⟩
      exact absurd positive (Nat.not_lt.mpr (Nat.le_of_lt_succ below))
  counted := rfl
  images page := by
    apply List.ext_getElem
    · simp [image]
    · intro i left right
      simp [image,openFile]
  sizes page data written := by cases written

theorem kept_allocate (session : Session) (kept : Kept session) : Kept (step session .allocate) := by
  obtain ⟨page,next,returned,_,_,held,isOpen,counts,free,images⟩ :=
    allocate_exact session.store kept.isOpen
  have counted := kept.counted
  simp only [step,returned]
  refine ⟨isOpen,fun other => ?_,?_,fun other => ?_,kept.sizes⟩
  · rw [held,Finset.mem_insert,kept.held]
  · change next.getAllocatedPages + next.freePages.length = next.getPageCount
    omega
  · rw [images,kept.images]

theorem kept_deallocate (session : Session) (iteration : Iteration) (page : PageId)
    (kept : Kept session) : Kept (step session (.deallocate iteration page)) := by
  obtain ⟨_,e,failed⟩ | ⟨used,next,returned,held,isOpen,counts,free,issued,file⟩ :=
    deallocate_exact iteration page session.store kept.isOpen
  · simp only [step,failed]
    exact kept
  · have fewer := free_fewer session.store page used
    have counted := kept.counted
    simp only [step,returned]
    refine ⟨isOpen,fun other => ?_,?_,fun other => ?_,kept.sizes⟩
    · rw [held,Finset.mem_erase,kept.held]
    · change next.getAllocatedPages + next.freePages.length = next.getPageCount
      omega
    · rw [file,kept.images]

theorem kept_write (session : Session) (page : PageId) (data : Bytes) (kept : Kept session) :
    Kept (step session (.write page data)) := by
  rcases write_cases page data session.store with ⟨e,failed⟩ | ⟨size,_,wrote⟩
  · simp only [step,failed]
    exact kept
  · have length := sealed_length page data size
    simp only [step,wrote]
    refine ⟨kept.isOpen,kept.held,kept.counted,fun other => ?_,fun other image written => ?_⟩
    · by_cases same : other = page
      · subst same
        simp [image_written _ _ _ length]
      · rw [image_overwritten _ _ _ _ length same,kept.images]
        simp [Function.update_of_ne same]
    · change Function.update session.written page (some data) other = some image at written
      by_cases same : other = page
      · subst same
        simp only [Function.update_self,Option.some.injEq] at written
        exact written ▸ size
      · rw [Function.update_of_ne same] at written
        exact kept.sizes other image written

theorem kept_read (session : Session) (page : PageId) (kept : Kept session) :
    Kept (step session (.read page)) := by
  simp only [step,read_keeps]
  exact kept

theorem kept_step (session : Session) (call : Call) (kept : Kept session) :
    Kept (step session call) := by
  cases call with
  | allocate => exact kept_allocate session kept
  | deallocate iteration page => exact kept_deallocate session iteration page kept
  | write page data => exact kept_write session page data kept
  | read page => exact kept_read session page kept

theorem kept_run (calls : List Call) : Kept (History.run step ({} : Session) calls) :=
  History.run_keeps Kept kept_step {} calls kept_start

/-- Every successful read finds the zeros a page starts with, or the last written bytes with the
header fields filled in, whatever was done to this page and the others in between. -/
theorem reads_last_image (calls : List Call) (page : PageId) (bytes : Bytes)
    (read : ((History.run step ({} : Session) calls).store.readPage page).1 = .ok bytes) :
    ((History.run step ({} : Session) calls).written page = none →
      bytes = List.replicate pageSize 0) ∧
    ∀ data, (History.run step ({} : Session) calls).written page = some data →
      bytes = sealed page data ∧ ∀ i, ¬HeaderField i → bytes[i]? = data[i]? := by
  have kept := kept_run calls
  have found : bytes = image (History.run step ({} : Session) calls).store.file page := by
    unfold readPage at read
    rw [if_neg (by simp [kept.isOpen])] at read
    split at read
    · cases read
    · exact (Except.ok.inj read).symm
  rw [kept.images] at found
  constructor
  · intro untouched
    rw [found,untouched,Option.elim_none]
  · intro data written
    rw [written,Option.elim_some] at found
    rw [found]
    exact ⟨rfl,sealed_elsewhere page data (kept.sizes page data written)⟩

/-- A page that was written, freed and issued again still reads as it was written. -/
theorem reads_last_image_reissued :
    let data := List.replicate pageSize 7
    let calls := [Call.allocate,.write 1 data,.deallocate ⟨id,fun _ => .refl _⟩ 1,.allocate]
    ∃ bytes, ((History.run step ({} : Session) calls).store.readPage 1).1 = .ok bytes ∧
      bytes[40]? = some 7 := by
  intro data calls
  have size : data.length = pageSize := List.length_replicate
  have wrote := write_succeeds 1 data (openFile []).allocatePage.2 size rfl (by decide)
  let second : Session := step (step {} .allocate) (.write 1 data)
  have begun : ∃ file, second = {
      store := {(openFile []).allocatePage.2 with file := file}
      allocated := {1}
      written := Function.update (fun _ => none) 1 (some data)} := by
    have issued : step {} .allocate =
        {store := (openFile []).allocatePage.2, allocated := {1}} := rfl
    refine ⟨overwrite (openFile []).allocatePage.2.file (1 * pageSize) (sealed 1 data),?_⟩
    change step (step {} .allocate) (.write 1 data) = _
    rw [issued]
    simp only [step,wrote]
  obtain ⟨file,begun⟩ := begun
  have ends : History.run step ({} : Session) calls =
      step (step second (.deallocate ⟨id,fun _ => .refl _⟩ 1)) .allocate := by
    simp only [calls,second,History.run_cons,History.run_nil]
  rw [begun] at ends
  have read : ((History.run step ({} : Session) calls).store.readPage 1).1 = .ok (image file 1) := by
    rw [ends]
    rfl
  have last : (History.run step ({} : Session) calls).written 1 = some data := by
    rw [ends]
    rfl
  have same := ((reads_last_image calls 1 _ read).2 data last).2 40 (by decide)
  refine ⟨_,read,same.trans ?_⟩
  rw [List.getElem?_eq_getElem (by rw [size]; decide),List.getElem_replicate]

/-- The counter, the free set and the answers agree on which pages are in use. -/
theorem allocation_invariant (calls : List Call) :
    let session := History.run step ({} : Session) calls
    (∀ page ∈ session.store.freePages, 1 ≤ page ∧ page ≤ session.store.nextPageId - 1) ∧
    session.store.getAllocatedPages + session.store.freePages.length = session.store.getPageCount ∧
    (∃ page, session.store.allocatePage.1 = .ok page ∧ page ≠ 0 ∧ page ∉ session.allocated) ∧
    ∀ iteration page,
      ((session.store.deallocatePage iteration page).1 = .ok () ↔ page ∈ session.allocated) ∧
      (page ∉ session.allocated →
        (session.store.deallocatePage iteration page).2 = session.store) := by
  intro session
  have kept : Kept session := kept_run calls
  refine ⟨fun page free => ?_,kept.counted,?_,fun iteration page => ?_⟩
  · obtain ⟨positive,below⟩ := session.store.free_issued page free
    exact ⟨positive,Nat.le_sub_one_of_lt below⟩
  · obtain ⟨page,next,returned,positive,unused,_⟩ := allocate_exact session.store kept.isOpen
    exact ⟨page,by rw [returned],positive,fun member => unused ((kept.held page).mp member)⟩
  · rw [kept.held]
    obtain ⟨unused,e,failed⟩ | ⟨used,next,returned,_⟩ :=
      deallocate_exact iteration page session.store kept.isOpen
    · rw [failed]
      exact ⟨⟨(by intro success; cases success),fun held => absurd held unused⟩,fun _ => rfl⟩
    · rw [returned]
      exact ⟨⟨fun _ => used,fun _ => rfl⟩,fun unused => absurd used unused⟩

end LoreDB.Storage.PageMap
