import LoreDB.Storage.PageStore
import LoreDB.Util.Crc32
import Mathlib.Data.List.GetD
import Mathlib.Data.List.Nodup

/-! The page store on a file whose stream operations succeed. -/
namespace LoreDB.Storage
open LoreDB.Library.ByteStream LoreDB.Util

/-- `freePages` lists the set in the order in which the next page is taken from it. -/
structure FilePageStore where
  file : Bytes := []
  isClosed : Bool := false
  nextPageId : PageId := 1
  allocatedPages : Nat := 0
  freePages : List PageId := []
  next_positive : 0 < nextPageId := by decide
  free_issued : ∀ page ∈ freePages, 0 < page ∧ page < nextPageId := by decide
  free_nodup : freePages.Nodup := by decide

namespace FilePageStore

/-- Extends the file with zeros. -/
def ensureFileSize (required : Nat) (file : Bytes) : Bytes :=
  file ++ List.replicate (required - file.length) 0

def allocatePage (store : FilePageStore) : Except Error PageId × FilePageStore :=
  if store.isClosed then (.error ⟨.ioError,"PageStore is closed"⟩,store)
  else
    match free : store.freePages with
    | page::rest =>
      (.ok page,{store with
        freePages := rest
        allocatedPages := store.allocatedPages + 1
        free_issued := fun other member => store.free_issued other (by simp [free,member])
        free_nodup := (List.nodup_cons.mp (free ▸ store.free_nodup)).2})
    | [] =>
      (.ok store.nextPageId,{store with
        nextPageId := store.nextPageId + 1
        file := ensureFileSize ((store.nextPageId + 1) * pageSize) store.file
        allocatedPages := store.allocatedPages + 1
        freePages := []
        next_positive := Nat.succ_pos _
        free_issued := by simp
        free_nodup := List.nodup_nil})

def Valid (page : PageId) (store : FilePageStore) : Prop := 0 < page ∧ page < store.nextPageId

instance (page : PageId) (store : FilePageStore) : Decidable (Valid page store) :=
  inferInstanceAs (Decidable (_ ∧ _))

/-- The buffer is cleared before the read, so bytes behind the end of the file read as zero. -/
def image (file : Bytes) (page : PageId) : Bytes :=
  (List.range pageSize).map fun i => file.getD (page * pageSize + i) 0

def readPage (page : PageId) (store : FilePageStore) : Except Error Bytes × FilePageStore :=
  if store.isClosed then (.error ⟨.ioError,"PageStore is closed"⟩,store)
  else if ¬Valid page store then (.error ⟨.invalidArgument,"Invalid page ID"⟩,store)
  else (.ok (image store.file page),store)

/-- Fills in the magic number, the page id and the checksum over a zeroed checksum field. -/
def sealed (page : PageId) (data : Bytes) : Bytes :=
  let data := overwrite data 0 (littleEndian 4 0x47524148)
  let data := overwrite data 24 (littleEndian 8 page)
  let data := overwrite data 12 (littleEndian 4 0)
  overwrite data 12 (littleEndian 4 (CRC32.calculate data).toNat)

def writePage (page : PageId) (data : Bytes) (store : FilePageStore) :
    Except Error Unit × FilePageStore :=
  if data.length ≠ pageSize then
    (.error ⟨.invalidArgument,"Page data size must be PAGE_SIZE"⟩,store)
  else if store.isClosed then (.error ⟨.ioError,"PageStore is closed"⟩,store)
  else if ¬Valid page store then (.error ⟨.invalidArgument,"Invalid page ID"⟩,store)
  else (.ok (),{store with file := overwrite store.file (page * pageSize) (sealed page data)})

/-- The order in which the set is iterated after an insertion is up to the library. -/
structure Iteration where
  arrange : List PageId → List PageId
  perm : ∀ pages, (arrange pages).Perm pages

def deallocatePage (iteration : Iteration) (page : PageId) (store : FilePageStore) :
    Except Error Unit × FilePageStore :=
  if store.isClosed then (.error ⟨.ioError,"PageStore is closed"⟩,store)
  else if valid : ¬Valid page store then (.error ⟨.invalidArgument,"Invalid page ID"⟩,store)
  else if free : page ∈ store.freePages then
    (.error ⟨.invalidArgument,"Page already deallocated"⟩,store)
  else
    (.ok (),{store with
      freePages := iteration.arrange (page::store.freePages)
      allocatedPages := store.allocatedPages - 1
      free_issued := fun other member => by
        rcases List.mem_cons.mp ((iteration.perm _).mem_iff.mp member) with rfl | inside
        · exact not_not.mp valid
        · exact store.free_issued other inside
      free_nodup := (iteration.perm _).nodup_iff.mpr
        (List.nodup_cons.mpr ⟨free,store.free_nodup⟩)})

/-- The constructor takes the file as it is and starts with an empty allocator. -/
def openFile (file : Bytes) : FilePageStore := {file := file}

def getPageCount (store : FilePageStore) : Nat := store.nextPageId - 1

def getAllocatedPages (store : FilePageStore) : Nat := store.allocatedPages

/-- The stream is flushed by every write already. -/
def sync (store : FilePageStore) : Except Error Unit × FilePageStore :=
  if store.isClosed then (.error ⟨.ioError,"PageStore is closed"⟩,store) else (.ok (),store)

theorem image_congr (first second : Bytes) (page : PageId)
    (same : ∀ i < pageSize, first.getD (page * pageSize + i) 0 = second.getD (page * pageSize + i) 0) :
    image first page = image second page :=
  List.map_congr_left fun i member => same i (List.mem_range.mp member)

theorem image_extended (required : Nat) (file : Bytes) (page : PageId) :
    image (ensureFileSize required file) page = image file page :=
  image_congr _ _ page fun _ _ => getD_zeros file _ _

theorem image_overwritten (file data : Bytes) (target page : PageId)
    (size : data.length = pageSize) (other : page ≠ target) :
    image (overwrite file (target * pageSize) data) page = image file page := by
  apply image_congr
  intro i inside
  apply overwrite_getD
  rw [size]
  unfold pageSize at inside ⊢
  rcases Nat.lt_or_gt_of_ne other with below | above
  · omega
  · omega

theorem image_written (file data : Bytes) (page : PageId) (size : data.length = pageSize) :
    image (overwrite file (page * pageSize) data) page = data := by
  apply List.ext_getElem
  · simp [image,size]
  · intro i left right
    have inside : i < pageSize := by simpa [image] using left
    simp only [image,List.getElem_map,List.getElem_range]
    rw [overwrite_inside _ _ _ _ (by rw [size]; exact inside)]
    exact List.getD_eq_getElem _ _ right

theorem sealed_length (page : PageId) (data : Bytes) (size : data.length = pageSize) :
    (sealed page data).length = pageSize := by
  simp only [sealed,overwrite_length,littleEndian_length,size,pageSize]
  omega

/-- An issued page that is not free. -/
def Allocated (store : FilePageStore) (page : PageId) : Prop :=
  Valid page store ∧ page ∉ store.freePages

/-- A call takes the next free page, or issues a new one and extends the file. -/
theorem allocate_cases (store : FilePageStore) :
    (store.isClosed = true ∧ ∃ e, store.allocatePage = (.error e,store)) ∨
    ∃ page next, store.allocatePage = (.ok page,next) ∧ next.isClosed = store.isClosed ∧
      (store.freePages = page::next.freePages ∧ next.nextPageId = store.nextPageId ∧
          next.file = store.file ∨
        store.freePages = [] ∧ next.freePages = [] ∧ page = store.nextPageId ∧
          next.nextPageId = store.nextPageId + 1 ∧
          next.file = ensureFileSize ((store.nextPageId + 1) * pageSize) store.file) := by
  unfold allocatePage
  split
  · rename_i closed
    exact .inl ⟨closed,_,rfl⟩
  · split
    · rename_i page rest free
      exact .inr ⟨page,_,rfl,rfl,.inl ⟨free,rfl,rfl⟩⟩
    · rename_i free
      exact .inr ⟨_,_,rfl,rfl,.inr ⟨free,rfl,rfl,rfl,rfl⟩⟩

/-- A call writes the sealed image of an issued page, or changes nothing. -/
theorem write_cases (page : PageId) (data : Bytes) (store : FilePageStore) :
    (∃ e, store.writePage page data = (.error e,store)) ∨
      data.length = pageSize ∧ Valid page store ∧ store.writePage page data =
        (.ok (),{store with file := overwrite store.file (page * pageSize) (sealed page data)}) := by
  unfold writePage
  split
  · exact .inl ⟨_,rfl⟩
  · rename_i size
    split
    · exact .inl ⟨_,rfl⟩
    · split
      · exact .inl ⟨_,rfl⟩
      · rename_i valid
        exact .inr ⟨not_not.mp size,not_not.mp valid,rfl⟩

theorem write_succeeds (page : PageId) (data : Bytes) (store : FilePageStore)
    (size : data.length = pageSize) (isOpen : store.isClosed = false) (valid : Valid page store) :
    store.writePage page data =
      (.ok (),{store with file := overwrite store.file (page * pageSize) (sealed page data)}) := by
  unfold writePage
  rw [if_neg (not_not.mpr size),if_neg (by simp [isOpen]),if_neg (not_not.mpr valid)]

theorem write_reads (page : PageId) (data : Bytes) (store later : FilePageStore)
    (wrote : store.writePage page data = (.ok (),later)) :
    later.readPage page = (.ok (sealed page data),later) := by
  unfold writePage at wrote
  split at wrote
  · cases wrote
  · rename_i size
    split at wrote
    · cases wrote
    · rename_i isOpen
      split at wrote
      · cases wrote
      · rename_i valid
        cases wrote
        have image := image_written store.file _ page (sealed_length page data (not_not.mp size))
        simp only [readPage,if_neg isOpen,image]
        exact if_neg valid

/-- A call adds an issued page to the free ones, or changes nothing. -/
theorem deallocate_cases (iteration : Iteration) (page : PageId) (store : FilePageStore) :
    (∃ e, store.deallocatePage iteration page = (.error e,store)) ∨
      ∃ next, store.deallocatePage iteration page = (.ok (),next) ∧
        next.isClosed = store.isClosed ∧ next.nextPageId = store.nextPageId ∧ next.file = store.file ∧
        next.freePages.Perm (page::store.freePages) := by
  unfold deallocatePage
  split
  · exact .inl ⟨_,rfl⟩
  · split
    · exact .inl ⟨_,rfl⟩
    · split
      · exact .inl ⟨_,rfl⟩
      · exact .inr ⟨_,rfl,rfl,rfl,rfl,iteration.perm _⟩

theorem allocate_fresh (store : FilePageStore) (page : PageId)
    (taken : store.allocatePage.1 = .ok page) :
    ¬Allocated store page ∧ Allocated store.allocatePage.2 page := by
  obtain ⟨_,e,failed⟩ | ⟨found,next,returned,_,change⟩ := allocate_cases store
  · rw [failed] at taken
    contradiction
  · rw [returned] at taken ⊢
    cases taken
    obtain ⟨free,same,_⟩ | ⟨_,none,rfl,more,_⟩ := change
    · have issued := store.free_issued page (by simp [free])
      have nodup := store.free_nodup
      rw [free,List.nodup_cons] at nodup
      refine ⟨fun held => held.2 (by simp [free]),?_,nodup.1⟩
      unfold Valid
      rwa [same]
    · refine ⟨fun held => Nat.lt_irrefl _ held.1.2,?_,by simp [none]⟩
      unfold Valid
      rw [more]
      exact ⟨store.next_positive,Nat.lt_succ_self _⟩

theorem read_congr (page : PageId) (first second : FilePageStore)
    (closed : first.isClosed = second.isClosed) (valid : Valid page first ↔ Valid page second)
    (same : image first.file page = image second.file page) :
    (first.readPage page).1 = (second.readPage page).1 := by
  unfold readPage
  rw [closed,same]
  split
  · rfl
  · by_cases issued : Valid page second
    · rw [if_neg (not_not.mpr issued),if_neg (not_not.mpr (valid.mpr issued))]
    · rw [if_pos issued,if_pos (fun held => issued (valid.mp held))]

theorem allocate_keeps (store : FilePageStore) (page : PageId) (held : Allocated store page) :
    Allocated store.allocatePage.2 page ∧
      (store.allocatePage.2.readPage page).1 = (store.readPage page).1 := by
  obtain ⟨issued,taken⟩ := held
  obtain ⟨_,e,failed⟩ | ⟨found,next,returned,closed,change⟩ := allocate_cases store
  · rw [failed]
    exact ⟨⟨issued,taken⟩,rfl⟩
  · rw [returned]
    obtain ⟨free,same,file⟩ | ⟨_,none,_,more,file⟩ := change
    · have valid : Valid page next ↔ Valid page store := by simp [Valid,same]
      refine ⟨⟨valid.mpr issued,fun member => taken (by simp [free,member])⟩,?_⟩
      exact read_congr page next store closed valid (by rw [file])
    · have later : Valid page next := ⟨issued.1,more ▸ Nat.lt_succ_of_lt issued.2⟩
      refine ⟨⟨later,by simp [none]⟩,?_⟩
      exact read_congr page next store closed ⟨fun _ => issued,fun _ => later⟩
        (by rw [file,image_extended])

theorem write_keeps (store : FilePageStore) (target : PageId) (data : Bytes) (page : PageId)
    (held : Allocated store page) :
    Allocated (store.writePage target data).2 page ∧ (page ≠ target →
      ((store.writePage target data).2.readPage page).1 = (store.readPage page).1) := by
  rcases write_cases target data store with ⟨e,failed⟩ | ⟨size,_,wrote⟩
  · rw [failed]
    exact ⟨held,fun _ => rfl⟩
  · rw [wrote]
    refine ⟨held,fun other => read_congr page _ store rfl Iff.rfl ?_⟩
    exact image_overwritten _ _ _ _ (sealed_length target data size) other

theorem read_keeps (store : FilePageStore) (target : PageId) : (store.readPage target).2 = store := by
  unfold readPage
  split
  · rfl
  · split <;> rfl

instance : LawfulPageStore FilePageStore where
  allocatePage := allocatePage
  readPage := readPage
  writePage := writePage
  sync := sync
  allocated := Allocated
  allocate_fresh := allocate_fresh
  allocate_keeps := allocate_keeps
  write_keeps := write_keeps
  read_keeps store target page held := by
    rw [read_keeps]
    exact ⟨held,rfl⟩

end FilePageStore

end LoreDB.Storage
