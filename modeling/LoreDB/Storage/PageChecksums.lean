import LoreDB.Storage.FilePageStore
import LoreDB.Storage.Record
import LoreDB.Util.CrcBits

/-! The checksum in the header of a page. Nothing reads it back, but whoever computes it anew over a page that
has been damaged within four bytes gets another value. -/
namespace LoreDB.Storage.PageChecksums
open LoreDB.Library.ByteStream LoreDB.Util FilePageStore

/-- The checksum that a page image carries. -/
def checksum (page : Bytes) : ℕ := RecordSerializer.field page 12 4

def cleared (page : Bytes) : Bytes := overwrite page 12 (littleEndian 4 0)

/-- The checksum computed anew, over a zeroed checksum field. -/
def recomputed (page : Bytes) : UInt32 := CRC32.calculate (cleared page)

theorem getD_ext (first second : Bytes) (lengths : first.length = second.length)
    (same : ∀ i < first.length, first.getD i 0 = second.getD i 0) : first = second := by
  apply List.ext_getElem lengths
  intro i left right
  rw [← List.getD_eq_getElem first 0 left,same i left,List.getD_eq_getElem second 0 right]

/-- Two files that agree outside some stretch are equal in front of it and behind it. -/
theorem split_around (first second : Bytes) (start width : ℕ) (lengths : first.length = second.length)
    (inside : start + width ≤ first.length)
    (outside : ∀ i, i < start ∨ start + width ≤ i → first.getD i 0 = second.getD i 0) :
    ∃ before after, first = before ++ (first.drop start).take width ++ after ∧
      second = before ++ (second.drop start).take width ++ after := by
  have whole (file : Bytes) :
      file = file.take start ++ (file.drop start).take width ++ file.drop (start + width) := by
    rw [List.append_assoc,← List.drop_drop,List.take_append_drop,List.take_append_drop]
  have front : second.take start = first.take start := by
    apply getD_ext
    · rw [List.length_take,List.length_take,lengths]
    · intro i below
      rw [List.length_take] at below
      have near : i < start := by omega
      rw [List.getD_eq_getElem?_getD,List.getD_eq_getElem?_getD,List.getElem?_take_of_lt near,
        List.getElem?_take_of_lt near,← List.getD_eq_getElem?_getD,← List.getD_eq_getElem?_getD]
      exact (outside i (.inl near)).symm
  have back : second.drop (start + width) = first.drop (start + width) := by
    apply getD_ext
    · rw [List.length_drop,List.length_drop,lengths]
    · intro i below
      rw [List.getD_eq_getElem?_getD,List.getD_eq_getElem?_getD,List.getElem?_drop,List.getElem?_drop,
        ← List.getD_eq_getElem?_getD,← List.getD_eq_getElem?_getD]
      exact (outside _ (.inr (Nat.le_add_right _ _))).symm
  refine ⟨_,_,whole first,?_⟩
  rw [← front,← back]
  exact whole second

theorem cleared_length (page : Bytes) (size : page.length = pageSize) : (cleared page).length = pageSize := by
  rw [cleared,overwrite_length,littleEndian_length,size]
  decide

theorem cleared_getD (page : Bytes) (i : ℕ) (apart : i < 12 ∨ 16 ≤ i) : (cleared page).getD i 0 = page.getD i 0 :=
  overwrite_getD page 12 _ i (by rwa [littleEndian_length])

/-- Two cleared pages agree where two pages agree, and in the checksum field. -/
theorem cleared_agree (first second : Bytes) (i : ℕ) (same : i < 12 ∨ 16 ≤ i → first.getD i 0 = second.getD i 0) :
    (cleared first).getD i 0 = (cleared second).getD i 0 := by
  by_cases apart : i < 12 ∨ 16 ≤ i
  · rw [cleared_getD first i apart,cleared_getD second i apart,same apart]
  · obtain ⟨j,rfl⟩ := Nat.exists_eq_add_of_le (show 12 ≤ i by omega)
    have within : j < (littleEndian 4 0).length := by
      rw [littleEndian_length]
      omega
    exact (overwrite_inside first 12 _ j within).trans (overwrite_inside second 12 _ j within).symm

/-- What the field holds is lost in the cleared page. -/
theorem cleared_overwritten (page field : Bytes) (size : page.length = pageSize) (width : field.length = 4) :
    cleared (overwrite page 12 field) = cleared page := by
  have sizes : (overwrite page 12 field).length = pageSize := by
    rw [overwrite_length,width,size]
    decide
  apply getD_ext
  · rw [cleared_length _ sizes,cleared_length _ size]
  · intro i _
    exact cleared_agree _ page i fun apart => overwrite_getD page 12 field i (by rwa [width])

/-- A written page carries the checksum that is computed anew for it. -/
theorem sealed_checksum (page : PageId) (data : Bytes) (size : data.length = pageSize) :
    checksum (sealed page data) = (recomputed (sealed page data)).toNat := by
  have filled (bytes : Bytes) (fits : bytes.length = pageSize) (crc : UInt32)
      (same : crc = CRC32.calculate (cleared bytes)) :
      checksum (overwrite bytes 12 (littleEndian 4 crc.toNat)) =
        (recomputed (overwrite bytes 12 (littleEndian 4 crc.toNat))).toNat := by
    have inside : (bytes.take 12).length = 12 := List.length_take_of_le (by rw [fits]; decide)
    have enough : 12 - bytes.length = 0 := Nat.sub_eq_zero_of_le (by rw [fits]; decide)
    have holds := number_field (bytes.take 12) (bytes.drop (12 + 4)) 12 4 crc.toNat inside crc.toNat_lt
    rw [recomputed,cleared_overwritten bytes _ fits (littleEndian_length ..),← same,checksum,
      RecordSerializer.field,overwrite,enough,List.replicate_zero,List.append_nil,List.append_assoc,
      littleEndian_length]
    exact holds
  unfold sealed
  have header : (overwrite (overwrite data 0 (littleEndian 4 0x47524148)) 24 (littleEndian 8 page)).length =
      pageSize := by
    simp only [overwrite_length,littleEndian_length,size,pageSize]
    omega
  refine filled _ (cleared_length _ header) _ ?_
  exact congrArg CRC32.calculate (cleared_overwritten _ _ header (littleEndian_length ..)).symm

theorem burst_shows (first second : Bytes) (size : first.length = pageSize) (other : second.length = pageSize)
    (start : ℕ) (inside : start + 4 ≤ pageSize) (apart : start + 4 ≤ 12 ∨ 16 ≤ start)
    (outside : ∀ i, i < start ∨ start + 4 ≤ i → first.getD i 0 = second.getD i 0) (differs : first ≠ second) :
    recomputed first ≠ recomputed second := by
  have sizes : (cleared first).length = (cleared second).length := by
    rw [cleared_length _ size,cleared_length _ other]
  obtain ⟨before,after,left,right⟩ := split_around (cleared first) (cleared second) start 4 sizes
    (by rw [cleared_length _ size]; exact inside)
    fun i away => cleared_agree first second i fun _ => outside i away
  have window (file : Bytes) (whole : file.length = pageSize) : ((file.drop start).take 4).length = 4 := by
    rw [List.length_take,List.length_drop,whole]
    omega
  have width := window _ (cleared_length first size)
  have widths := width.trans (window _ (cleared_length second other)).symm
  have bursts : ((cleared first).drop start).take 4 ≠ ((cleared second).drop start).take 4 := by
    intro same
    have equal : cleared first = cleared second := by
      rw [left,right,← same]
    refine differs (getD_ext _ _ (size.trans other.symm) fun i _ => ?_)
    by_cases away : i < start ∨ start + 4 ≤ i
    · exact outside i away
    · have beside : i < 12 ∨ 16 ≤ i := by omega
      rw [← cleared_getD first i beside,equal,cleared_getD second i beside]
  have shows := CRC32.calculate_burst before _ _ after widths width.le bursts
  rwa [← left,← right] at shows

theorem stored_image (page : PageId) (data : Bytes) (store later : FilePageStore)
    (wrote : store.writePage page data = (.ok (),later)) :
    data.length = pageSize ∧ image later.file page = sealed page data := by
  obtain ⟨e,failed⟩ | ⟨size,-,written⟩ := write_cases page data store
  · rw [failed] at wrote
    cases wrote
  · cases written.symm.trans wrote
    exact ⟨size,image_written _ _ _ (sealed_length page data size)⟩

/-- The checksum that a page has been written with shows every damage to four bytes in a row that do not
belong to the checksum. -/
theorem damage_shows (page : PageId) (data : Bytes) (store later : FilePageStore)
    (wrote : store.writePage page data = (.ok (),later)) (damaged : Bytes) (size : damaged.length = pageSize)
    (start : ℕ) (inside : start + 4 ≤ pageSize) (apart : start + 4 ≤ 12 ∨ 16 ≤ start)
    (outside : ∀ i, i < start ∨ start + 4 ≤ i → damaged.getD i 0 = (image later.file page).getD i 0)
    (differs : damaged ≠ image later.file page) :
    (recomputed damaged).toNat ≠ checksum (image later.file page) := by
  obtain ⟨fits,stored⟩ := stored_image page data store later wrote
  rw [stored] at outside differs ⊢
  have shows := burst_shows damaged _ size (sealed_length page data fits) start inside apart outside differs
  rw [sealed_checksum page data fits]
  exact fun same => shows (UInt32.toNat_inj.mp same)

/-- One byte of a page of zeros is counted up after the write. -/
theorem damage_shows_counted :
    let later := (writePage 1 (List.replicate pageSize 0) (openFile []).allocatePage.2).2
    let stored := image later.file 1
    (recomputed (stored.set 100 (stored.getD 100 0 + 1))).toNat ≠ checksum stored := by
  intro later stored
  have written := write_succeeds 1 (List.replicate pageSize 0) (openFile []).allocatePage.2
    List.length_replicate rfl (by decide)
  have wrote : writePage 1 (List.replicate pageSize 0) (openFile []).allocatePage.2 = (.ok (),later) := by
    simp only [later,written]
  have size : stored.length = pageSize := by
    change (image later.file 1).length = pageSize
    rw [image,List.length_map,List.length_range]
  refine damage_shows 1 (List.replicate pageSize 0) (openFile []).allocatePage.2 later wrote _ ?_ 100 (by decide)
    (.inr (by decide)) (fun i away => ?_) fun same => ?_
  · rw [List.length_set,size]
  · rw [List.getD_eq_getElem?_getD,List.getElem?_set_ne (by omega),← List.getD_eq_getElem?_getD]
  · have byte := congrArg (fun page => page.getD 100 0) same
    rw [List.getD_eq_getElem?_getD,List.getElem?_set_self (by rw [size]; decide),Option.getD_some] at byte
    have counted : stored.getD 100 0 + 1 = stored.getD 100 0 := byte
    simp at counted

end LoreDB.Storage.PageChecksums
