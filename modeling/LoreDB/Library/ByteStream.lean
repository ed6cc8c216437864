import Mathlib.Algebra.Group.Nat.Defs
import Mathlib.Data.List.GetD

/-! Little-endian numbers, input streams with the flags of `std::istream`, and a file
behind an output buffer with one position, as `std::fstream` has it. -/
namespace LoreDB.Library.ByteStream

def littleEndian : Nat → Nat → List UInt8
  | 0, _ => []
  | width + 1, value => UInt8.ofNat (value % 256)::littleEndian width (value / 256)

def number : List UInt8 → Nat
  | [] => 0
  | b::rest => b.toNat + 256 * number rest

/-- `unset` gives the values that variables hold when a failed read leaves them as they
were, one for each failed read. -/
structure InStream where
  remaining : List UInt8
  eof : Bool := false
  fail : Bool := false
  unset : Nat → Nat := fun _ => 0

namespace InStream

def good (stream : InStream) : Bool := !stream.eof && !stream.fail

/-- A short read takes what is left and sets both flags. It is irreducible, so that
readers built on it unfold without evaluating it. -/
@[irreducible] def read (count : Nat) (stream : InStream) : List UInt8 × InStream :=
  if stream.good then
    if count ≤ stream.remaining.length then
      (stream.remaining.take count,{stream with remaining := stream.remaining.drop count})
    else (stream.remaining,{stream with remaining := [], eof := true, fail := true})
  else ([],{stream with fail := true})

def readNumber (width : Nat) (stream : InStream) : Nat × InStream :=
  match stream.read width with
  | (bytes,next) =>
    if next.fail then
      (next.unset 0 % 256 ^ width,{next with unset := fun i => next.unset (i + 1)})
    else (number bytes,next)

/-- Reads into a zero-filled buffer. -/
def readFilled (count : Nat) (stream : InStream) : List UInt8 × InStream :=
  match stream.read count with
  | (bytes,next) => (bytes ++ List.replicate (count - bytes.length) 0,next)

end InStream

/-- `disk` is what other streams on the file see. Written bytes wait in `buffer`, at the
latest until a flush or a seek. -/
structure FileStream where
  disk : List UInt8 := []
  position : Nat := 0
  buffer : List UInt8 := []
  isOpen : Bool := true
  eof : Bool := false
  fail : Bool := false

def overwrite (disk : List UInt8) (position : Nat) (bytes : List UInt8) : List UInt8 :=
  disk.take position ++ List.replicate (position - disk.length) 0 ++ bytes ++
    disk.drop (position + bytes.length)

namespace FileStream

def good (stream : FileStream) : Bool := !stream.eof && !stream.fail

def commit (stream : FileStream) : FileStream :=
  {stream with
    disk := overwrite stream.disk stream.position stream.buffer
    position := stream.position + stream.buffer.length
    buffer := []}

def write (bytes : List UInt8) (stream : FileStream) : FileStream :=
  if stream.good then {stream with buffer := stream.buffer ++ bytes}
  else {stream with fail := true}

def flush (stream : FileStream) : FileStream :=
  if stream.good then stream.commit else {stream with fail := true}

def tellp (stream : FileStream) : Nat := stream.position + stream.buffer.length

def seekp (position : Nat) (stream : FileStream) : FileStream :=
  if stream.fail then stream else {stream.commit with position := position}

end FileStream

@[simp] theorem littleEndian_length (width value : Nat) : (littleEndian width value).length = width := by
  induction width generalizing value with
  | zero => rfl
  | succ width ih => simp [littleEndian,ih]

theorem number_littleEndian (width value : Nat) (bound : value < 256 ^ width) :
    number (littleEndian width value) = value := by
  induction width generalizing value with
  | zero =>
    rw [Nat.pow_zero] at bound
    simp [littleEndian,number,Nat.lt_one_iff.mp bound]
  | succ width ih =>
    have quotient : value / 256 < 256 ^ width := by
      apply Nat.div_lt_of_lt_mul
      rwa [Nat.pow_succ,Nat.mul_comm] at bound
    rw [littleEndian,number,ih _ quotient,UInt8.toNat_ofNat']
    simp only [Nat.reducePow,Nat.mod_mod]
    omega

theorem number_lt (bytes : List UInt8) : number bytes < 256 ^ bytes.length := by
  induction bytes with
  | nil => decide
  | cons b rest ih =>
    have digit := b.toNat_lt
    rw [number,List.length_cons,Nat.pow_succ]
    omega

theorem littleEndian_number (bytes : List UInt8) : littleEndian bytes.length (number bytes) = bytes := by
  induction bytes with
  | nil => rfl
  | cons b rest ih =>
    have digit := b.toNat_lt
    have low : (b.toNat + 256 * number rest) % 256 = b.toNat := by omega
    have high : (b.toNat + 256 * number rest) / 256 = number rest := by omega
    rw [List.length_cons,littleEndian,number,low,high,ih,UInt8.ofNat_toNat]

theorem number_field (before rest : List UInt8) (offset width value : Nat)
    (place : before.length = offset) (bound : value < 256 ^ width) :
    number (((before ++ (littleEndian width value ++ rest)).drop offset).take width) = value := by
  have front : (littleEndian width value ++ rest).take width = littleEndian width value := by
    rw [List.take_append_of_le_length (by simp),List.take_of_length_le (by simp)]
  rw [← place,List.drop_left,front,number_littleEndian width value bound]

section Reading

variable (rest : List UInt8) (unset : Nat → Nat)

theorem read_exact (bytes : List UInt8) :
    InStream.read bytes.length {remaining := bytes ++ rest, unset := unset} =
      (bytes,{remaining := rest, unset := unset}) := by
  simp [InStream.read,InStream.good]

theorem read_front (bytes : List UInt8) (count : Nat) (enough : count ≤ bytes.length) :
    InStream.read count {remaining := bytes, unset := unset} =
      (bytes.take count,{remaining := bytes.drop count, unset := unset}) := by
  simp [InStream.read,InStream.good,enough]

theorem read_short (bytes : List UInt8) (count : Nat) (short : bytes.length < count) :
    InStream.read count {remaining := bytes, unset := unset} =
      (bytes,{remaining := [], unset := unset, eof := true, fail := true}) := by
  simp [InStream.read,InStream.good,Nat.not_le_of_lt short]

theorem readNumber_littleEndian (width value : Nat) (bound : value < 256 ^ width) :
    InStream.readNumber width
        {remaining := littleEndian width value ++ rest, unset := unset} =
      (value,{remaining := rest, unset := unset}) := by
  have exact := read_exact rest unset (littleEndian width value)
  rw [littleEndian_length] at exact
  rw [InStream.readNumber,exact]
  simp [number_littleEndian width value bound]

theorem readFilled_exact (bytes : List UInt8) :
    InStream.readFilled bytes.length {remaining := bytes ++ rest, unset := unset} =
      (bytes,{remaining := rest, unset := unset}) := by
  rw [InStream.readFilled,read_exact]
  simp

end Reading

section Torn

/-- A stream that has run into its end stays there. -/
def Ended (stream : InStream) : Prop := stream.eof = true ∧ stream.fail = true

/-- A stream on a front part of another one's bytes: it has ended, or both stand at the
same place, and `tail` is what the torn one lacks. -/
def Torn (tail : List UInt8) (full torn : InStream) : Prop :=
  Ended torn ∨ full.good = true ∧ torn.good = true ∧ full.remaining = torn.remaining ++ tail

theorem read_ended (count : Nat) (stream : InStream) (ended : Ended stream) :
    Ended (stream.read count).2 := by
  obtain ⟨eof,fail⟩ := ended
  simp [InStream.read,InStream.good,Ended,eof,fail]

theorem readNumber_ended (width : Nat) (stream : InStream) (ended : Ended stream) :
    Ended (stream.readNumber width).2 := by
  have kept := read_ended width stream ended
  rw [InStream.readNumber]
  split
  rename_i bytes next found
  rw [found] at kept
  split
  · exact kept
  · exact kept

theorem readFilled_ended (count : Nat) (stream : InStream) (ended : Ended stream) :
    Ended (stream.readFilled count).2 := by
  have kept := read_ended count stream ended
  rw [InStream.readFilled]
  split
  rename_i bytes next found
  rwa [found] at kept

/-- A read that leaves the stream good has found all its bytes. -/
theorem read_works (count : Nat) (stream : InStream) (works : (stream.read count).2.good = true) :
    stream.good = true ∧ count ≤ stream.remaining.length ∧ stream.read count =
      (stream.remaining.take count,{stream with remaining := stream.remaining.drop count}) := by
  unfold InStream.read at works ⊢
  split at works
  · rename_i good
    split at works
    · rename_i enough
      exact ⟨good,enough,by rw [if_pos good,if_pos enough]⟩
    · simp [InStream.good] at works
  · simp [InStream.good] at works

theorem read_good (count : Nat) (stream : InStream) (good : stream.good = true) :
    (stream.read count).2.good = true ∨ Ended (stream.read count).2 := by
  rw [InStream.read,if_pos good]
  split
  · exact .inl good
  · exact .inr ⟨rfl,rfl⟩

theorem readNumber_good (width : Nat) (stream : InStream) (good : stream.good = true) :
    (stream.readNumber width).2.good = true ∨ Ended (stream.readNumber width).2 := by
  have step := read_good width stream good
  rw [InStream.readNumber]
  split
  rename_i bytes next found
  rw [found] at step
  split
  · exact step
  · exact step

theorem readFilled_good (count : Nat) (stream : InStream) (good : stream.good = true) :
    (stream.readFilled count).2.good = true ∨ Ended (stream.readFilled count).2 :=
  read_good count stream good

theorem read_shrinks (count : Nat) (stream : InStream) :
    (stream.read count).2.remaining.length ≤ stream.remaining.length := by
  rw [InStream.read]
  split
  · split
    · rw [List.length_drop]
      omega
    · exact Nat.zero_le _
  · exact Nat.le_refl _

theorem readNumber_shrinks (width : Nat) (stream : InStream) :
    (stream.readNumber width).2.remaining.length ≤ stream.remaining.length := by
  have step := read_shrinks width stream
  rw [InStream.readNumber]
  split
  rename_i bytes next found
  rw [found] at step
  split
  · exact step
  · exact step

theorem readFilled_shrinks (count : Nat) (stream : InStream) :
    (stream.readFilled count).2.remaining.length ≤ stream.remaining.length :=
  read_shrinks count stream

variable {tail : List UInt8} {full torn : InStream}

theorem read_torn (count : Nat) (related : Torn tail full torn)
    (works : (full.read count).2.good = true) :
    Torn tail (full.read count).2 (torn.read count).2 ∧
      ((torn.read count).2.fail = false → (torn.read count).1 = (full.read count).1) := by
  rcases related with ended | ⟨_,good,split⟩
  · have kept := read_ended count torn ended
    refine ⟨.inl kept,fun fine => ?_⟩
    rw [kept.2] at fine
    contradiction
  · obtain ⟨fullGood,_,reads⟩ := read_works count full works
    by_cases enough : count ≤ torn.remaining.length
    · have same : torn.read count =
          (torn.remaining.take count,{torn with remaining := torn.remaining.drop count}) := by
        rw [InStream.read,if_pos good,if_pos enough]
      rw [reads,same]
      refine ⟨.inr ⟨fullGood,good,?_⟩,fun _ => ?_⟩
      · rw [split,List.drop_append_of_le_length enough]
      · rw [split,List.take_append_of_le_length enough]
    · have short : torn.read count =
          (torn.remaining,{torn with remaining := [], eof := true, fail := true}) := by
        rw [InStream.read,if_pos good,if_neg enough]
      rw [short]
      exact ⟨.inl ⟨rfl,rfl⟩,fun absurd => by contradiction⟩

theorem readNumber_torn (width : Nat) (related : Torn tail full torn)
    (works : (full.readNumber width).2.good = true) :
    Torn tail (full.readNumber width).2 (torn.readNumber width).2 ∧
      ((torn.readNumber width).2.fail = false →
        (torn.readNumber width).1 = (full.readNumber width).1) := by
  have step := @read_torn tail full torn width related
  unfold InStream.readNumber at works ⊢
  cases first : full.read width with
  | mk bytes next =>
    cases second : torn.read width with
    | mk others following =>
      rw [first,second] at step
      rw [first] at works
      dsimp only at works step ⊢
      cases failed : next.fail with
      | true => simp [failed,InStream.good] at works
      | false =>
        simp only [failed] at works
        obtain ⟨kept,same⟩ := step works
        cases ended : following.fail with
        | true =>
          rcases kept with past | ⟨_,good,_⟩
          · exact ⟨.inl ⟨past.1,rfl⟩,fun absurd => by contradiction⟩
          · simp [InStream.good,ended] at good
        | false => exact ⟨kept,fun _ => by simp [same ended]⟩

theorem readFilled_torn (count : Nat) (related : Torn tail full torn)
    (works : (full.readFilled count).2.good = true) :
    Torn tail (full.readFilled count).2 (torn.readFilled count).2 ∧
      ((torn.readFilled count).2.fail = false →
        (torn.readFilled count).1 = (full.readFilled count).1) := by
  have step := @read_torn tail full torn count related
  unfold InStream.readFilled at works ⊢
  cases first : full.read count with
  | mk bytes next =>
    cases second : torn.read count with
    | mk others following =>
      rw [first,second] at step
      rw [first] at works
      dsimp only at works step ⊢
      obtain ⟨kept,same⟩ := step works
      exact ⟨kept,fun fine => by rw [same fine]⟩

end Torn

theorem getD_zeros (bytes : List UInt8) (count i : Nat) :
    (bytes ++ List.replicate count 0).getD i 0 = bytes.getD i 0 := by
  rcases Nat.lt_or_ge i bytes.length with inside | beyond
  · exact List.getD_append _ _ _ _ inside
  · rw [List.getD_append_right _ _ _ _ beyond,List.getD_eq_default bytes _ beyond,List.getD,
      List.getElem?_replicate]
    split <;> rfl

theorem overwrite_length (disk : List UInt8) (position : Nat) (bytes : List UInt8) :
    (overwrite disk position bytes).length = max disk.length (position + bytes.length) := by
  simp only [overwrite,List.length_append,List.length_take,List.length_replicate,List.length_drop]
  omega

/-- Bytes outside the written range keep their value, and those that the file did not
have read as zero. -/
theorem overwrite_getD (disk : List UInt8) (position : Nat) (bytes : List UInt8) (i : Nat)
    (outside : i < position ∨ position + bytes.length ≤ i) :
    (overwrite disk position bytes).getD i 0 = disk.getD i 0 := by
  have front : (disk.take position ++ List.replicate (position - disk.length) 0).length =
      position := by
    simp only [List.length_append,List.length_take,List.length_replicate]
    omega
  rcases outside with below | above
  · rw [overwrite,List.append_assoc,List.getD_append _ _ _ _ (by omega),getD_zeros]
    simp [List.getD,below]
  · rw [overwrite,List.getD_append_right _ _ _ _ (by simp only [List.length_append] at front ⊢; omega)]
    simp only [List.getD,List.getElem?_drop]
    congr 2
    simp only [List.length_append] at front ⊢
    omega

theorem overwrite_inside (disk : List UInt8) (position : Nat) (bytes : List UInt8) (i : Nat)
    (inside : i < bytes.length) :
    (overwrite disk position bytes).getD (position + i) 0 = bytes.getD i 0 := by
  have front : (disk.take position ++ List.replicate (position - disk.length) 0).length =
      position := by
    simp only [List.length_append,List.length_take,List.length_replicate]
    omega
  rw [overwrite,List.append_assoc,List.getD_append_right _ _ _ _ (by omega),front,Nat.add_sub_cancel_left,
    List.getD_append _ _ _ _ inside]

theorem overwrite_drop (disk : List UInt8) (position : Nat) (bytes : List UInt8) (count : Nat)
    (inside : position ≤ disk.length) (behind : position + bytes.length ≤ count) :
    (overwrite disk position bytes).drop count = disk.drop count := by
  have front : (disk.take position ++ bytes).length = position + bytes.length := by
    rw [List.length_append,List.length_take,Nat.min_eq_left inside]
  rw [overwrite,Nat.sub_eq_zero_of_le inside,List.replicate_zero,List.append_nil,List.drop_append,
    List.drop_of_length_le (by omega),front,List.nil_append,List.drop_drop]
  congr 1
  omega

theorem overwrite_take (disk : List UInt8) (position : Nat) (bytes : List UInt8) (count : Nat)
    (inside : position ≤ disk.length) (before : count ≤ position) :
    (overwrite disk position bytes).take count = disk.take count := by
  have front : (disk.take position).length = position := List.length_take_of_le inside
  rw [overwrite,List.append_assoc,List.append_assoc,List.take_append_of_le_length (by omega),
    List.take_take,Nat.min_eq_left before]

theorem overwrite_start (old bytes rest : List UInt8) (same : old.length = bytes.length) :
    overwrite (old ++ rest) 0 bytes = bytes ++ rest := by
  simp [overwrite,← same]

namespace FileStream

/-- What the file holds once the buffer has reached it. -/
def content (stream : FileStream) : List UInt8 := stream.commit.disk

/-- The next byte goes behind everything written so far. -/
def AtEnd (stream : FileStream) : Prop := stream.disk.length ≤ stream.tellp

theorem good_flags (stream : FileStream) :
    stream.good = true ↔ stream.eof = false ∧ stream.fail = false := by
  simp [good]

theorem write_good (stream : FileStream) (bytes : List UInt8) (works : stream.good = true) :
    stream.write bytes = {stream with buffer := stream.buffer ++ bytes} := if_pos works

theorem content_empty (stream : FileStream) (empty : stream.buffer = []) (atEnd : stream.AtEnd)
    (inside : stream.position ≤ stream.disk.length) : stream.content = stream.disk := by
  have position : stream.position = stream.disk.length := by
    simp only [AtEnd,tellp,empty,List.length_nil] at atEnd
    omega
  simp [content,commit,overwrite,empty,position]

theorem content_length (stream : FileStream) (atEnd : stream.AtEnd) :
    stream.content.length = stream.tellp := by
  simp only [AtEnd,tellp] at atEnd
  simp only [content,commit,overwrite,tellp,List.length_append,List.length_take,
    List.length_replicate,List.length_drop]
  omega

theorem write_content (stream : FileStream) (bytes : List UInt8) (good : stream.good = true)
    (atEnd : stream.AtEnd) :
    (stream.write bytes).content = stream.content ++ bytes ∧ (stream.write bytes).AtEnd := by
  simp only [AtEnd,tellp] at atEnd ⊢
  have short : stream.disk.drop (stream.position + stream.buffer.length) = [] :=
    List.drop_eq_nil_of_le atEnd
  have shorter : stream.disk.drop (stream.position + (stream.buffer.length + bytes.length)) = [] :=
    List.drop_eq_nil_of_le (by omega)
  rw [write_good stream bytes good]
  refine ⟨?_,by simp only [List.length_append]; omega⟩
  simp [content,commit,overwrite,short,shorter]

theorem commit_eq (stream : FileStream) (atEnd : stream.AtEnd) : stream.commit =
    {stream with disk := stream.content, position := stream.content.length, buffer := []} := by
  rw [content_length stream atEnd]
  rfl

theorem commit_content (stream : FileStream) (atEnd : stream.AtEnd) :
    stream.commit.content = stream.content ∧ stream.commit.AtEnd := by
  rw [commit_eq stream atEnd]
  generalize stream.content = bytes
  simp [content,commit,overwrite,AtEnd,tellp]

theorem seekp_start (stream : FileStream) : (stream.seekp 0).seekp 0 = stream.seekp 0 := by
  unfold seekp
  split
  · rename_i failed
    rfl
  · rename_i works
    simp [commit,overwrite,works]

/-- Seeking back, writing over the first bytes and seeking forward again leaves the rest
of the file and the end position alone. -/
theorem rewrite_start (stream : FileStream) (good : stream.good = true) (atEnd : stream.AtEnd)
    (old bytes rest : List UInt8) (split : stream.content = old ++ rest)
    (same : old.length = bytes.length) :
    ((stream.seekp 0).write bytes).seekp stream.tellp =
      {stream with disk := bytes ++ rest, position := stream.tellp, buffer := []} := by
  obtain ⟨noEof,noFail⟩ := (good_flags stream).mp good
  simp only [seekp,noFail]
  rw [commit_eq stream atEnd,split]
  simp [write,FileStream.good,commit,noEof,noFail,overwrite_start old bytes rest same]

end FileStream

end LoreDB.Library.ByteStream
