import LoreDB.Util.Varint

/-! The encoder on a buffer, the size it announces and the decoder. A buffer is large enough exactly from the
announced size on, and the bytes do not depend on how much larger it is. -/
namespace LoreDB.Util.VarInt
open LoreDB.Storage

theorem encodedSize_more (value : UInt64) (more : 0x80 ≤ value) :
    encodedSize value = encodedSize (value >>> 7) + 1 := by
  rw [encodedSize,if_pos more]

theorem encodedSize_last (value : UInt64) (last : ¬0x80 ≤ value) : encodedSize value = 1 := by
  rw [encodedSize,if_neg last]

theorem encodedSize_positive (value : UInt64) : 0 < encodedSize value := by
  by_cases more : 0x80 ≤ value
  · rw [encodedSize_more value more]
    exact Nat.succ_pos _
  · rw [encodedSize_last value more]
    exact Nat.one_pos

/-- An encoding takes the announced number of bytes, and fails where there is less room. -/
theorem encode_size (value : UInt64) (room : ℕ) : (encode value room).map List.length =
    if encodedSize value ≤ room then some (encodedSize value) else none := by
  induction room generalizing value with
  | zero => rw [if_neg (Nat.not_le_of_lt (encodedSize_positive value))]; rfl
  | succ room ih =>
    by_cases more : 0x80 ≤ value
    · rw [encode,if_pos more,encodedSize_more value more,Option.map_map]
      have lengths := congrArg (Option.map (· + 1)) (ih (value >>> 7))
      rw [Option.map_map] at lengths
      refine lengths.trans ?_
      by_cases enough : encodedSize (value >>> 7) ≤ room
      · rw [if_pos enough,if_pos (Nat.succ_le_succ enough)]
        rfl
      · rw [if_neg enough,if_neg fun within => enough (Nat.le_of_succ_le_succ within)]
        rfl
    · rw [encode,if_neg more,encodedSize_last value more,if_pos (Nat.succ_le_succ (Nat.zero_le room))]
      rfl

theorem encode_roomier (value : UInt64) (room larger : ℕ) (bytes : Bytes) (fits : room ≤ larger)
    (encodes : encode value room = some bytes) : encode value larger = some bytes := by
  induction room generalizing value larger bytes with
  | zero => cases encodes
  | succ room ih =>
    obtain ⟨larger,rfl⟩ := Nat.exists_eq_succ_of_ne_zero (Nat.ne_of_gt (Nat.lt_of_lt_of_le (Nat.succ_pos room) fits))
    by_cases more : 0x80 ≤ value
    · rw [encode,if_pos more] at encodes ⊢
      obtain ⟨rest,front,rfl⟩ := Option.map_eq_some_iff.mp encodes
      rw [ih _ larger rest (Nat.le_of_succ_le_succ fits) front]
      rfl
    · rwa [encode,if_neg more] at encodes ⊢

theorem encodedSize_le (value : UInt64) : encodedSize value ≤ 10 := by
  obtain ⟨bytes,encodes,-⟩ := decode_encode value []
  have size := encode_size value 10
  refine Decidable.byContradiction fun large => ?_
  rw [if_neg large,encodes] at size
  cases size

/-- The loop writes the encoding over the front of its buffer, or finds no end of it. -/
theorem encodeLoop_encode (value : UInt64) (buffer : Bytes) :
    (encodeLoop value buffer).1 = (encode value buffer.length).map List.length ∧
      ∀ bytes, encode value buffer.length = some bytes →
        (encodeLoop value buffer).2 = bytes ++ buffer.drop bytes.length := by
  induction buffer generalizing value with
  | nil => exact ⟨rfl,fun bytes absurd => by cases absurd⟩
  | cons byte rest ih =>
    obtain ⟨count,content⟩ := ih (value >>> 7)
    by_cases more : 0x80 ≤ value
    · simp only [encodeLoop,List.length_cons,encode,if_pos more]
      refine ⟨?_,fun bytes encodes => ?_⟩
      · rw [count,Option.map_map,Option.map_map]
        rfl
      · obtain ⟨later,front,rfl⟩ := Option.map_eq_some_iff.mp encodes
        rw [content later front]
        rfl
    · simp only [encodeLoop,List.length_cons,encode,if_neg more]
      refine ⟨rfl,fun bytes encodes => ?_⟩
      cases encodes
      rfl

/-- Encoder, size and decoder agree on every buffer, whatever follows in it. -/
theorem encodeInto_agrees (value : UInt64) (buffer rest : Bytes) : encodedSize value ≤ 10 ∧
    (encodeInto value buffer).1 = (if encodedSize value ≤ buffer.length then encodedSize value else 0) ∧
    (encodedSize value ≤ buffer.length →
      decode ((encodeInto value buffer).2.take (encodedSize value) ++ rest) = .ok (value,rest)) := by
  obtain ⟨count,content⟩ := encodeLoop_encode value buffer
  have size := encode_size value buffer.length
  refine ⟨encodedSize_le value,?_,fun enough => ?_⟩
  · change (encodeLoop value buffer).1.getD 0 = _
    rw [count,size]
    split <;> rfl
  · rw [if_pos enough] at size
    obtain ⟨bytes,encodes,length⟩ := Option.map_eq_some_iff.mp size
    obtain ⟨others,whole,decodes⟩ := decode_encode value rest
    have same : others = bytes := by
      rcases Nat.le_total buffer.length 10 with within | beyond
      · exact Option.some.inj (whole.symm.trans (encode_roomier value _ 10 bytes within encodes))
      · exact Option.some.inj ((encode_roomier value 10 _ others beyond whole).symm.trans encodes)
    change decode ((encodeLoop value buffer).2.take (encodedSize value) ++ rest) = _
    rw [content bytes encodes,← length,List.take_left,← same]
    exact decodes

end LoreDB.Util.VarInt
