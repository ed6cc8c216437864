import Mathlib.Data.BitVec
import Mathlib.Data.List.GetD
import Mathlib.Logic.Function.Iterate

/-! Registers that shift right by one place for each bit of a message, and that a fixed pattern is added to
whenever a one falls out. Addition is exclusive or. Where the pattern has its top bit set, no two registers
shift to the same one. So a register still tells apart two messages that differ only within a stretch as long
as the register itself. -/
namespace LoreDB.Library.ShiftRegister

variable {w : ℕ} (pattern : BitVec w)

def shift (register : BitVec w) : BitVec w :=
  if register.getLsbD 0 then (register >>> 1) ^^^ pattern else register >>> 1

/-- A bit of the message is added to the bit that falls out. -/
def step (register : BitVec w) (bit : Bool) : BitVec w :=
  if register.getLsbD 0 ^^ bit then (register >>> 1) ^^^ pattern else register >>> 1

def feed (register : BitVec w) (message : List Bool) : BitVec w := message.foldl (step pattern) register

/-- The bits of a message side by side, the first one lowest. -/
def word (w : ℕ) (message : List Bool) : BitVec w := (BitVec.ofBoolListLE message).setWidth w

/-- The bits of some bytes, those of a byte from the lowest one on. -/
def bits (bytes : List UInt8) : List Bool :=
  bytes.flatMap fun byte => (List.range 8).map byte.toBitVec.getLsbD

theorem feed_append (register : BitVec w) (first second : List Bool) :
    feed pattern register (first ++ second) = feed pattern (feed pattern register first) second :=
  List.foldl_append

theorem bits_append (first second : List UInt8) : bits (first ++ second) = bits first ++ bits second :=
  List.flatMap_append

theorem bits_length (bytes : List UInt8) : (bits bytes).length = 8 * bytes.length := by
  induction bytes with
  | nil => rfl
  | cons byte rest ih =>
    rw [← List.singleton_append,bits_append,List.length_append,ih,List.length_append]
    exact (Nat.mul_add 8 1 rest.length).symm

theorem bits_injective : Function.Injective bits := by
  intro first second same
  induction first generalizing second with
  | nil => cases second with
    | nil => rfl
    | cons other others => cases same
  | cons byte rest ih => cases second with
    | nil => cases same
    | cons other others =>
      obtain ⟨heads,tails⟩ := List.append_inj same rfl
      have bytes : byte = other := by
        apply UInt8.toBitVec_inj.mp
        apply BitVec.eq_of_getLsbD_eq
        intro i inside
        exact List.map_inj_left.mp heads i (List.mem_range.mpr inside)
      rw [bytes,ih tails]

theorem word_getLsbD (message : List Bool) (i : ℕ) (inside : i < w) :
    (word w message).getLsbD i = message.getD i false := by
  simp [word,inside]

theorem word_cons (bit : Bool) (rest : List Bool) :
    word w (bit::rest) = word w [bit] ^^^ (word w rest <<< 1) := by
  apply BitVec.eq_of_getLsbD_eq
  intro i inside
  rw [BitVec.getLsbD_xor,BitVec.getLsbD_shiftLeft,word_getLsbD _ i inside,word_getLsbD _ i inside]
  cases i with
  | zero => simp
  | succ i =>
    have before : i < w := by omega
    simp [inside,word_getLsbD rest i before]

/-- A word with a free place at the top comes back from the place above. -/
theorem word_returns (rest : List Bool) (short : rest.length < w) :
    (word w rest <<< 1) >>> 1 = word w rest := by
  apply BitVec.eq_of_getLsbD_eq
  intro i inside
  rw [BitVec.getLsbD_ushiftRight,BitVec.getLsbD_shiftLeft]
  by_cases top : 1 + i < w
  · simp [top]
  · rw [word_getLsbD rest i inside,List.getD_eq_default _ _ (by omega)]
    simp [top]

theorem word_injective (first second : List Bool) (lengths : first.length = second.length)
    (short : first.length ≤ w) (same : word w first = word w second) : first = second := by
  apply List.ext_getElem lengths
  intro i left right
  have bit := congrArg (fun x => x.getLsbD i) same
  simp only [word_getLsbD _ i (Nat.lt_of_lt_of_le left short)] at bit
  rwa [List.getD_eq_getElem _ _ left,List.getD_eq_getElem _ _ right] at bit

theorem shift_xor (a b : BitVec w) : shift pattern (a ^^^ b) = shift pattern a ^^^ shift pattern b := by
  unfold shift
  rw [BitVec.getLsbD_xor,BitVec.ushiftRight_xor_distrib]
  have regroup := BitVec.xor_assoc (a >>> 1) (b >>> 1) pattern
  cases a.getLsbD 0 <;> cases b.getLsbD 0
  · rfl
  · exact regroup
  · rw [if_pos (by rfl),if_pos rfl,if_neg (by simp),regroup,BitVec.xor_comm (b >>> 1),← BitVec.xor_assoc]
  · rw [if_neg (by simp),if_pos rfl,if_pos rfl]
    apply BitVec.eq_of_getLsbD_eq
    intro i inside
    simp only [BitVec.getLsbD_xor]
    cases (a >>> 1).getLsbD i <;> cases (b >>> 1).getLsbD i <;> simp

theorem shifts_xor (n : ℕ) (a b : BitVec w) :
    (shift pattern)^[n] (a ^^^ b) = (shift pattern)^[n] a ^^^ (shift pattern)^[n] b := by
  induction n generalizing a b with
  | zero => rfl
  | succ n ih => rw [Function.iterate_succ_apply,shift_xor,ih]; rfl

theorem shift_clear (register : BitVec w) (clear : register.getLsbD 0 = false) :
    shift pattern register = register >>> 1 := by
  rw [shift,clear,if_neg Bool.false_ne_true]

/-- Zeros that fall out add nothing. -/
theorem shifts_clear (n : ℕ) (register : BitVec w) (clear : ∀ i < n, register.getLsbD i = false) :
    (shift pattern)^[n] register = register >>> n := by
  induction n generalizing register with
  | zero => simp
  | succ n ih =>
    have next : ∀ i < n, (register >>> 1).getLsbD i = false := fun i below => by
      rw [BitVec.getLsbD_ushiftRight]
      exact clear _ (by omega)
    rw [Function.iterate_succ_apply,shift_clear pattern register (clear 0 (Nat.succ_pos n)),ih _ next,
      ← BitVec.shiftRight_add,Nat.add_comm]

/-- What falls out in some shifts decides what they add. The rest only moves. -/
theorem shifts_split (n : ℕ) (register low : BitVec w) (agree : ∀ i < n, low.getLsbD i = register.getLsbD i)
    (above : ∀ i ≥ n, low.getLsbD i = false) :
    (shift pattern)^[n] register = (shift pattern)^[n] low ^^^ (register >>> n) := by
  have high : ∀ i < n, (low ^^^ register).getLsbD i = false := fun i below => by
    rw [BitVec.getLsbD_xor,agree i below,Bool.xor_self]
  have moves : (low ^^^ register) >>> n = register >>> n := by
    apply BitVec.eq_of_getLsbD_eq
    intro i inside
    rw [BitVec.getLsbD_ushiftRight,BitVec.getLsbD_ushiftRight,BitVec.getLsbD_xor,above _ (by omega),
      Bool.false_xor]
  have whole : register = low ^^^ (low ^^^ register) := by
    rw [← BitVec.xor_assoc,BitVec.xor_self,BitVec.zero_xor]
  calc (shift pattern)^[n] register
      = (shift pattern)^[n] (low ^^^ (low ^^^ register)) := by rw [← whole]
    _ = (shift pattern)^[n] low ^^^ ((low ^^^ register) >>> n) := by rw [shifts_xor,shifts_clear pattern n _ high]
    _ = (shift pattern)^[n] low ^^^ (register >>> n) := by rw [moves]

theorem step_shift (register : BitVec w) (bit : Bool) :
    step pattern register bit = shift pattern (register ^^^ word w [bit]) := by
  rcases Nat.eq_zero_or_pos w with rfl | positive
  · exact Subsingleton.elim _ _
  · have falls : (register ^^^ word w [bit]).getLsbD 0 = (register.getLsbD 0 ^^ bit) := by
      rw [BitVec.getLsbD_xor,word_getLsbD _ 0 positive,List.getD_cons_zero]
    have gone : word w [bit] >>> 1 = 0#w := by
      apply BitVec.eq_of_getLsbD_eq
      intro i inside
      rw [BitVec.getLsbD_ushiftRight]
      by_cases within : 1 + i < w
      · rw [word_getLsbD _ _ within,List.getD_eq_default _ _ (by simp),BitVec.getLsbD_zero]
      · rw [BitVec.getLsbD_of_ge _ _ (by omega),BitVec.getLsbD_zero]
    rw [step,shift,falls,BitVec.ushiftRight_xor_distrib,gone,BitVec.xor_zero]

/-- A message no longer than the register can be added as a whole before the shifts. -/
theorem feed_word (register : BitVec w) (message : List Bool) (short : message.length ≤ w) :
    feed pattern register message = (shift pattern)^[message.length] (register ^^^ word w message) := by
  induction message generalizing register with
  | nil =>
    have none : word w [] = 0#w := by
      apply BitVec.eq_of_getLsbD_eq
      intro i inside
      rw [word_getLsbD _ i inside,List.getD_nil,BitVec.getLsbD_zero]
    rw [none,BitVec.xor_zero]
    rfl
  | cons bit rest ih =>
    have room : rest.length < w := short
    have clear : (word w rest <<< 1).getLsbD 0 = false := by simp
    calc feed pattern register (bit::rest)
        = feed pattern (step pattern register bit) rest := rfl
      _ = (shift pattern)^[rest.length] (shift pattern (register ^^^ word w [bit]) ^^^ word w rest) := by
        rw [ih _ room.le,step_shift]
      _ = (shift pattern)^[rest.length] (shift pattern (register ^^^ word w (bit::rest))) := by
        rw [word_cons bit rest,← BitVec.xor_assoc,shift_xor pattern _ (word w rest <<< 1),shift_clear pattern _ clear,
          word_returns rest room]

section Injective

variable (top : pattern.msb = true)
include top

theorem shift_injective : Function.Injective (shift pattern) := by
  -- shifts are additive, so it is enough that no other register than 0 shifts to 0
  have kernel (register : BitVec w) (zero : shift pattern register = 0#w) : register = 0#w := by
    have positive : 0 < w := by
      rcases Nat.eq_zero_or_pos w with rfl | positive
      · simp [BitVec.msb_eq_getLsbD_last] at top
      · exact positive
    cases falls : register.getLsbD 0 with
    | true =>
      rw [shift,falls,if_pos rfl] at zero
      have last := congrArg BitVec.msb zero
      rw [BitVec.msb_xor,top,BitVec.msb_ushiftRight] at last
      simp at last
    | false =>
      rw [shift_clear pattern register falls] at zero
      apply BitVec.eq_of_getLsbD_eq
      intro i inside
      cases i with
      | zero => rw [falls,BitVec.getLsbD_zero]
      | succ i =>
        have bit := congrArg (fun x => x.getLsbD i) zero
        rwa [BitVec.getLsbD_ushiftRight,Nat.add_comm,BitVec.getLsbD_zero,← BitVec.getLsbD_zero] at bit
  intro a b same
  have difference := kernel (a ^^^ b) (by rw [shift_xor,same,BitVec.xor_self])
  exact BitVec.xor_eq_zero_iff.mp difference

theorem feed_injective (message : List Bool) : Function.Injective fun register => feed pattern register message := by
  induction message with
  | nil => exact fun a b same => same
  | cons bit rest ih =>
    intro a b same
    have stepped : step pattern a bit = step pattern b bit := ih same
    rw [step_shift,step_shift] at stepped
    exact (BitVec.xor_left_inj _).mp (shift_injective pattern top stepped)

/-- Two messages that differ only within a stretch no longer than the register leave different registers. -/
theorem feed_burst (register : BitVec w) (before first second after : List Bool)
    (lengths : first.length = second.length) (short : first.length ≤ w) (differ : first ≠ second) :
    feed pattern register (before ++ first ++ after) ≠ feed pattern register (before ++ second ++ after) := by
  intro same
  simp only [feed_append] at same
  have ends := feed_injective pattern top after same
  rw [feed_word pattern _ first short,feed_word pattern _ second (lengths ▸ short),lengths] at ends
  have words := (shift_injective pattern top).iterate _ ends
  exact differ (word_injective first second lengths short ((BitVec.xor_right_inj _).mp words))

end Injective

end LoreDB.Library.ShiftRegister
