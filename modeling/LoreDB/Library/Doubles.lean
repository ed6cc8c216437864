import Mathlib.Data.BitVec

/-! Comparisons of binary64 numbers. None is below itself, and one that an integer was converted to is
equal to itself, for conversions never end in the value that is no number. -/
namespace LoreDB.Library.Doubles
open Float.Model

theorem sign_self (sign : UnpackedFloat.Sign) : compare sign sign = .eq := by
  cases sign <;> rfl

theorem compare_self (number : UnpackedFloat) (known : number ≠ .notANumber) :
    number.compare number = some .eq := by
  cases number with
  | infinity sign => exact congrArg some (sign_self sign)
  | notANumber => exact absurd rfl known
  | zero sign => rfl
  | finite sign mantissa exponent positive =>
    cases sign <;>
    · delta UnpackedFloat.compare
      dsimp only
      rw [compare_eq_iff_eq.mpr rfl,compare_eq_iff_eq.mpr rfl]
      rfl

theorem lt_irrefl (number : Float.Model) : number.lt number = false := by
  rw [Float.Model.lt,UnpackedFloat.lt]
  by_cases known : number.unpack = .notANumber
  · rw [known]
    rfl
  · rw [compare_self _ known]
    rfl

theorem beq_self (number : Float.Model) (known : number.unpack ≠ .notANumber) :
    number.beq number = true := by
  delta Float.Model.beq UnpackedFloat.beq
  rw [compare_self _ known]
  rfl

theorem unpack_components (sign : UnpackedFloat.Sign) (exponent : BitVec 11) (mantissa : BitVec 52)
    (known : exponent = -1#11 → mantissa = 0#52) :
    UnpackedFloat.unpack Format.binary64 (UnpackedFloat.packComponents Format.binary64 sign exponent mantissa) ≠
      .notANumber := by
  generalize packed : UnpackedFloat.packComponents Format.binary64 sign exponent mantissa = bits
  have power : UnpackedFloat.unpackExponent bits = exponent :=
    packed ▸ UnpackedFloat.unpackExponent_packComponents
  have fraction : UnpackedFloat.unpackMantissa bits = mantissa :=
    packed ▸ UnpackedFloat.unpackMantissa_packComponents
  unfold UnpackedFloat.unpack
  dsimp only
  by_cases full : UnpackedFloat.unpackExponent bits = -1#11
  · rw [if_pos full,if_pos (fraction.trans (known (power.symm.trans full)))]
    exact UnpackedFloat.noConfusion
  · rw [if_neg full]
    by_cases least : UnpackedFloat.unpackExponent bits = 0#11
    · rw [if_pos least]
      by_cases zero : UnpackedFloat.unpackMantissa bits = 0#52
      · rw [dif_pos zero]
        exact UnpackedFloat.noConfusion
      · rw [dif_neg zero]
        exact UnpackedFloat.noConfusion
    · rw [if_neg least]
      exact UnpackedFloat.noConfusion

/-- Only what is no number is packed as such. -/
theorem unpack_pack (number : UnpackedFloat) (known : number ≠ .notANumber) :
    (pack number).unpack ≠ .notANumber := by
  change UnpackedFloat.unpack Format.binary64 (UnpackedFloat.pack Format.binary64 number) ≠ .notANumber
  cases number with
  | infinity sign => exact unpack_components _ _ _ fun _ => rfl
  | notANumber => exact absurd rfl known
  | zero sign => exact unpack_components sign 0 0 fun full => by cases full
  | finite sign mantissa exponent positive =>
    delta UnpackedFloat.pack
    dsimp only
    split
    · exact unpack_components _ _ _ fun _ => rfl
    · rename_i small
      split
      · refine unpack_components _ _ _ fun full => ?_
        have number := congrArg BitVec.toNat full
        rw [BitVec.toNat_ofNat,Nat.mod_eq_of_lt (by omega)] at number
        rw [number] at small
        exact absurd (by decide) small
      · exact unpack_components _ 0 _ fun full => by cases full

theorem normalize_known (mantissa exponent : Int) (sign : UnpackedFloat.Sign) :
    UnpackedFloat.normalize Format.binary64 mantissa exponent sign ≠ .notANumber := by
  have rounded (sign : UnpackedFloat.Sign) (mantissa : Nat) (exponent : Int) :
      UnpackedFloat.round Format.binary64 sign mantissa exponent ≠ .notANumber := by
    unfold UnpackedFloat.round UnpackedFloat.roundWithAccuracy
    dsimp only
    intro same
    rcases dite_eq_iff.mp same with ⟨-,zero⟩ | ⟨_,finite⟩
    · exact UnpackedFloat.noConfusion zero
    · exact UnpackedFloat.noConfusion finite
  unfold UnpackedFloat.normalize
  split
  · exact rounded _ _ _
  · exact UnpackedFloat.noConfusion
  · exact rounded _ _ _

theorem beq_ofInt64 (value : Int64) : (ofInt64 value).beq (ofInt64 value) = true :=
  beq_self _ (unpack_pack _ (normalize_known _ _ _))

end LoreDB.Library.Doubles
