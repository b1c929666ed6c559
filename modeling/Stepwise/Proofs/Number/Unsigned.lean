import Mathlib
import Stepwise.Number.Decimal

/-!
# Numerals have no negative values

The value of a numeral without sign is zero, a positive number or infinity (`Decimal.unsigned_toFloat`), so it is its own
magnitude (`Decimal.le_abs_toFloat`). This is a property of the unpacked value, `Unsigned`, which rounding, packing, and
multiplication and division by a positive finite double keep.
-/

namespace Stepwise

open Float.Model (UnpackedFloat Format)
open Float.Model.UnpackedFloat (Sign Accuracy)

/-- A number with a positive sign; it may be zero or infinite. -/
def Unsigned : UnpackedFloat → Prop
  | .zero .positive | .finite .positive .. | .infinity .positive => True
  | _ => False

instance : DecidablePred Unsigned
  | .zero .positive | .finite .positive .. | .infinity .positive => isTrue trivial
  | .zero .negative | .finite .negative .. | .infinity .negative | .notANumber => isFalse id

/-- A positive number that is not infinite. -/
def IsPositive : UnpackedFloat → Bool
  | .finite .positive .. => true
  | _ => false

/-! ## Unpacked values -/

theorem unsigned_roundWithAccuracy (spec : Format) (m : Nat) (e : Int) (acc : Accuracy) :
    Unsigned (UnpackedFloat.roundWithAccuracy spec .positive m e acc) := by
  unfold UnpackedFloat.roundWithAccuracy
  dsimp only
  split <;> trivial

theorem unsigned_mul {spec : Format} {a b : UnpackedFloat} (ha : Unsigned a) (hb : IsPositive b = true) :
    Unsigned (UnpackedFloat.mul spec a b) := by
  match a, b, ha, hb with
  | .zero .positive, .finite .positive .., _, _ => trivial
  | .infinity .positive, .finite .positive .., _, _ => trivial
  | .finite .positive .., .finite .positive .., _, _ => exact unsigned_roundWithAccuracy ..

theorem unsigned_div {spec : Format} {a b : UnpackedFloat} (ha : Unsigned a) (hb : IsPositive b = true) :
    Unsigned (UnpackedFloat.div spec a b) := by
  match a, b, ha, hb with
  | .zero .positive, .finite .positive .., _, _ => trivial
  | .infinity .positive, .finite .positive .., _, _ => trivial
  | .finite .positive .., .finite .positive .., _, _ => exact unsigned_roundWithAccuracy ..

theorem unsigned_ofNat (spec : Format) (n : Nat) : Unsigned (UnpackedFloat.ofNat spec n) := by
  unfold UnpackedFloat.ofNat UnpackedFloat.ofInt UnpackedFloat.normalize
  split
  · next h => exact absurd (Int.compare_eq_lt.1 h) (by omega)
  · trivial
  · exact unsigned_roundWithAccuracy ..

theorem unsigned_ofScientific (spec : Format) (m : Nat) (e : Int) : Unsigned (UnpackedFloat.ofScientific spec m e) := by
  unfold UnpackedFloat.ofScientific
  split
  · trivial
  · split
    · trivial
    · split
      · trivial
      · split
        · exact unsigned_mul trivial rfl
        · exact unsigned_div trivial rfl

/-! ## Packing -/

/-- Bits with a positive sign are a number, unless exponent and mantissa say otherwise. -/
theorem unsigned_unpack {b : BitVec 64} (hsign : @UnpackedFloat.unpackSign Format.binary64 b = Sign.toBitVec .positive)
    (h : @UnpackedFloat.unpackExponent Format.binary64 b = -1#11 →
      @UnpackedFloat.unpackMantissa Format.binary64 b = 0#52) :
    Unsigned (UnpackedFloat.unpack Format.binary64 b) := by
  unfold UnpackedFloat.unpack
  dsimp only
  rw [hsign]
  split
  · next he => rw [if_pos (h he)]; trivial
  · split
    · split <;> trivial
    · trivial

theorem unsigned_unpack_components {exponent : BitVec 11} {mantissa : BitVec 52}
    (h : exponent = -1#11 → mantissa = 0#52) :
    Unsigned (UnpackedFloat.unpack Format.binary64
      (UnpackedFloat.packComponents Format.binary64 .positive exponent mantissa)) := by
  refine unsigned_unpack (UnpackedFloat.unpackSign_packComponents ..) fun he => ?_
  rw [UnpackedFloat.unpackExponent_packComponents] at he
  rw [UnpackedFloat.unpackMantissa_packComponents]
  exact h he

theorem unsigned_unpack_pack {a : UnpackedFloat} (ha : Unsigned a) :
    Unsigned (UnpackedFloat.unpack Format.binary64 (UnpackedFloat.pack Format.binary64 a)) := by
  match a, ha with
  | .zero .positive, _ => exact unsigned_unpack_components (by decide)
  | .infinity .positive, _ => exact unsigned_unpack_components fun _ => rfl
  | .finite .positive m e _, _ =>
    unfold UnpackedFloat.pack
    dsimp only
    split
    · exact unsigned_unpack_components fun _ => rfl
    · split
      · next hsmall _ =>
        refine unsigned_unpack_components fun he => absurd (congrArg BitVec.toNat he) ?_
        change BitVec.toNat (BitVec.ofNat 11 _) ≠ 2047
        rw [BitVec.toNat_ofNat]
        omega
      · exact unsigned_unpack_components fun he => absurd he (by decide)

/-! ## Doubles -/

/-- The value of a double as the arithmetic of doubles sees it. -/
abbrev unpacked (v : Float) : UnpackedFloat := v.toModel.unpack

theorem ofModel_pack_unpacked (v : Float) : Float.ofModel (Float.Model.pack (unpacked v)) = v :=
  Float.toBits_inj.1 (UInt64.toBitVec_inj.1 (UnpackedFloat.pack_unpack_of_valid v.toModel.valid))

theorem abs_of_unsigned {v : Float} (h : Unsigned (unpacked v)) : v.abs = v := by
  have habs : (unpacked v).abs = unpacked v := by
    match unpacked v, h with
    | .zero .positive, _ => rfl
    | .finite .positive .., _ => rfl
    | .infinity .positive, _ => rfl
  show Float.ofModel (Float.Model.pack (unpacked v).abs) = v
  rw [habs, ofModel_pack_unpacked]

theorem le_of_not_lt {a b : UnpackedFloat} (ha : Unsigned a) (hb : IsPositive b = true) (h : a.lt b = false) :
    b.le a = true := by
  match a, b, ha, hb with
  | .zero .positive, .finite .positive .., _, _ => cases h
  | .infinity .positive, .finite .positive .., _, _ => rfl
  | .finite .positive m e _, .finite .positive m' e' _, _, _ =>
    have hcmp : ((compare e e').then (compare m m') == .lt) = false := h
    show ((compare e' e).then (compare m' m)).isLE = true
    rw [← Int.compare_swap e e', ← Nat.compare_swap m m', ← Ordering.swap_then]
    revert hcmp
    generalize (compare e e').then (compare m m') = o
    cases o <;> decide

/-! ## Values of numerals -/

theorem unsigned_ofScientific_float (m : Nat) (s : Bool) (e : Nat) :
    Unsigned (unpacked (Float.ofScientific m s e)) := by
  unfold Float.ofScientific
  split
  · next h =>
    have hpower : ∀ i : Fin 23, IsPositive (unpacked Float.exactlyRepresentablePowersOfTen[i]) = true := by decide
    have hp := hpower ⟨e, by omega⟩
    have hm : Unsigned (unpacked m.toUInt64.toFloat) := unsigned_unpack_pack (unsigned_ofNat _ _)
    dsimp only
    split
    · exact unsigned_unpack_pack (unsigned_div hm hp)
    · exact unsigned_unpack_pack (unsigned_mul hm hp)
  · exact unsigned_unpack_pack (unsigned_ofScientific _ _ _)

namespace Decimal

theorem unsigned_toFloat (d : Decimal) : Unsigned (unpacked d.toFloat) := by
  unfold toFloat
  split
  · exact unsigned_ofScientific_float 0 true 1
  · split
    · show Unsigned (unpacked infinity)
      decide
    · split
      · exact unsigned_ofScientific_float 0 true 1
      · exact unsigned_ofScientific_float ..

/-- A numeral whose value is not below a positive bound has a magnitude from that bound on. -/
theorem le_abs_toFloat {d : Decimal} {bound : Float} (hbound : IsPositive (unpacked bound) = true)
    (h : ¬ d.toFloat < bound) : bound ≤ d.toFloat.abs := by
  rw [abs_of_unsigned (unsigned_toFloat d)]
  have hlt : (unpacked d.toFloat).lt (unpacked bound) = false := Bool.eq_false_iff.2 fun hl => h (decide_eq_true hl)
  exact decide_eq_true (le_of_not_lt (unsigned_toFloat d) hbound hlt)

end Decimal

end Stepwise
