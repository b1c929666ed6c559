import Mathlib
import Stepwise.Proofs.Number.Seventeen
import Stepwise.Proofs.Number.Whole

/-!
# Numerals are read as the nearest double

The value of a decimal numeral is the double whose interval holds its exact value (`Decimal.toFloat_of_covers`). The
numeral is multiplied or divided by a power of ten once, and that one operation is rounded: either on exact integers, or
on two doubles that are exact themselves (`normal_ofNat`, `normal_powersOfTen`).
-/

namespace Stepwise

open Float.Model (UnpackedFloat Format)
open Float.Model.UnpackedFloat (Sign Accuracy)

theorem unpack_normal {b : BitVec 64} (hsign : @UnpackedFloat.unpackSign Format.binary64 b = Sign.toBitVec .positive)
    (hinf : @UnpackedFloat.unpackExponent Format.binary64 b ≠ -1#11)
    (hzero : @UnpackedFloat.unpackExponent Format.binary64 b ≠ 0#11) {c : Nat} {q : Int} (hc : 0 < c)
    (hcoeff : 2 ^ 52 + (@UnpackedFloat.unpackMantissa Format.binary64 b).toNat = c)
    (hexp : ((@UnpackedFloat.unpackExponent Format.binary64 b).toNat : Int) - 1075 = q) :
    UnpackedFloat.unpack Format.binary64 b = .finite .positive c q hc := by
  have hlt := (@UnpackedFloat.unpackMantissa Format.binary64 b).isLt
  subst hcoeff hexp
  unfold UnpackedFloat.unpack
  dsimp only
  rw [if_neg hinf, if_neg hzero]
  simp only [UnpackedFloat.finite.injEq]
  refine ⟨by rw [hsign]; rfl, ?_, rfl⟩
  rw [BitVec.toNat_append, ← Nat.shiftLeft_add_eq_or_of_lt hlt]
  rfl

theorem unpack_pack_normal {c : Nat} {q : Int} (hpos : 0 < c) (hlow : 2 ^ 52 ≤ c) (hlt : c < 2 ^ 53)
    (hmin : -1074 ≤ q) (hmax : q ≤ 971) :
    UnpackedFloat.unpack Format.binary64 (UnpackedFloat.pack Format.binary64 (.finite .positive c q hpos)) =
      .finite .positive c q hpos := by
  have hlog : c.log2 = 52 := (Nat.log2_eq_iff (by omega)).2 ⟨hlow, hlt⟩
  have hpack : UnpackedFloat.pack Format.binary64 (.finite .positive c q hpos) =
      UnpackedFloat.packComponents Format.binary64 .positive (BitVec.ofNat 11 (q + 1075).toNat) (BitVec.ofNat 52 c) := by
    have hb : (q + 1023 + 52).toNat = (q + 1075).toNat := by omega
    rw [← hb]
    exact (if_neg (show ¬ 2048 ≤ (q + 1023 + 52).toNat + 1 by omega)).trans
      (if_pos (show c.log2 + 1 = 53 by omega))
  have hfield : (BitVec.ofNat 11 (q + 1075).toNat).toNat = (q + 1075).toNat := by
    rw [BitVec.toNat_ofNat]
    omega
  have hne : ∀ field : BitVec 11, field.toNat ≠ (q + 1075).toNat → BitVec.ofNat 11 (q + 1075).toNat ≠ field := by
    rintro field h rfl
    exact h hfield
  rw [hpack]
  refine unpack_normal (UnpackedFloat.unpackSign_packComponents ..) ?_ ?_ hpos ?_ ?_
  · rw [UnpackedFloat.unpackExponent_packComponents]
    exact hne _ (show 2047 ≠ _ by omega)
  · rw [UnpackedFloat.unpackExponent_packComponents]
    exact hne _ (show 0 ≠ _ by omega)
  · rw [UnpackedFloat.unpackMantissa_packComponents, BitVec.toNat_ofNat]
    show 2 ^ 52 + c % 2 ^ 52 = c
    omega
  · rw [UnpackedFloat.unpackExponent_packComponents, hfield]
    omega

namespace Magnitude

theorem ofFloat_exp_le (v : Float) : (ofFloat v).exp ≤ 972 := by
  have hmod := Nat.mod_lt (v.toBits.toNat / leadingBit) (show 0 < 2048 by decide)
  unfold ofFloat
  dsimp only
  split
  · exact show (-1074 : Int) ≤ 972 by decide
  · dsimp only
    omega

/-- A magnitude rounds to itself. -/
theorem covers_value (m : Magnitude) : m.Covers m.value := by
  have hvalue : m.value / 2 ^ m.exp = m.coeff := by
    rw [value]
    field_simp
  rw [covers_iff, hvalue, Shortest.Interval.Contains]
  have hhigh : ((Shortest.interval m).high : ℚ) = 4 * m.coeff + 2 := by simp [Shortest.interval]
  have hlow : ((Shortest.interval m).low : ℚ) ≤ 4 * m.coeff := by
    have hnat : (Shortest.interval m).low ≤ 4 * m.coeff := Nat.sub_le ..
    exact_mod_cast hnat
  split
  · exact ⟨hlow, by linarith⟩
  · next hopen =>
    have hnat : (Shortest.interval m).low < 4 * m.coeff := by
      have hodd : ¬ m.coeff % 2 = 0 := fun h => hopen (decide_eq_true h)
      simp only [Shortest.interval]
      split <;> omega
    exact ⟨by exact_mod_cast hnat, by linarith⟩

end Magnitude

/-- The unpacked value is a positive number with 53 bits. -/
def Normal (u : UnpackedFloat) (x : ℚ) : Prop :=
  ∃ c q, ∃ hc : 0 < c, u = .finite .positive c q hc ∧ 2 ^ 52 ≤ c ∧ (c : ℚ) * 2 ^ q = x

theorem normal_ofNat {n : Nat} (h0 : 0 < n) (hlt : n < 2 ^ 53) : Normal (unpacked n.toUInt64.toFloat) n := by
  have hlog : n.log2 < 53 := (Nat.log2_lt h0.ne').2 hlt
  obtain ⟨k, hk⟩ : ∃ k, n.log2 + k = 52 := ⟨52 - n.log2, by omega⟩
  have hlow : 2 ^ 52 ≤ n * 2 ^ k := by
    rw [← hk, pow_add]
    exact Nat.mul_le_mul_right _ (Nat.log2_self_le h0.ne')
  have hhigh : n * 2 ^ k < 2 ^ 53 := by
    have hpow : 2 ^ 53 = 2 ^ (n.log2 + 1) * 2 ^ k := by rw [← pow_add]; congr 1; omega
    rw [hpow]
    exact Nat.mul_lt_mul_of_pos_right Nat.lt_log2_self (by positivity)
  have hpos : 0 < n * 2 ^ k := by omega
  have hvalue : ((n * 2 ^ k : Nat) : ℚ) * 2 ^ (-k : Int) = n := by
    push_cast
    rw [zpow_neg, zpow_natCast]
    field_simp
  have hround : UnpackedFloat.ofNat Format.binary64 n = .finite .positive (n * 2 ^ k) (-k) hpos := by
    have hgt : compare (n : Int) 0 = .gt := Int.compare_eq_gt.2 (by omega)
    have hshift : (0 - max ((n.log2 : Int) + 0 - 52) (-1074)).toNat = k := by omega
    have hexact : Approximates (n * 2 ^ k) (n * 2 ^ k : Nat) .exact := rfl
    unfold UnpackedFloat.ofNat UnpackedFloat.ofInt UnpackedFloat.normalize
    rw [hgt]
    dsimp only
    unfold UnpackedFloat.round UnpackedFloat.decreaseExponent
    dsimp only
    rw [Int.toNat_natCast, targetExponent_eq, hshift, Nat.shiftLeft_eq, Int.zero_sub]
    refine roundWithAccuracy_of_covers (m := ⟨n * 2 ^ k, -k⟩) ⟨hhigh, by dsimp only; omega, .inl hlow⟩ hpos hexact ?_
      (Magnitude.covers_value _) _
    rw [targetExponent_eq, (Nat.log2_eq_iff hpos.ne').2 ⟨hlow, hhigh⟩]
    omega
  refine ⟨n * 2 ^ k, -k, hpos, ?_, hlow, hvalue⟩
  have hword : n.toUInt64.toNat = n := Nat.mod_eq_of_lt (by omega)
  show UnpackedFloat.unpack Format.binary64 (UnpackedFloat.pack Format.binary64
    (UnpackedFloat.ofNat Format.binary64 n.toUInt64.toNat)) = _
  rw [hword, hround]
  exact unpack_pack_normal hpos hlow hhigh (by omega) (by omega)

/-- A computed form of `Normal` for a power of ten. -/
def isPowerOfTen (k : Nat) : UnpackedFloat → Bool
  | .finite .positive c q _ => 2 ^ 52 ≤ c ∧ c * 2 ^ q.toNat = 10 ^ k * 2 ^ (-q).toNat
  | _ => false

theorem normal_of_isPowerOfTen {k : Nat} {u : UnpackedFloat} (h : isPowerOfTen k u = true) : Normal u (10 ^ k) := by
  match u, h with
  | .finite .positive c q hc, h =>
    obtain ⟨hlow, heq⟩ := of_decide_eq_true h
    refine ⟨c, q, hc, rfl, hlow, ?_⟩
    have heq : (c : ℚ) * 2 ^ q.toNat = 10 ^ k * 2 ^ (-q).toNat := by exact_mod_cast heq
    rw [zpow_eq_div (by norm_num), ← mul_div_assoc, heq]
    field_simp

/-- The table of powers of ten is exact. -/
theorem normal_powersOfTen {k : Nat} (hk : k < Float.exactlyRepresentablePowersOfTen.size) :
    Normal (unpacked Float.exactlyRepresentablePowersOfTen[k]) (10 ^ k) := by
  have hall : ∀ i : Fin 23, isPowerOfTen i (unpacked Float.exactlyRepresentablePowersOfTen[i]) = true := by
    decide +kernel
  exact normal_of_isPowerOfTen (hall ⟨k, hk⟩)

/-! ## Values of numerals -/

theorem unpacked_of_isPositive {v : Float} (hv : IsPositive (unpacked v) = true) :
    ∃ hpos, unpacked v = .finite .positive (Magnitude.ofFloat v).coeff (Magnitude.ofFloat v).exp hpos := by
  have hmagnitude := @ofFloat_of_unpacked v
  generalize unpacked v = u at hv hmagnitude
  match u, hv with
  | .finite .positive c q hc, _ =>
    rw [hmagnitude rfl]
    exact ⟨hc, rfl⟩

namespace Decimal

/-- The number that the decimal stands for. -/
def value (d : Decimal) : ℚ := d.coefficient * 10 ^ d.exponent

theorem value_of_neg {d : Decimal} (h : d.exponent < 0) : d.value = d.coefficient / 10 ^ d.exponent.natAbs := by
  have habs : d.exponent = -(d.exponent.natAbs : Int) := by omega
  rw [value]
  conv_lhs => rw [habs]
  rw [zpow_neg, zpow_natCast, div_eq_mul_inv]

theorem value_of_nonneg {d : Decimal} (h : ¬ d.exponent < 0) : d.value = d.coefficient * 10 ^ d.exponent.natAbs := by
  have habs : d.exponent = (d.exponent.natAbs : Int) := by omega
  rw [value]
  conv_lhs => rw [habs]
  rw [zpow_natCast]

variable {d : Decimal} {v : Float} 

theorem ofScientific_of_covers (hv : IsPositive (unpacked v) = true) (h : (Magnitude.ofFloat v).Covers d.value)
    (hpos : 0 < d.coefficient) (hhigh : d.exponent ≤ 400) (hlow : -400 ≤ d.exponent + d.coefficient.log2) :
    UnpackedFloat.ofScientific Format.binary64 d.coefficient d.exponent = unpacked v := by
  obtain ⟨hcoeff, hunpacked⟩ := unpacked_of_isPositive hv
  have hcanonical := Magnitude.isCanonical_ofFloat v
  have hbits : (2 : Int) ^ Format.binary64.exponentBits = 2048 := rfl
  unfold UnpackedFloat.ofScientific
  rw [dif_neg hpos.ne', hbits, if_neg (by omega), if_neg (by omega), hunpacked]
  split
  · next hexp =>
    have hvalue : ((d.coefficient <<< 53 : Nat) : ℚ) * 2 ^ (-53 : Int) * ((10 ^ d.exponent.toNat : Nat) * 2 ^ (0 : Int)) =
        d.value := by
      have habs : d.exponent.toNat = d.exponent.natAbs := by omega
      rw [value_of_nonneg (by omega), Nat.shiftLeft_eq, habs, zpow_zero, mul_one, zpow_neg]
      push_cast
      congr 1
      exact mul_inv_cancel_right₀ (by norm_num) _
    refine mul_of_covers hcanonical hcoeff _ _ ?_ (hvalue ▸ h)
    show 2 ^ 52 ≤ d.coefficient <<< 53 * 10 ^ d.exponent.toNat
    have hten : 0 < 10 ^ d.exponent.toNat := by positivity
    rw [Nat.shiftLeft_eq]
    nlinarith
  · next hexp =>
    have hvalue : (d.coefficient : ℚ) * 2 ^ (0 : Int) / ((10 ^ (-d.exponent).toNat : Nat) * 2 ^ (0 : Int)) = d.value := by
      have habs : (-d.exponent).toNat = d.exponent.natAbs := by omega
      rw [value_of_neg (by omega), habs]
      simp
    exact div_of_covers hcanonical hcoeff _ _ (hvalue ▸ h)

/-- The short way over two doubles gives the same as the exact one. -/
theorem ofScientific_float_of_covers (hv : IsPositive (unpacked v) = true) (h : (Magnitude.ofFloat v).Covers d.value)
    (hpos : 0 < d.coefficient) (hhigh : d.exponent ≤ 400) (hlow : -400 ≤ d.exponent + d.coefficient.log2) :
    Float.ofScientific d.coefficient (d.exponent < 0) d.exponent.natAbs = v := by
  obtain ⟨hcoeff, hunpacked⟩ := unpacked_of_isPositive hv
  have hcanonical := Magnitude.isCanonical_ofFloat v
  unfold Float.ofScientific
  split
  · next hsmall =>
    obtain ⟨c₁, q₁, h₁, hn, hbits, hvalue₁⟩ := normal_ofNat hpos hsmall.1
    have hk : d.exponent.natAbs < Float.exactlyRepresentablePowersOfTen.size := show _ < 23 by omega
    obtain ⟨c₂, q₂, h₂, hten, -, hvalue₂⟩ := normal_powersOfTen hk
    dsimp only
    split
    · next hneg =>
      rw [value_of_neg (of_decide_eq_true hneg), ← hvalue₁, ← hvalue₂] at h
      show Float.ofModel (Float.Model.pack (UnpackedFloat.div Format.binary64 (unpacked d.coefficient.toUInt64.toFloat)
        (unpacked Float.exactlyRepresentablePowersOfTen[d.exponent.natAbs]))) = v
      rw [hn, hten, div_of_covers hcanonical hcoeff h₁ h₂ h, ← hunpacked, ofModel_pack_unpacked]
    · next hneg =>
      rw [value_of_nonneg (fun hlt => hneg (decide_eq_true hlt)), ← hvalue₁, ← hvalue₂] at h
      show Float.ofModel (Float.Model.pack (UnpackedFloat.mul Format.binary64 (unpacked d.coefficient.toUInt64.toFloat)
        (unpacked Float.exactlyRepresentablePowersOfTen[d.exponent.natAbs]))) = v
      have hbits : 2 ^ 52 ≤ c₁ * c₂ := le_trans hbits (Nat.le_mul_of_pos_right _ h₂)
      rw [hn, hten, mul_of_covers hcanonical hcoeff h₁ h₂ hbits h, ← hunpacked, ofModel_pack_unpacked]
  · have hexp : (if decide (d.exponent < 0) = true then Int.negOfNat d.exponent.natAbs else Int.ofNat d.exponent.natAbs) =
        d.exponent := by
      split
      · next hneg =>
        have := of_decide_eq_true hneg
        rw [Int.negOfNat_eq]
        show -(d.exponent.natAbs : Int) = _
        omega
      · next hneg =>
        have : ¬ d.exponent < 0 := fun hlt => hneg (decide_eq_true hlt)
        show (d.exponent.natAbs : Int) = _
        omega
    dsimp only
    rw [hexp]
    show Float.ofModel (Float.Model.pack (UnpackedFloat.ofScientific Format.binary64 d.coefficient d.exponent)) = v
    rw [ofScientific_of_covers hv h hpos hhigh hlow, ofModel_pack_unpacked]

/-- Numbers that round to a double are far from the bounds from which on no power of ten is computed. -/
theorem value_bounds_of_covers (hv : IsPositive (unpacked v) = true) (h : (Magnitude.ofFloat v).Covers d.value) :
    2 ^ (-1075 : Int) ≤ d.value ∧ d.value ≤ 2 ^ (1025 : Int) := by
  obtain ⟨hcoeff, -⟩ := unpacked_of_isPositive hv
  have hcanonical := Magnitude.isCanonical_ofFloat v
  have hexp := Magnitude.ofFloat_exp_le v
  obtain ⟨hlow, hhigh, -⟩ := h.near
  generalize Magnitude.ofFloat v = m at hcoeff hcanonical hexp hlow hhigh
  have hunit : (0 : ℚ) < 2 ^ m.exp := by positivity
  rw [le_div_iff₀ hunit] at hlow
  rw [div_le_iff₀ hunit] at hhigh
  have hone : (1 : ℚ) ≤ m.coeff := by exact_mod_cast hcoeff
  have hlt : (m.coeff : ℚ) + 1 ≤ 2 ^ 53 := by exact_mod_cast hcanonical.coeff_lt
  constructor
  · calc (2 : ℚ) ^ (-1075 : Int) ≤ 2 ^ (m.exp - 1) :=
          zpow_le_zpow_right₀ (by norm_num) (by have := hcanonical.le_exp; omega)
      _ = 1 / 2 * 2 ^ m.exp := by rw [zpow_sub_one₀ (by norm_num)]; ring
      _ ≤ (m.coeff - 1 / 2) * 2 ^ m.exp := by gcongr; linarith
      _ ≤ d.value := hlow
  · calc d.value ≤ (m.coeff + 1 / 2) * 2 ^ m.exp := hhigh
      _ ≤ 2 ^ 53 * 2 ^ m.exp := by gcongr; linarith
      _ = 2 ^ ((53 : Nat) + m.exp) := by rw [zpow_add₀ (by norm_num), zpow_natCast]
      _ ≤ 2 ^ (1025 : Int) := zpow_le_zpow_right₀ (by norm_num) (by omega)

theorem two_zpow_le_ten_zpow {k : Int} (hk : 0 ≤ k) : (2 : ℚ) ^ (3 * k) ≤ 10 ^ k := by
  obtain ⟨n, rfl⟩ := Int.eq_ofNat_of_zero_le hk
  rw [zpow_mul]
  exact zpow_le_zpow_left₀ (by omega) (by norm_num) (by norm_num)

theorem ten_zpow_le_of_nonpos {k : Int} (hk : k ≤ 0) : (10 : ℚ) ^ k ≤ 2 ^ (3 * k) := by
  have h := two_zpow_le_ten_zpow (k := -k) (by omega)
  rw [mul_neg, zpow_neg, zpow_neg] at h
  exact (inv_le_inv₀ (by positivity) (by positivity)).1 h

/-- The value of a numeral is the double whose interval holds it. -/
theorem toFloat_of_covers (hv : IsPositive (unpacked v) = true) (h : (Magnitude.ofFloat v).Covers d.value) :
    d.toFloat = v := by
  obtain ⟨hlow, hhigh⟩ := value_bounds_of_covers hv h
  have htwo : (1 : ℚ) < 2 := by norm_num
  have hpos : 0 < d.coefficient := by
    apply Nat.pos_of_ne_zero
    intro h0
    rw [value, h0, Nat.cast_zero, zero_mul] at hlow
    exact absurd hlow (not_le.2 (by positivity))
  have hle : d.exponent ≤ 400 := by
    by_contra hgt
    have hlarge : (2 : ℚ) ^ (3 * d.exponent) ≤ 2 ^ (1025 : Int) := by
      have hone : (1 : ℚ) ≤ d.coefficient := by exact_mod_cast hpos
      calc (2 : ℚ) ^ (3 * d.exponent) ≤ 1 * 10 ^ d.exponent := by rw [one_mul]; exact two_zpow_le_ten_zpow (by omega)
        _ ≤ d.value := by rw [value]; gcongr
        _ ≤ 2 ^ (1025 : Int) := hhigh
    have := (zpow_le_zpow_iff_right₀ htwo).1 hlarge
    omega
  have hge : -400 ≤ d.exponent + d.coefficient.log2 := by
    by_contra hlt
    have hsmall : (2 : ℚ) ^ (-1075 : Int) ≤ 2 ^ ((d.coefficient.log2 + 1 : Nat) + 3 * d.exponent) := by
      have hcoeff : (d.coefficient : ℚ) ≤ 2 ^ (d.coefficient.log2 + 1) := by exact_mod_cast Nat.lt_log2_self.le
      calc (2 : ℚ) ^ (-1075 : Int) ≤ d.value := hlow
        _ ≤ 2 ^ (d.coefficient.log2 + 1) * 2 ^ (3 * d.exponent) := by
            rw [value]
            gcongr
            exact ten_zpow_le_of_nonpos (by omega)
        _ = 2 ^ ((d.coefficient.log2 + 1 : Nat) + 3 * d.exponent) := by rw [zpow_add₀ (by norm_num), zpow_natCast]
    have := (zpow_le_zpow_iff_right₀ htwo).1 hsmall
    omega
  rw [toFloat, if_neg hpos.ne', if_neg (by omega), if_neg (by omega)]
  exact ofScientific_float_of_covers hv h hpos hle hge

end Decimal

end Stepwise
