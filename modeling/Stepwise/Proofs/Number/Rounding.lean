import Mathlib
import Stepwise.Number.Shortest
import Stepwise.Proofs.Number.Unsigned

/-!
# Rounding to the nearest double

A double stands for all numbers in its interval (`Shortest.interval`); here the interval is read as a set of rationals,
`Magnitude.Covers`. Rounding finds the double whose interval holds the exact number (`roundWithAccuracy_of_covers`), so
multiplication and division do so as well (`mul_of_covers`, `div_of_covers`).

The bits that a shift drops are remembered as an `Accuracy`; `Approximates` says what it means for the number that the
mantissa was cut from, and a shift by one keeps it (`Approximates.shiftRightOne`).
-/

namespace Stepwise

open Float.Model (UnpackedFloat Format totalExponent)
open Float.Model.UnpackedFloat (Sign Accuracy ExtendedMantissa)

/-! ## Intervals of rationals -/

/-- The number lies in the interval. -/
def Shortest.Interval.Contains (i : Shortest.Interval) (x : ℚ) : Prop :=
  if i.closed then i.low ≤ x ∧ x ≤ i.high else i.low < x ∧ x < i.high

namespace Magnitude

/-- The number that the magnitude stands for. -/
def value (m : Magnitude) : ℚ := m.coeff * 2 ^ m.exp

/-- The number lies in the interval that rounds to the magnitude. -/
def Covers (m : Magnitude) (r : ℚ) : Prop := (Shortest.interval m).Contains (r / 2 ^ (m.exp - 2))

/-- The magnitude is that of a double: all bits are used, unless the exponent is the least one. -/
structure IsCanonical (m : Magnitude) : Prop where
  coeff_lt : m.coeff < 2 ^ 53
  le_exp : -1074 ≤ m.exp
  normal : 2 ^ 52 ≤ m.coeff ∨ m.exp = -1074

/-- The magnitude of a double is canonical. -/
theorem isCanonical_ofFloat (v : Float) : (ofFloat v).IsCanonical := by
  have hmod := Nat.mod_lt v.toBits.toNat (show 0 < leadingBit by decide)
  have hbit : leadingBit = 2 ^ 52 := rfl
  unfold ofFloat
  dsimp only
  split
  · exact ⟨by dsimp only; omega, le_rfl, .inr rfl⟩
  · exact ⟨by dsimp only; omega, by dsimp only; omega, .inl (by dsimp only; omega)⟩

variable {m : Magnitude} {r : ℚ}

theorem covers_iff : m.Covers r ↔ (Shortest.interval m).Contains (4 * (r / 2 ^ m.exp)) := by
  have hunit : r / 2 ^ (m.exp - 2) = 4 * (r / 2 ^ m.exp) := by
    rw [zpow_sub₀ (by norm_num)]
    field_simp
    norm_num
  rw [Covers, hunit]

/-- The number is at most half a unit away, and less than that if the coefficient is odd. -/
theorem Covers.near (h : m.Covers r) :
    m.coeff - 1 / 2 ≤ r / 2 ^ m.exp ∧ r / 2 ^ m.exp ≤ m.coeff + 1 / 2 ∧
      (m.coeff % 2 = 1 → m.coeff - 1 / 2 < r / 2 ^ m.exp ∧ r / 2 ^ m.exp < m.coeff + 1 / 2) := by
  rw [covers_iff] at h
  generalize r / 2 ^ m.exp = y at h ⊢
  have hlow : (4 * m.coeff : ℚ) ≤ (Shortest.interval m).low + 2 := by
    have hnat : 4 * m.coeff ≤ (Shortest.interval m).low + 2 := by
      simp only [Shortest.interval]
      split <;> omega
    exact_mod_cast hnat
  have hhigh : ((Shortest.interval m).high : ℚ) = 4 * m.coeff + 2 := by
    simp [Shortest.interval]
  rw [Shortest.Interval.Contains, hhigh] at h
  split at h
  · next hclosed =>
    have heven : m.coeff % 2 = 0 := of_decide_eq_true hclosed
    refine ⟨by linarith [h.1], by linarith [h.2], fun hodd => ?_⟩
    omega
  · exact ⟨by linarith [h.1], by linarith [h.2], fun _ => ⟨by linarith [h.1], by linarith [h.2]⟩⟩

/-- Below a power of two the interval is half as wide. -/
theorem Covers.near_below (h : m.Covers r) (hm : m.coeff = 2 ^ 52) (hexp : -1074 < m.exp) :
    m.coeff - 1 / 4 ≤ r / 2 ^ m.exp := by
  rw [covers_iff] at h
  have hlow : (4 * m.coeff : ℚ) ≤ (Shortest.interval m).low + 1 := by
    have hnat : 4 * m.coeff ≤ (Shortest.interval m).low + 1 := by
      simp only [Shortest.interval]
      rw [if_pos ⟨hm, hexp⟩]
      omega
    exact_mod_cast hnat
  rw [Shortest.Interval.Contains] at h
  split at h
  · linarith [h.1]
  · linarith [h.1]

end Magnitude

/-! ## Mantissas and what was cut off -/

/-- The mantissa was cut from the number with this accuracy. -/
def Approximates (n : Nat) (x : ℚ) : Accuracy → Prop
  | .exact => x = n
  | .inexact .lt => n < x ∧ x < n + 1 / 2
  | .inexact .eq => x = n + 1 / 2
  | .inexact .gt => n + 1 / 2 < x ∧ x < n + 1

namespace Approximates

variable {n : Nat} {x : ℚ} {a : Accuracy}

theorem bounds (h : Approximates n x a) : n ≤ x ∧ x < n + 1 := by
  match a, h with
  | .exact, h => exact ⟨le_of_eq h.symm, by rw [h]; linarith⟩
  | .inexact .lt, h => exact ⟨h.1.le, by linarith [h.2]⟩
  | .inexact .eq, h => exact ⟨by rw [h]; linarith, by rw [h]; linarith⟩
  | .inexact .gt, h => exact ⟨by linarith [h.1], h.2⟩

theorem shiftRightOne {em : ExtendedMantissa} (h : Approximates em.mantissa x em.accuracy) :
    Approximates em.shiftRightOne.mantissa (x / 2) em.shiftRightOne.accuracy := by
  obtain ⟨n, round, sticky⟩ := em
  have hn : (n : ℚ) = 2 * (n / 2 : Nat) + (n % 2 : Nat) := by exact_mod_cast (Nat.div_add_mod n 2).symm
  rw [ExtendedMantissa.shiftRightOne]
  dsimp only at h ⊢
  generalize n / 2 = half at hn ⊢
  rcases Nat.mod_two_eq_zero_or_one n with hmod | hmod <;> rw [hmod] at hn ⊢ <;> push_cast at hn
  · match round, sticky, h with
    | false, false, (h : x = n) => exact show x / 2 = half by linarith
    | false, true, (h : n < x ∧ x < n + 1 / 2) =>
      exact show half < x / 2 ∧ x / 2 < half + 1 / 2 from ⟨by linarith, by linarith⟩
    | true, false, (h : x = n + 1 / 2) =>
      exact show half < x / 2 ∧ x / 2 < half + 1 / 2 from ⟨by linarith, by linarith⟩
    | true, true, (h : n + 1 / 2 < x ∧ x < n + 1) =>
      exact show half < x / 2 ∧ x / 2 < half + 1 / 2 from ⟨by linarith, by linarith⟩
  · match round, sticky, h with
    | false, false, (h : x = n) => exact show x / 2 = half + 1 / 2 by linarith
    | false, true, (h : n < x ∧ x < n + 1 / 2) =>
      exact show half + 1 / 2 < x / 2 ∧ x / 2 < half + 1 from ⟨by linarith, by linarith⟩
    | true, false, (h : x = n + 1 / 2) =>
      exact show half + 1 / 2 < x / 2 ∧ x / 2 < half + 1 from ⟨by linarith, by linarith⟩
    | true, true, (h : n + 1 / 2 < x ∧ x < n + 1) =>
      exact show half + 1 / 2 < x / 2 ∧ x / 2 < half + 1 from ⟨by linarith, by linarith⟩

theorem shiftRight {em : ExtendedMantissa} (h : Approximates em.mantissa x em.accuracy) (k : Nat) :
    Approximates (em >>> k).mantissa (x / 2 ^ k) (em >>> k).accuracy := by
  induction k with
  | zero =>
    rw [pow_zero, div_one]
    exact h
  | succ k ih =>
    rw [pow_succ, ← div_div]
    exact ih.shiftRightOne

/-- The rounded mantissa is the nearest natural number, and the even one of two. -/
theorem roundToNearestEven_eq {c : Nat} (h : Approximates n x a) (hlow : c - 1 / 2 ≤ x) (hhigh : x ≤ c + 1 / 2)
    (hodd : c % 2 = 1 → c - 1 / 2 < x ∧ x < c + 1 / 2) : a.roundToNearestEven n = c := by
  have hbounds := h.bounds
  have hle : n ≤ c := by
    have : (n : ℚ) < c + 1 := by linarith
    exact Nat.lt_succ_iff.1 (by exact_mod_cast this)
  have hge : c ≤ n + 1 := by
    have : (c : ℚ) < n + 1 + 1 := by linarith
    exact Nat.lt_succ_iff.1 (by exact_mod_cast this)
  match a, h with
  | .exact, h =>
    have : (c : ℚ) < n + 1 := by rw [h] at hlow; linarith
    have hlt : c < n + 1 := by exact_mod_cast this
    show n = c
    omega
  | .inexact .lt, h =>
    have : (c : ℚ) < n + 1 := by linarith [h.2]
    have hlt : c < n + 1 := by exact_mod_cast this
    show n = c
    omega
  | .inexact .eq, h =>
    -- the number lies midway, so `c` is even
    have heven : c % 2 = 0 := by
      rcases Nat.mod_two_eq_zero_or_one c with hc | hc
      · exact hc
      · exfalso
        obtain ⟨hl, hr⟩ := hodd hc
        rw [h] at hl hr
        have h1 : n < c := by
          have : (n : ℚ) < c := by linarith
          exact_mod_cast this
        have h2 : c < n + 1 := by
          have : (c : ℚ) < n + 1 := by linarith
          exact_mod_cast this
        omega
    show n + n % 2 = c
    omega
  | .inexact .gt, h =>
    have : (n : ℚ) < c := by linarith [h.1]
    have hlt : n < c := by exact_mod_cast this
    show n + 1 = c
    omega

end Approximates

/-! ## Rounding -/

theorem targetExponent_eq (n : Nat) (e : Int) :
    Format.binary64.targetExponent (totalExponent n e) = max (n.log2 + e - 52) (-1074) := by
  show max ((n.log2 : Int) + 1 + e - 53) (-1074) = _
  omega

theorem accuracy_ofMantissaAndAccuracy (n : Nat) (a : Accuracy) :
    (ExtendedMantissa.ofMantissaAndAccuracy n a).mantissa = n ∧
      (ExtendedMantissa.ofMantissaAndAccuracy n a).accuracy = a := by
  match a with
  | .exact | .inexact .lt | .inexact .eq | .inexact .gt => exact ⟨rfl, rfl⟩

/-- At the target exponent the number has at most 53 bits before the point, and just as many unless the exponent is the
least one. -/
theorem Approximates.target_bounds {n : Nat} {x : ℚ} {a : Accuracy} {e t : Int} (h : Approximates n x a)
    (ht : t = max (n.log2 + e - 52) (-1074)) (he : e ≤ t) :
    x * 2 ^ e < 2 ^ (t + 53) ∧ (t = -1074 ∨ 2 ^ (t + 52) ≤ x * 2 ^ e) := by
  obtain ⟨hle, hlt⟩ := h.bounds
  have hunit : (0 : ℚ) < 2 ^ e := by positivity
  constructor
  · have hn : (n : ℚ) + 1 ≤ 2 ^ (n.log2 + 1) := by exact_mod_cast Nat.lt_log2_self
    calc x * 2 ^ e < 2 ^ (n.log2 + 1) * 2 ^ e := by gcongr; linarith
      _ = 2 ^ ((n.log2 + 1 : Nat) + e) := by rw [zpow_add₀ (by norm_num), zpow_natCast]
      _ ≤ 2 ^ (t + 53) := zpow_le_zpow_right₀ (by norm_num) (by push_cast; omega)
  · by_cases hmin : t = -1074
    · exact .inl hmin
    · have hn0 : n ≠ 0 := by
        rintro rfl
        rw [Nat.log2_zero] at ht
        omega
      have hn : (2 : ℚ) ^ n.log2 ≤ n := by exact_mod_cast Nat.log2_self_le hn0
      refine .inr ?_
      calc (2 : ℚ) ^ (t + 52) = 2 ^ ((n.log2 : Int) + e) := by congr 1; omega
        _ = 2 ^ n.log2 * 2 ^ e := by rw [zpow_add₀ (by norm_num), zpow_natCast]
        _ ≤ x * 2 ^ e := by gcongr; linarith

/-- A coefficient of at most 53 bits is not shifted. -/
theorem shiftToTargetExponent_small {c : Nat} {q : Int} (hc : c < 2 ^ 53) (hq : -1074 ≤ q) :
    UnpackedFloat.shiftToTargetExponent Format.binary64 c q .exact = (⟨c, false, false⟩, q) := by
  have hlog : c.log2 < 53 := by
    by_cases h0 : c = 0
    · rw [h0]; decide
    · exact (Nat.log2_lt h0).2 hc
  have hshift : (Format.binary64.targetExponent (totalExponent c q) - q).toNat = 0 := by
    rw [targetExponent_eq]
    omega
  unfold UnpackedFloat.shiftToTargetExponent UnpackedFloat.shiftToExponent
  dsimp only
  rw [hshift]
  simp [HShiftRight.hShiftRight, Nat.repeat, ExtendedMantissa.ofMantissaAndAccuracy]

/-- A carry beyond 53 bits is shifted back. -/
theorem shiftToTargetExponent_carry {q : Int} (hq : -1074 ≤ q) :
    UnpackedFloat.shiftToTargetExponent Format.binary64 (2 ^ 53) q .exact = (⟨2 ^ 52, false, false⟩, q + 1) := by
  have hshift : (Format.binary64.targetExponent (totalExponent (2 ^ 53) q) - q).toNat = 1 := by
    rw [targetExponent_eq, Nat.log2_two_pow]
    omega
  unfold UnpackedFloat.shiftToTargetExponent UnpackedFloat.shiftToExponent
  dsimp only
  rw [hshift]
  rfl

theorem shiftToTargetExponent_approximates {n : Nat} {x : ℚ} {a : Accuracy} {e : Int} (h : Approximates n x a)
    (he : e ≤ Format.binary64.targetExponent (totalExponent n e)) :
    ∃ em, UnpackedFloat.shiftToTargetExponent Format.binary64 n e a =
        (em, Format.binary64.targetExponent (totalExponent n e)) ∧
      Approximates em.mantissa (x * 2 ^ e / 2 ^ Format.binary64.targetExponent (totalExponent n e)) em.accuracy := by
  generalize ht : Format.binary64.targetExponent (totalExponent n e) = t at he
  obtain ⟨k, rfl⟩ := Int.le.dest he
  obtain ⟨hmantissa, haccuracy⟩ := accuracy_ofMantissaAndAccuracy n a
  have hk : (e + k - e).toNat = k := by omega
  refine ⟨ExtendedMantissa.ofMantissaAndAccuracy n a >>> k, ?_, ?_⟩
  · unfold UnpackedFloat.shiftToTargetExponent UnpackedFloat.shiftToExponent
    dsimp only
    rw [ht, hk]
  · rw [zpow_add₀ (by norm_num), zpow_natCast, mul_comm x, mul_div_mul_left _ _ (by positivity)]
    exact Approximates.shiftRight (by rwa [hmantissa, haccuracy]) k

/-- A number that rounds to a double has the exponent of the double as its target, or the one below if it rounds up to
a power of two. -/
theorem Magnitude.Covers.target {m : Magnitude} {r : ℚ} {t : Int} (h : m.Covers r) (hm : m.IsCanonical)
    (hmin : -1074 ≤ t) (hlt : r < 2 ^ (t + 53)) (hle : t = -1074 ∨ 2 ^ (t + 52) ≤ r) :
    t = m.exp ∨ t + 1 = m.exp ∧ m.coeff = 2 ^ 52 := by
  have hone : (1 : ℚ) < 2 := by norm_num
  obtain ⟨hlow, hhigh, -⟩ := h.near
  have hscale : ∀ k : Int, (2 : ℚ) ^ (m.exp + k) = 2 ^ k * 2 ^ m.exp := fun k => by
    rw [add_comm, zpow_add₀ (by norm_num)]
  have hunit : (0 : ℚ) < 2 ^ m.exp := by positivity
  rcases lt_trichotomy t m.exp with hbelow | heq | habove
  · -- the number is below `2 ^ 52` units of the double
    have hnormal : 2 ^ 52 ≤ m.coeff := hm.normal.resolve_right (by omega)
    have hy : r / 2 ^ m.exp < 2 ^ 52 := by
      rw [div_lt_iff₀ hunit]
      calc r < 2 ^ (t + 53) := hlt
        _ ≤ 2 ^ (m.exp + 52) := zpow_le_zpow_right₀ hone.le (by omega)
        _ = 2 ^ 52 * 2 ^ m.exp := by rw [hscale]; norm_num
    have hcoeff : m.coeff = 2 ^ 52 := by
      have : (m.coeff : ℚ) < 2 ^ 52 + 1 := by linarith
      have : m.coeff < 2 ^ 52 + 1 := by exact_mod_cast this
      omega
    have hlow := h.near_below hcoeff (by omega)
    rw [hcoeff] at hlow
    have hgt : (2 : ℚ) ^ (m.exp + 51) < 2 ^ (t + 53) := by
      calc (2 : ℚ) ^ (m.exp + 51) = 2 ^ 51 * 2 ^ m.exp := by rw [hscale]; norm_num
        _ ≤ r := by rw [← le_div_iff₀ hunit]; push_cast at hlow; linarith
        _ < 2 ^ (t + 53) := hlt
    have := (zpow_lt_zpow_iff_right₀ hone).1 hgt
    exact .inr ⟨by omega, hcoeff⟩
  · exact .inl heq
  · exfalso
    have hcoeff : (m.coeff : ℚ) + 1 ≤ 2 ^ 53 := by exact_mod_cast hm.coeff_lt
    have hlow := hle.resolve_left (by have := hm.le_exp; omega)
    have hgt : (2 : ℚ) ^ (t + 52) < 2 ^ (m.exp + 53) := by
      calc (2 : ℚ) ^ (t + 52) ≤ r := hlow
        _ < 2 ^ 53 * 2 ^ m.exp := by rw [← div_lt_iff₀ hunit]; linarith
        _ = 2 ^ (m.exp + 53) := by rw [hscale]; norm_num
    have := (zpow_lt_zpow_iff_right₀ hone).1 hgt
    omega

/-- Rounding finds the double whose interval holds the exact number. -/
theorem roundWithAccuracy_of_covers {m : Magnitude} (hm : m.IsCanonical) (hpos : 0 < m.coeff) {n : Nat} {e : Int}
    {a : Accuracy} {x : ℚ} (hx : Approximates n x a) (he : e ≤ Format.binary64.targetExponent (totalExponent n e))
    (h : m.Covers (x * 2 ^ e)) (s : Sign) :
    UnpackedFloat.roundWithAccuracy Format.binary64 s n e a = .finite s m.coeff m.exp hpos := by
  have ht := targetExponent_eq n e
  obtain ⟨em, hshift, hem⟩ := shiftToTargetExponent_approximates hx he
  generalize Format.binary64.targetExponent (totalExponent n e) = t at he ht hshift hem
  obtain ⟨hlt, hle⟩ := hx.target_bounds ht he
  obtain ⟨hlow, hhigh, hodd⟩ := h.near
  unfold UnpackedFloat.roundWithAccuracy
  rw [hshift]
  dsimp only
  rcases h.target hm (by omega) hlt hle with rfl | ⟨hexp, hcoeff⟩
  · have hround : em.roundedMantissa = m.coeff := hem.roundToNearestEven_eq hlow hhigh hodd
    rw [hround, shiftToTargetExponent_small hm.coeff_lt hm.le_exp, dif_neg (by dsimp only; omega)]
  · -- twice the number of units rounds up to `2 ^ 53`
    have hround : em.roundedMantissa = 2 ^ 53 := by
      have hlow := h.near_below hcoeff (by omega)
      have hdouble : x * 2 ^ e / 2 ^ t = 2 * (x * 2 ^ e / 2 ^ m.exp) := by
        rw [← hexp, zpow_add₀ (by norm_num)]
        field_simp
      rw [hcoeff] at hlow hhigh
      have hhigh' : x * 2 ^ e / 2 ^ t < 2 ^ 53 := by
        rw [div_lt_iff₀ (by positivity), ← zpow_natCast, ← zpow_add₀ (by norm_num), add_comm]
        exact hlt
      refine hem.roundToNearestEven_eq (by rw [hdouble]; push_cast at hlow ⊢; linarith) (by push_cast; linarith) ?_
      intro hodd
      omega
    rw [hround, shiftToTargetExponent_carry (by omega), dif_neg (show (2 ^ 52 : Nat) ≠ 0 by decide)]
    simp only [hcoeff, hexp]

/-! ## Products and quotients -/

section

variable {m : Magnitude} (hm : m.IsCanonical) (hpos : 0 < m.coeff)
  {m₁ m₂ : Nat} {e₁ e₂ : Int} (h₁ : 0 < m₁) (h₂ : 0 < m₂)

include hm in
/-- A product is rounded to the double whose interval holds it. -/
theorem mul_of_covers (hbits : 2 ^ 52 ≤ m₁ * m₂) (h : m.Covers (m₁ * 2 ^ e₁ * (m₂ * 2 ^ e₂))) :
    UnpackedFloat.mul Format.binary64 (.finite .positive m₁ e₁ h₁) (.finite .positive m₂ e₂ h₂) =
      .finite .positive m.coeff m.exp hpos := by
  have hlog : 52 ≤ (m₁ * m₂).log2 := (Nat.le_log2 (by omega)).2 hbits
  have hexact : Approximates (m₁ * m₂) (m₁ * m₂ : Nat) .exact := rfl
  refine roundWithAccuracy_of_covers hm hpos hexact ?_ ?_ _
  · rw [targetExponent_eq]
    omega
  · rw [zpow_add₀ (by norm_num)]
    push_cast
    rwa [mul_mul_mul_comm]

/-- The remainder of a division says how the quotient was cut off. -/
theorem approximates_div (n : Nat) {d : Nat} (hd : 0 < d) :
    Approximates (n / d) (n / d) (UnpackedFloat.accuracyOfFraction (n % d) d) := by
  have hd' : (0 : ℚ) < d := by exact_mod_cast hd
  have hn : (n : ℚ) / d = (n / d : Nat) + (n % d : Nat) / d := by
    have : (n : ℚ) = d * (n / d : Nat) + (n % d : Nat) := by exact_mod_cast (Nat.div_add_mod n d).symm
    field_simp
    linarith
  have hlt : ((n % d : Nat) : ℚ) / d < 1 := by
    rw [div_lt_one hd']
    exact_mod_cast Nat.mod_lt n hd
  rw [UnpackedFloat.accuracyOfFraction]
  rw [hn]
  generalize n % d = rest at hlt ⊢
  split
  · next h0 => simp [Approximates, h0]
  · next h0 =>
    have hrest : (0 : ℚ) < rest / d := by
      have : 0 < rest := Nat.pos_of_ne_zero h0
      positivity
    rcases lt_trichotomy (2 * rest) d with hcmp | hcmp | hcmp
    · have hhalf : (rest : ℚ) / d < 1 / 2 := by
        have : (2 * rest : ℚ) < d := by exact_mod_cast hcmp
        rw [div_lt_iff₀ hd']
        linarith
      rw [Nat.compare_eq_lt.2 hcmp]
      exact ⟨by linarith, by linarith⟩
    · have hhalf : (rest : ℚ) / d = 1 / 2 := by
        have : (2 * rest : ℚ) = d := by exact_mod_cast hcmp
        rw [div_eq_iff hd'.ne']
        linarith
      rw [Nat.compare_eq_eq.2 hcmp, hhalf]
      rfl
    · have hhalf : 1 / 2 < (rest : ℚ) / d := by
        have : (d : ℚ) < 2 * rest := by exact_mod_cast hcmp
        rw [lt_div_iff₀ hd']
        linarith
      rw [Nat.compare_eq_gt.2 hcmp]
      exact ⟨by linarith, by linarith⟩

include hm in
/-- A quotient is rounded to the double whose interval holds it. -/
theorem div_of_covers (h : m.Covers (m₁ * 2 ^ e₁ / (m₂ * 2 ^ e₂))) :
    UnpackedFloat.div Format.binary64 (.finite .positive m₁ e₁ h₁) (.finite .positive m₂ e₂ h₂) =
      .finite .positive m.coeff m.exp hpos := by
  have htarget : Format.binary64.targetExponent (totalExponent m₁ e₁ - totalExponent m₂ e₂) =
      max (m₁.log2 + e₁ - (m₂.log2 + e₂) - 53) (-1074) := by
    show max ((m₁.log2 : Int) + 1 + e₁ - (m₂.log2 + 1 + e₂) - 53) (-1074) = _
    omega
  unfold UnpackedFloat.div UnpackedFloat.divCore
  dsimp only
  rw [htarget]
  generalize ht : min (e₁ - e₂) (max ((m₁.log2 : Int) + e₁ - (m₂.log2 + e₂) - 53) (-1074)) = t
  generalize hk : (e₁ - e₂ - t).toNat = k
  rw [Nat.shiftLeft_eq]
  refine roundWithAccuracy_of_covers hm hpos (approximates_div (m₁ * 2 ^ k) h₂) ?_ ?_ _
  · rw [targetExponent_eq]
    by_cases hmin : t ≤ -1074
    · omega
    · -- the dividend was shifted so far that the quotient has 53 bits
      have hbits : 2 ^ 52 ≤ m₁ * 2 ^ k / m₂ := by
        rw [Nat.le_div_iff_mul_le h₂]
        calc 2 ^ 52 * m₂ ≤ 2 ^ 52 * 2 ^ (m₂.log2 + 1) := Nat.mul_le_mul_left _ Nat.lt_log2_self.le
          _ = 2 ^ (m₂.log2 + 53) := by rw [← pow_add]; congr 1; omega
          _ ≤ 2 ^ (m₁.log2 + k) := Nat.pow_le_pow_right (by decide) (by omega)
          _ = 2 ^ m₁.log2 * 2 ^ k := pow_add ..
          _ ≤ m₁ * 2 ^ k := Nat.mul_le_mul_right _ (Nat.log2_self_le h₁.ne')
      have hlog : 52 ≤ (m₁ * 2 ^ k / m₂).log2 := (Nat.le_log2 (by omega)).2 hbits
      omega
  · have hshift : (2 : ℚ) ^ k * 2 ^ t = 2 ^ e₁ / 2 ^ e₂ := by
      rw [← zpow_natCast, ← zpow_add₀ (by norm_num), ← zpow_sub₀ (by norm_num)]
      congr 1
      omega
    have hvalue : ((m₁ * 2 ^ k : Nat) : ℚ) / m₂ * 2 ^ t = m₁ * 2 ^ e₁ / (m₂ * 2 ^ e₂) := by
      push_cast
      rw [mul_div_mul_comm, ← hshift]
      ring
    rwa [hvalue]

end

end Stepwise
