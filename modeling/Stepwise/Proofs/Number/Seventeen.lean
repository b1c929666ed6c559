import Mathlib
import Stepwise.Number.Decimal
import Stepwise.Proofs.Number.Rounding

/-!
# Seventeen digits suffice

The digits of a double are searched on coarser grids first and on the grid of seventeen digits last. That grid is finer
than the interval that rounds to the double (`Shortest.onGrid?_seventeen`), so the search ends with a number in the
interval (`Shortest.covers_search`). The zeros trimmed from its end do not change it (`Shortest.covers_digits`).
-/

namespace Stepwise

/-! ## Powers -/

theorem zpow_eq_div {b : ℚ} (hb : b ≠ 0) (e : Int) : b ^ e = b ^ e.toNat / b ^ (-e).toNat := by
  rw [← zpow_natCast, ← zpow_natCast, ← zpow_sub₀ hb]
  congr 1
  omega

/-- Powers of ten and two compare like multiples of their exponents, if one pair of powers does. -/
theorem ten_zpow_le_two_zpow {a b : Nat} {p top : Int} (hb : 0 < b) (h : ((10 : ℚ) ^ a) ^ top ≤ (2 ^ b) ^ top)
    (hp : b * p ≤ a * top) : (10 : ℚ) ^ p ≤ 2 ^ top := by
  rw [← pow_le_pow_iff_left₀ (by positivity) (by positivity) hb.ne']
  calc ((10 : ℚ) ^ p) ^ b = 10 ^ (b * p) := by rw [mul_comm, zpow_mul, zpow_natCast]
    _ ≤ 10 ^ (a * top) := zpow_le_zpow_right₀ (by norm_num) hp
    _ = ((10 : ℚ) ^ a) ^ top := by rw [zpow_mul, zpow_natCast]
    _ ≤ ((2 : ℚ) ^ b) ^ top := h
    _ = (2 ^ top) ^ b := by rw [← zpow_natCast, ← zpow_natCast, ← zpow_mul, ← zpow_mul, mul_comm]

namespace Shortest

/-! ## The decimal exponent -/

/-- The estimate from the binary exponent is at most one too large. -/
theorem estimate_le {top : Int} (hmin : -1074 ≤ top) : (10 : ℚ) ^ (top * 1233 / 4096 - 1) ≤ 2 ^ top := by
  rcases le_total 0 top with htop | htop
  · have hpow : (10 : ℚ) ^ 1233 ≤ 2 ^ 4096 := by
      exact_mod_cast show 10 ^ 1233 ≤ 2 ^ 4096 by decide +kernel
    refine ten_zpow_le_two_zpow (by decide) (zpow_le_zpow_left₀ htop (by positivity) hpow) ?_
    push_cast
    omega
  · have hpow : (2 : ℚ) ^ 4096 ≤ 10 ^ 1236 := by
      exact_mod_cast show 2 ^ 4096 ≤ 10 ^ 1236 by decide +kernel
    have hinv := zpow_le_zpow_left₀ (show 0 ≤ -top by omega) (by positivity) hpow
    rw [zpow_neg, zpow_neg] at hinv
    refine ten_zpow_le_two_zpow (by decide) ((inv_le_inv₀ (by positivity) (by positivity)).1 hinv) ?_
    push_cast
    omega

theorem fraction_pos {n : Nat} (hn : 0 < n) (e k : Int) : 0 < (fraction n e k).1 := by
  simp only [fraction, Nat.shiftLeft_eq, Nat.pow_eq]
  positivity

theorem fraction_den_pos (n : Nat) (e k : Int) : 0 < (fraction n e k).2 := by
  simp only [fraction, Nat.shiftLeft_eq, Nat.pow_eq]
  positivity

theorem fraction_eq (n : Nat) (e k : Int) :
    ((fraction n e k).1 : ℚ) / (fraction n e k).2 = n * 2 ^ e / 10 ^ k := by
  simp only [fraction, Nat.shiftLeft_eq, Nat.pow_eq]
  rw [zpow_eq_div (by norm_num) e, zpow_eq_div (by norm_num) k]
  push_cast
  field_simp

theorem powerLe_iff {m : Magnitude} {k : Int} : powerLe k m = true ↔ 10 ^ k ≤ m.value := by
  have hden : (0 : ℚ) < (fraction m.coeff m.exp k).2 := by exact_mod_cast fraction_den_pos ..
  have hle : (fraction m.coeff m.exp k).2 ≤ (fraction m.coeff m.exp k).1 ↔ (10 : ℚ) ^ k ≤ m.value := by
    rw [← one_le_div (show (0 : ℚ) < 10 ^ k by positivity), Magnitude.value, ← fraction_eq, one_le_div hden]
    exact_mod_cast Iff.rfl
  rw [← hle]
  simp [powerLe]

/-- `10 ^ decimalExponent m` is at most `m`. -/
theorem ten_zpow_decimalExponent_le {m : Magnitude} (hpos : 0 < m.coeff) (hmin : -1074 ≤ m.exp) :
    10 ^ decimalExponent m ≤ m.value := by
  rw [← powerLe_iff]
  unfold decimalExponent
  dsimp only
  split
  · assumption
  · split
    · assumption
    · rw [powerLe_iff]
      calc (10 : ℚ) ^ (((m.coeff.log2 : Int) + m.exp) * 1233 / 4096 - 1) ≤ 2 ^ ((m.coeff.log2 : Int) + m.exp) :=
            estimate_le (by omega)
        _ = 2 ^ m.coeff.log2 * 2 ^ m.exp := by rw [zpow_add₀ (by norm_num), zpow_natCast]
        _ ≤ m.value := by
            rw [Magnitude.value]
            gcongr
            exact_mod_cast Nat.log2_self_le hpos.ne'

/-! ## Hits on a grid -/

/-- The grid of `10 ^ k` in units of the interval. -/
theorem grid_eq (m : Magnitude) (k : Int) :
    ((fraction 1 (m.exp - 2) k).2 : ℚ) / (fraction 1 (m.exp - 2) k).1 = 10 ^ k / 2 ^ (m.exp - 2) := by
  rw [← inv_div, fraction_eq, inv_div, Nat.cast_one, one_mul]

theorem inside_iff {m : Magnitude} {k : Int} {d : Nat} :
    inside (interval m) (fraction 1 (m.exp - 2) k).1 (fraction 1 (m.exp - 2) k).2 d = true ↔ m.Covers (d * 10 ^ k) := by
  have hscale : (0 : ℚ) < (fraction 1 (m.exp - 2) k).1 := by
    exact_mod_cast fraction_pos one_pos ..
  have hgrid : (d : ℚ) * 10 ^ k / 2 ^ (m.exp - 2) =
      d * (fraction 1 (m.exp - 2) k).2 / (fraction 1 (m.exp - 2) k).1 := by
    rw [mul_div_assoc, ← grid_eq, mul_div_assoc]
  rw [Magnitude.Covers, hgrid, inside, Interval.Contains]
  split
  · rw [decide_eq_true_iff, le_div_iff₀ hscale, div_le_iff₀ hscale]
    exact_mod_cast Iff.rfl
  · rw [decide_eq_true_iff, lt_div_iff₀ hscale, div_lt_iff₀ hscale]
    exact_mod_cast Iff.rfl

/-- Of the two numbers of the grid around the value, one lies in an interval wider than the grid. -/
theorem inside_below_or_above {i : Interval} {scale den : Nat} (hlow : i.low ≤ i.value) (hhigh : i.value < i.high)
    (hscale : 0 < scale) (hden : 0 < den) (h : den < (i.high - i.low) * scale) :
    inside i scale den (i.value * scale / den) = true ∨ inside i scale den (i.value * scale / den + 1) = true := by
  have hbelow := Nat.div_mul_le_self (i.value * scale) den
  have habove := Nat.lt_div_mul_add (a := i.value * scale) hden
  have hleft : i.low * scale ≤ i.value * scale := Nat.mul_le_mul_right _ hlow
  have hright : i.value * scale < i.high * scale := Nat.mul_lt_mul_of_pos_right hhigh hscale
  rw [Nat.sub_mul] at h
  simp only [inside, Nat.add_mul, Nat.one_mul]
  cases i.closed <;> simp <;> omega

theorem inside_of_onGrid? {tie : Tie} {m : Magnitude} {k : Int} {d : Nat} (h : onGrid? tie m k = some d) :
    inside (interval m) (fraction 1 (m.exp - 2) k).1 (fraction 1 (m.exp - 2) k).2 d = true := by
  unfold onGrid? at h
  dsimp only at h
  split at h
  · cases h
  · next hbelow _ => cases h; exact hbelow
  · next habove => cases h; exact habove
  · next hbelow habove =>
    split at h
    · cases h; exact hbelow
    · split at h
      · cases h; exact habove
      · cases tie with
        | up => cases h; exact habove
        | even =>
          cases h
          split
          · exact hbelow
          · exact habove

/-- A grid finer than the interval has a hit. -/
theorem onGrid?_isSome {tie : Tie} {m : Magnitude} {k : Int} (hscale : 0 < (fraction 1 (m.exp - 2) k).1)
    (hden : 0 < (fraction 1 (m.exp - 2) k).2)
    (h : (fraction 1 (m.exp - 2) k).2 < ((interval m).high - (interval m).low) * (fraction 1 (m.exp - 2) k).1) :
    (onGrid? tie m k).isSome := by
  have hin := inside_below_or_above (i := interval m) (Nat.sub_le ..) (Nat.lt_add_of_pos_right (by decide)) hscale hden h
  unfold onGrid?
  dsimp only
  split
  · next hbelow habove =>
    rw [hbelow, habove] at hin
    cases hin with
    | inl h | inr h => cases h
  · rfl
  · rfl
  · split
    · rfl
    · split
      · rfl
      · cases tie <;> rfl

/-- The grid of seventeen digits is finer than the interval. -/
theorem onGrid?_seventeen {tie : Tie} {m : Magnitude} {top : Int} (hpos : 0 < m.coeff) (hlt : m.coeff < 2 ^ 53)
    (htop : 10 ^ top ≤ m.value) : (onGrid? tie m (top - 16)).isSome := by
  have hscale := fraction_pos one_pos (m.exp - 2) (top - 16)
  refine onGrid?_isSome hscale (fraction_den_pos ..) ?_
  have hgrid := grid_eq m (top - 16)
  have hscale : (0 : ℚ) < (fraction 1 (m.exp - 2) (top - 16)).1 := by exact_mod_cast hscale
  have hspacing : (10 : ℚ) ^ (top - 16) / 2 ^ (m.exp - 2) ≤ 4 * m.coeff / 10 ^ 16 := by
    calc (10 : ℚ) ^ (top - 16) / 2 ^ (m.exp - 2) = 4 * (10 ^ top / 2 ^ m.exp) / 10 ^ 16 := by
          rw [zpow_sub₀ (by norm_num), zpow_sub₀ (by norm_num)]
          field_simp
          norm_num
      _ ≤ 4 * m.coeff / 10 ^ 16 := by
          gcongr
          rwa [div_le_iff₀ (by positivity)]
  have hwidth : (4 * m.coeff / 10 ^ 16 : ℚ) < ((interval m).high - (interval m).low : Nat) := by
    have hnat : 4 * m.coeff < ((interval m).high - (interval m).low) * 10 ^ 16 := by
      have hbit : Magnitude.leadingBit = 2 ^ 52 := rfl
      simp only [interval]
      split <;> omega
    rw [div_lt_iff₀ (by norm_num)]
    exact_mod_cast hnat
  have hfine := lt_of_le_of_lt hspacing hwidth
  rw [← hgrid, div_lt_iff₀ hscale] at hfine
  exact_mod_cast hfine

/-- If some grid of the search has a hit, the search ends with a hit. -/
theorem search_hit {tie : Tie} {m : Magnitude} {top : Int} {fuel n j : Nat} (hj : j < fuel)
    (h : (onGrid? tie m (top + 1 - (n + j : Nat))).isSome) :
    onGrid? tie m (search tie m top fuel n).2 = some (search tie m top fuel n).1 := by
  induction fuel generalizing n j with
  | zero => omega
  | succ fuel ih =>
    unfold search
    dsimp only
    split
    · assumption
    · next hnone =>
      cases j with
      | zero => rw [Nat.add_zero, hnone] at h; cases h
      | succ j => exact ih (j := j) (by omega) (by rwa [Nat.add_right_comm])

/-- The search ends with a number in the interval. -/
theorem covers_search (tie : Tie) {m : Magnitude} (hm : m.IsCanonical) (hpos : 0 < m.coeff) :
    m.Covers ((search tie m (decimalExponent m) 17 1).1 * 10 ^ (search tie m (decimalExponent m) 17 1).2) := by
  have hgrid : decimalExponent m + 1 - ((1 + 16 : Nat) : Int) = decimalExponent m - 16 := by omega
  have hlast : (onGrid? tie m (decimalExponent m + 1 - (1 + 16 : Nat))).isSome := by
    rw [hgrid]
    exact onGrid?_seventeen hpos hm.coeff_lt (ten_zpow_decimalExponent_le hpos hm.le_exp)
  exact inside_iff.1 (inside_of_onGrid? (search_hit (by decide) hlast))

end Shortest

/-! ## Lists of digits -/

theorem foldl_digits (radix n : Nat) (ds : List Char) :
    ds.foldl (fun n d => radix * n + digitValue d) n = n * radix ^ ds.length + natOfDigits radix ds := by
  induction ds generalizing n with
  | nil => simp [natOfDigits]
  | cons c cs ih =>
    rw [natOfDigits, List.foldl_cons, List.foldl_cons, ih, ih, List.length_cons, pow_succ]
    ring

theorem natOfDigits_append (radix : Nat) (ds es : List Char) :
    natOfDigits radix (ds ++ es) = natOfDigits radix ds * radix ^ es.length + natOfDigits radix es := by
  rw [natOfDigits, List.foldl_append, foldl_digits]
  rfl

theorem natOfDigits_zeros (radix k : Nat) : natOfDigits radix (List.replicate k '0') = 0 := by
  induction k with
  | zero => rfl
  | succ k ih =>
    have hdigit : natOfDigits radix ['0'] = 0 := rfl
    rw [List.replicate_succ', natOfDigits_append, ih, hdigit, Nat.zero_mul]

theorem natOfDigits_toDigits (n : Nat) : natOfDigits 10 (Nat.toDigits 10 n) = n := by
  have hdigits : ∀ c ∈ Nat.toDigits 10 n, digitValue c = c.toNat - '0'.toNat := by
    intro c hc
    rw [digitValue, if_pos (Nat.isDigit_of_mem_toDigits (by decide) (by decide) hc)]
  have hfold : natOfDigits 10 (Nat.toDigits 10 n) = Nat.ofDigitChars 10 (Nat.toDigits 10 n) 0 :=
    List.foldl_ext _ _ _ fun k c hc => by rw [hdigits c hc]
  rw [hfold, Nat.ofDigitChars_toDigits (by decide) (by decide)]

/-- The number that the digits stand for. -/
def Digits.value (d : Digits) : ℚ := natOfDigits 10 d.digits * 10 ^ (d.point - d.digits.length)

namespace Shortest

theorem trimZeros_append_zeros (ds : List Char) : ∃ k, ds = trimZeros ds ++ List.replicate k '0' := by
  have hzeros : ds.reverse.takeWhile (· = '0') = List.replicate (ds.reverse.takeWhile (· = '0')).length '0' := by
    refine List.eq_replicate_iff.2 ⟨rfl, fun c hc => ?_⟩
    simpa using List.mem_takeWhile_imp hc
  refine ⟨(ds.reverse.takeWhile (· = '0')).length, ?_⟩
  have hsplit := congrArg List.reverse (List.takeWhile_append_dropWhile (p := (· = '0')) (l := ds.reverse))
  rw [List.reverse_append, hzeros, List.reverse_replicate, List.reverse_reverse] at hsplit
  exact hsplit.symm

/-- The zeros at the end do not count. -/
theorem value_trimZeros (d : Nat) (k : Int) :
    (⟨trimZeros (Nat.toDigits 10 d), (Nat.toDigits 10 d).length + k⟩ : Digits).value = d * 10 ^ k := by
  obtain ⟨j, hj⟩ := trimZeros_append_zeros (Nat.toDigits 10 d)
  have hvalue := natOfDigits_toDigits d
  have hlength := congrArg List.length hj
  rw [hj, natOfDigits_append, natOfDigits_zeros, List.length_replicate, Nat.add_zero] at hvalue
  rw [List.length_append, List.length_replicate] at hlength
  rw [Digits.value]
  dsimp only
  have hexp : ((Nat.toDigits 10 d).length + k - (trimZeros (Nat.toDigits 10 d)).length : Int) = j + k := by omega
  rw [hexp, zpow_add₀ (by norm_num), zpow_natCast, ← mul_assoc]
  congr 1
  exact_mod_cast hvalue

/-- The digits of a double stand for a number in its interval. -/
theorem covers_digits (tie : Tie) {m : Magnitude} (hm : m.IsCanonical) (hpos : 0 < m.coeff) :
    m.Covers (digits tie m).value := by
  have h := covers_search tie hm hpos
  rw [← value_trimZeros] at h
  exact h

end Shortest

end Stepwise
