import Mathlib
import Stepwise.Number.Decimal
import Stepwise.Number.Layout
import Stepwise.Proofs.Number.Seventeen

/-!
# Numbers written with a point or an exponent

Only whole numbers below `10 ^ 21` are written with digits alone (`numberText_not_all_digits`). For a number that is not
whole this rests on how its digits are found: they stand for a number in its interval (`Shortest.covers_digits`), and no
whole number lies there (`Magnitude.toNat?_of_covers`), so the digits go beyond the point.
-/

namespace Stepwise

/-! ## Whole numbers in the interval -/

/-- Only a whole number has a whole number in its interval. -/
theorem Magnitude.toNat?_of_covers {m : Magnitude} {n : Nat} (hexp : m.exp < 0) (h : m.Covers n) : m.toNat?.isSome := by
  obtain ⟨hlow, hhigh, -⟩ := h.near
  have hunits : (n : ℚ) / 2 ^ m.exp = (n * 2 ^ (-m.exp).toNat : Nat) := by
    rw [zpow_eq_div (by norm_num), Int.toNat_of_nonpos hexp.le]
    push_cast
    field_simp
  rw [hunits] at hlow hhigh
  have heq : m.coeff = n * 2 ^ (-m.exp).toNat := by
    have hle : m.coeff < n * 2 ^ (-m.exp).toNat + 1 := by
      have : (m.coeff : ℚ) < (n * 2 ^ (-m.exp).toNat : Nat) + 1 := by linarith
      exact_mod_cast this
    have hge : n * 2 ^ (-m.exp).toNat < m.coeff + 1 := by
      have : ((n * 2 ^ (-m.exp).toNat : Nat) : ℚ) < m.coeff + 1 := by linarith
      exact_mod_cast this
    omega
  rw [toNat?, if_neg (by omega)]
  simp [heq, Nat.one_shiftLeft]

/-! ## Digits beyond the point -/

/-- The digits of a number that is not whole go beyond the point. -/
theorem point_mem_positional {m : Magnitude} (hm : m.IsCanonical) (h : m.toNat? = none) :
    '.' ∈ (Shortest.digits .up m).positional := by
  have hexp : m.exp < 0 := by
    apply Int.not_le.1
    intro hle
    rw [Magnitude.toNat?, if_pos hle] at h
    cases h
  have hpos : 0 < m.coeff := by
    apply Nat.pos_of_ne_zero
    intro hzero
    rw [Magnitude.toNat?, if_neg (by omega), hzero] at h
    simp at h
  have hcovers := Shortest.covers_digits .up hm hpos
  generalize Shortest.digits .up m = d at hcovers ⊢
  unfold Digits.positional
  dsimp only
  split
  · simp
  · split
    · next hlen =>
      -- no digit stands beyond the point, so the digits are a whole number
      obtain ⟨k, hk⟩ := Int.eq_ofNat_of_zero_le (show 0 ≤ d.point - d.digits.length by omega)
      rw [Digits.value, hk] at hcovers
      have hwhole := Magnitude.toNat?_of_covers (n := natOfDigits 10 d.digits * 10 ^ k) hexp (by exact_mod_cast hcovers)
      rw [h] at hwhole
      cases hwhole
    · simp

/-! ## Texts of doubles -/

theorem e_mem_scientific (d : Digits) : 'e' ∈ d.scientific := by simp [Digits.scientific]

theorem all_isDigit_eq_false {c : Char} {cs : List Char} (hc : c.isDigit = false) (hmem : c ∈ cs) :
    cs.all Char.isDigit = false := by
  rw [List.all_eq_false]
  exact ⟨c, hmem, by simp [hc]⟩

/-- Zero is written with a digit, but it is whole. -/
theorem not_all_digits_of_zero {v : Float} (hread : readDecimal? "0".toList = some v)
    (hlarge : (Magnitude.ofFloat v).toNat?.isSome → 1e21 ≤ v.abs) : False := by
  have hzero : readDecimal? "0".toList = some 0.0 := by decide
  rw [hzero] at hread
  cases hread
  exact absurd (hlarge (by decide)) (by decide)

/-- A number that is whole only from `10 ^ 21` on is not written with digits alone. -/
theorem numberText_not_all_digits {v : Float} (hread : readDecimal? (numberText v).toList = some v)
    (hlarge : (Magnitude.ofFloat v).toNat?.isSome → 1e21 ≤ v.abs) : (numberText v).toList.all Char.isDigit = false := by
  unfold numberText at hread ⊢
  by_cases hnan : v.isNaN = true
  · rw [if_pos hnan]; decide
  rw [if_neg hnan] at hread ⊢
  by_cases hinf : v.isInf = true
  · rw [if_pos hinf]
    split <;> decide
  rw [if_neg hinf] at hread ⊢
  by_cases hzero : (v == 0.0) = true
  · rw [if_pos hzero] at hread
    exact (not_all_digits_of_zero hread hlarge).elim
  rw [if_neg hzero]
  dsimp only
  rw [String.toList_ofList]
  split
  · exact all_isDigit_eq_false (c := '-') rfl (List.mem_cons_self ..)
  · split
    · exact all_isDigit_eq_false (c := 'e') rfl (e_mem_scientific _)
    · next hmiddle =>
      split
      · next n hn =>
        have hle := hlarge (by rw [hn]; rfl)
        exact absurd (by simp [hle]) hmiddle
      · next hn => exact all_isDigit_eq_false (c := '.') rfl (point_mem_positional (Magnitude.isCanonical_ofFloat v) hn)

end Stepwise
