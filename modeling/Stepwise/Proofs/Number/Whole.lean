import Stepwise.Proofs.Number.Point
import Stepwise.Proofs.Number.Unsigned

/-!
# Numbers written with digits alone

Whole numerals below `10 ^ 21` are written with digits alone (`numberText_all_digits`), which is the converse of
`numberText_not_all_digits`. The one case to exclude is that of small numbers, which have an exponent: a whole number
below `10 ^ -6` is zero, because its exponent says so (`eq_zero_of_lt`). No text of a number starts with a point
(`numberText_head_ne_point`).
-/

namespace Stepwise

open Float.Model (UnpackedFloat Format)

/-! ## Comparisons -/

theorem not_le_of_lt {a b : UnpackedFloat} (ha : Unsigned a) (hb : IsPositive b = true) (h : a.lt b = true) :
    b.le a = false := by
  match a, b, ha, hb with
  | .zero .positive, .finite .positive .., _, _ => rfl
  | .infinity .positive, .finite .positive .., _, _ => cases h
  | .finite .positive m e _, .finite .positive m' e' _, _, _ =>
    have hcmp : ((compare e e').then (compare m m') == .lt) = true := h
    show ((compare e' e).then (compare m' m)).isLE = false
    rw [← Int.compare_swap e e', ← Nat.compare_swap m m', ← Ordering.swap_then]
    revert hcmp
    generalize (compare e e').then (compare m m') = o
    cases o <;> decide

theorem unpackExponent_toNat (v : Float) :
    (@UnpackedFloat.unpackExponent Format.binary64 v.toModel.toBits.toBitVec).toNat =
      v.toBits.toNat / Magnitude.leadingBit % 2048 := by
  show (BitVec.cast _ (BitVec.extractLsb 62 52 v.toBits.toBitVec)).toNat = _
  rw [BitVec.toNat_cast, BitVec.extractLsb_toNat, Nat.shiftRight_eq_div_pow]
  rfl

theorem unpackMantissa_toNat (v : Float) :
    (@UnpackedFloat.unpackMantissa Format.binary64 v.toModel.toBits.toBitVec).toNat =
      v.toBits.toNat % Magnitude.leadingBit := by
  show (BitVec.cast _ (BitVec.extractLsb 51 0 v.toBits.toBitVec)).toNat = _
  rw [BitVec.toNat_cast, BitVec.extractLsb_toNat, Nat.shiftRight_zero]
  rfl

/-- The magnitude of a double is read off its unpacked value. -/
theorem ofFloat_of_unpacked {v : Float} {s : UnpackedFloat.Sign} {m : Nat} {e : Int} {hm : 0 < m}
    (h : unpacked v = .finite s m e hm) : Magnitude.ofFloat v = ⟨m, e⟩ := by
  have hfield := unpackExponent_toNat v
  have hfraction := unpackMantissa_toNat v
  change UnpackedFloat.unpack Format.binary64 v.toModel.toBits.toBitVec = _ at h
  unfold UnpackedFloat.unpack at h
  dsimp only at h
  unfold Magnitude.ofFloat
  dsimp only
  rw [← hfield, ← hfraction]
  split at h
  · split at h <;> cases h
  · split at h
    · next hzero =>
      split at h
      · cases h
      · rw [hzero] at h ⊢
        cases h
        rfl
    · next hnonzero =>
      have hne : (@UnpackedFloat.unpackExponent Format.binary64 v.toModel.toBits.toBitVec).toNat ≠ 0 :=
        fun h0 => hnonzero (BitVec.eq_of_toNat_eq h0)
      rw [if_neg hne]
      have hlt := (@UnpackedFloat.unpackMantissa Format.binary64 v.toModel.toBits.toBitVec).isLt
      cases h
      rw [BitVec.toNat_append, ← Nat.shiftLeft_add_eq_or_of_lt hlt]
      rfl

/-- A whole number below `10 ^ -6` is zero. -/
theorem eq_zero_of_lt {v : Float} (hv : Unsigned (unpacked v)) (hwhole : (Magnitude.ofFloat v).toNat?.isSome)
    (hlt : v.abs < 1e-6) : (v == 0.0) = true := by
  rw [abs_of_unsigned hv] at hlt
  have hsmall : (unpacked v).lt (unpacked 1e-6) = true := of_decide_eq_true hlt
  show (unpacked v).beq (unpacked 0.0) = true
  have hmagnitude := @ofFloat_of_unpacked v
  generalize unpacked v = u at hv hsmall hmagnitude ⊢
  match u, hv with
  | .zero .positive, _ => decide
  | .finite .positive m e hm, _ =>
    exfalso
    -- the exponent of `10 ^ -6` is `-72`
    have hcmp : ((compare e (-72)).then (compare m 4722366482869645) == .lt) = true := hsmall
    have hexp : e ≤ -72 := by
      apply Int.not_lt.1
      intro hgt
      rw [Int.compare_eq_gt.2 hgt] at hcmp
      cases hcmp
    have hcoeff := (Magnitude.isCanonical_ofFloat v).coeff_lt
    rw [hmagnitude rfl] at hwhole hcoeff
    have hunit : 2 ^ 53 ≤ 1 <<< (-e).toNat := by
      rw [Nat.one_shiftLeft]
      exact Nat.pow_le_pow_right (show 0 < 2 by decide) (show 53 ≤ (-e).toNat by omega)
    have hneg : ¬ 0 ≤ (⟨m, e⟩ : Magnitude).exp := by
      dsimp only
      omega
    rw [Magnitude.toNat?, if_neg hneg] at hwhole
    dsimp only at hwhole hcoeff
    rw [Nat.mod_eq_of_lt (by omega), if_neg (by omega)] at hwhole
    cases hwhole

theorem signBit_of_unsigned {v : Float} (hv : Unsigned (unpacked v)) : signBit v = false := by
  have hsign : @UnpackedFloat.unpackSign Format.binary64 v.toModel.toBits.toBitVec = 0#1 := by
    have hbit : ∀ b : BitVec 1, b = 0#1 ∨ b = 1#1 := by decide
    change Unsigned (UnpackedFloat.unpack Format.binary64 v.toModel.toBits.toBitVec) at hv
    unfold UnpackedFloat.unpack at hv
    dsimp only at hv
    rcases hbit (@UnpackedFloat.unpackSign Format.binary64 v.toModel.toBits.toBitVec) with h | h
    · exact h
    · exfalso
      rw [h] at hv
      split at hv
      · split at hv <;> exact hv
      · split at hv
        · split at hv <;> exact hv
        · exact hv
  have hbit := congrArg BitVec.toNat hsign
  change (BitVec.cast _ (BitVec.extractLsb 63 63 v.toBits.toBitVec)).toNat = 0 at hbit
  rw [BitVec.toNat_cast, BitVec.extractLsb_toNat, Nat.shiftRight_eq_div_pow] at hbit
  change v.toBits.toNat / signedBound % 2 = 0 at hbit
  have hlt : v.toBits.toNat < 2 * signedBound := v.toBits.toNat_lt
  rw [signBit, decide_eq_false_iff_not]
  intro hle
  have hone := Nat.div_eq_of_lt_le (k := 1) (by omega) (by omega : v.toBits.toNat < (1 + 1) * signedBound)
  rw [hone] at hbit
  cases hbit

theorem isNaN_of_unsigned {v : Float} (hv : Unsigned (unpacked v)) : v.isNaN = false := by
  show (unpacked v).isNaN = false
  match unpacked v, hv with
  | .zero .positive, _ => rfl
  | .finite .positive .., _ => rfl
  | .infinity .positive, _ => rfl

/-! ## Texts -/

/-- A whole numeral below `10 ^ 21` is written with digits alone. -/
theorem numberText_all_digits {d : Decimal} (hinf : d.toFloat.isInf = false)
    (hwhole : (Magnitude.ofFloat d.toFloat).toNat?.isSome) (hlt : d.toFloat < 1e21) :
    (numberText d.toFloat).toList.all Char.isDigit = true := by
  have hv := Decimal.unsigned_toFloat d
  have hlarge : ¬ 1e21 ≤ d.toFloat.abs := by
    rw [abs_of_unsigned hv]
    intro hle
    have hnot := not_le_of_lt hv (b := unpacked 1e21) (by decide) (of_decide_eq_true hlt)
    have hle : (unpacked 1e21).le (unpacked d.toFloat) = true := of_decide_eq_true hle
    rw [hle] at hnot
    cases hnot
  unfold numberText
  rw [if_neg (Bool.eq_false_iff.1 (isNaN_of_unsigned hv)), if_neg (Bool.eq_false_iff.1 hinf)]
  by_cases hzero : (d.toFloat == 0.0) = true
  · rw [if_pos hzero]
    decide
  · rw [if_neg hzero]
    have hsmall : ¬ d.toFloat.abs < 1e-6 := fun h => hzero (eq_zero_of_lt hv hwhole h)
    obtain ⟨n, hn⟩ := Option.isSome_iff_exists.1 hwhole
    dsimp only
    rw [String.toList_ofList, signBit_of_unsigned hv, if_neg Bool.false_ne_true, if_neg (by simp [hlarge, hsmall]), hn]
    exact List.all_eq_true.2 fun c hc => Nat.isDigit_of_mem_toDigits (by decide) (by decide) hc

theorem isDigit_of_mem_digits {tie : Tie} {m : Magnitude} {c : Char} (hc : c ∈ (Shortest.digits tie m).digits) :
    c.isDigit = true := by
  have hmem : c ∈ Nat.toDigits 10 (Shortest.search tie m (Shortest.decimalExponent m) 17 1).1 := by
    have hsub := List.mem_reverse.1 hc
    exact List.mem_reverse.1 ((List.dropWhile_sublist _).mem hsub)
  exact Nat.isDigit_of_mem_toDigits (by decide) (by decide) hmem

theorem ne_point_of_isDigit {c : Char} (h : c.isDigit = true) : c ≠ '.' := by
  rintro rfl
  cases h

theorem scientific_head_ne_point {d : Digits} (h : ∀ c ∈ d.digits, c.isDigit = true) :
    d.scientific.head? ≠ some '.' := by
  unfold Digits.scientific
  dsimp only
  split
  · simp
  · next c hd => simpa using ne_point_of_isDigit (h c (by simp [hd]))
  · next c cs _ hd => simpa using ne_point_of_isDigit (h c (by simp [hd]))

theorem positional_head_ne_point {d : Digits} (h : ∀ c ∈ d.digits, c.isDigit = true) :
    d.positional.head? ≠ some '.' := by
  unfold Digits.positional
  dsimp only
  split
  · simp
  · next hpoint =>
    cases hd : d.digits with
    | nil =>
      rw [if_pos (by simp only [List.length_nil]; omega), List.nil_append, Digits.zeros]
      cases (d.point - ([] : List Char).length).toNat <;> simp [List.replicate_succ]
    | cons c cs =>
      have hc := ne_point_of_isDigit (h c (by simp [hd]))
      obtain ⟨k, hk⟩ : ∃ k, d.point.toNat = k + 1 := ⟨d.point.toNat - 1, by omega⟩
      split
      · simpa using hc
      · simpa [hk] using hc

/-- No text of a number starts with a point. -/
theorem numberText_head_ne_point (v : Float) : (numberText v).toList.head? ≠ some '.' := by
  have hdigits : ∀ c ∈ (Shortest.digits .up (Magnitude.ofFloat v)).digits, c.isDigit = true :=
    fun c hc => isDigit_of_mem_digits hc
  unfold numberText
  split
  · decide
  · split
    · split <;> decide
    · split
      · decide
      · dsimp only
        rw [String.toList_ofList]
        split
        · simp
        · split
          · exact scientific_head_ne_point hdigits
          · split
            · next n _ =>
              intro hhead
              have hmem := List.mem_of_head? hhead
              exact ne_point_of_isDigit (Nat.isDigit_of_mem_toDigits (by decide) (by decide) hmem) rfl
            · exact positional_head_ne_point hdigits

end Stepwise
