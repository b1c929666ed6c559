import Mathlib
import Stepwise.Proofs.Grammar.Numerals
import Stepwise.Proofs.Grammar.Rescanning
import Stepwise.Proofs.Number.Nearest

/-!
# The text of a number reads back

The text of a finite number without sign is one number token, and the number is its value (`number_numberText`,
`readDecimal?_numberText`). All layouts of the text are numerals of one form: digits, perhaps a point and more digits,
perhaps a power of ten (`numeral`). Such a text is scanned whole, and its exact value is that of the digits laid out; they
stand for a number in the interval of the double, or for the double itself if it is whole.
-/

namespace Stepwise

/-! ## Numerals -/

/-- A power of ten as it is written, with a sign in any case. -/
def powerText (power : Int) : List Char :=
  'e' :: (if power < 0 then '-' else '+') :: Nat.toDigits 10 power.natAbs

/-- Digits, digits beyond the point if there are any, and what follows them. -/
def numeral (whole part rest : List Char) : List Char :=
  whole ++ ((if part = [] then [] else '.' :: part) ++ rest)

/-- The text is one number token with the given exact value. -/
structure Denotes (text : List Char) (x : ℚ) : Prop where
  scan : Scanner.number text = some (text, [])
  read : ∃ d, Decimal.read? text = some d ∧ d.value = x

theorem toDigits_all (n : Nat) : (Nat.toDigits 10 n).all Char.isDigit = true :=
  List.all_eq_true.2 fun _ hc => Nat.isDigit_of_mem_toDigits (by decide) (by decide) hc

theorem readInt?_powerText (power : Int) : Decimal.readInt? (powerText power).tail = some power := by
  have hdigits : ¬ (Nat.toDigits 10 power.natAbs = [] ∨ (! (Nat.toDigits 10 power.natAbs).all Char.isDigit) = true) := by
    simp [toDigits_all]
  unfold powerText Decimal.readInt?
  by_cases hneg : power < 0
  · rw [if_pos hneg]
    simp only [List.tail_cons]
    rw [if_neg hdigits, natOfDigits_toDigits]
    simp only [if_true, Option.some.injEq]
    omega
  · rw [if_neg hneg]
    simp only [List.tail_cons]
    rw [if_neg hdigits, natOfDigits_toDigits]
    simp only [Bool.false_eq_true, if_false, Option.some.injEq]
    omega

theorem exponent_powerText (power : Int) : Scanner.exponent (powerText power) = (powerText power, []) := by
  have hsign : Scanner.isSign (if power < 0 then '-' else '+') = true := by
    split <;> rfl
  have hdigits : Scanner.digits (Nat.toDigits 10 power.natAbs) = (Nat.toDigits 10 power.natAbs, []) := by
    have hspan := Scanner.digits_append_of_all (toDigits_all power.natAbs) (show ([] : List Char).head?.any Char.isDigit = false from rfl)
    rwa [List.append_nil] at hspan
  rw [powerText, Scanner.exponent_signed rfl hsign, Scanner.exponentBehind, hdigits]
  simp

/-- What may follow the digits of a numeral: nothing, or a power of ten. -/
inductive IsPower : List Char → Int → Prop where
  | none : IsPower [] 0
  | some (power : Int) : IsPower (powerText power) power

namespace IsPower

variable {rest : List Char} {power : Int}

theorem head?_any (h : IsPower rest power) : rest.head?.any Char.isDigit = false := by
  cases h <;> rfl

theorem head?_ne (h : IsPower rest power) : rest.head? ≠ Option.some '.' := by
  cases h <;> simp [powerText]

theorem exponent_eq (h : IsPower rest power) : Scanner.exponent rest = (rest, []) := by
  cases h with
  | none => rfl
  | some power => exact exponent_powerText power

end IsPower

section

variable {whole part rest : List Char} {power : Int} (hne : whole ≠ []) (hwhole : whole.all Char.isDigit = true)
  (hpart : part.all Char.isDigit = true) (h : IsPower rest power)

include hne hwhole hpart h

theorem number_numeral : Scanner.number (numeral whole part rest) = some (numeral whole part rest, []) := by
  unfold numeral
  split
  · next hnil =>
    rw [List.nil_append, Scanner.number_of_no_point (Scanner.digits_append_of_all hwhole h.head?_any) h.head?_ne, if_neg hne,
      h.exponent_eq]
  · next hsome =>
    have hdigits := Scanner.digits_append_of_all hwhole (show ('.' :: part ++ rest).head?.any Char.isDigit = false from rfl)
    have hdigits' := Scanner.digits_append_of_all hpart h.head?_any
    rw [List.cons_append] at hdigits ⊢
    rw [Scanner.number_of_point hdigits, hdigits', if_neg (fun hnil => hne hnil.1), h.exponent_eq]
    simp

theorem read?_numeral :
    Decimal.read? (numeral whole part rest) = some ⟨natOfDigits 10 (whole ++ part), power - part.length⟩ := by
  unfold numeral Decimal.read?
  split
  · next hnil =>
    obtain ⟨htake, hdrop⟩ := span_append hwhole h.head?_any
    rw [List.nil_append, htake, hdrop, hnil]
    cases h with
    | none => simp [hne]
    | some power =>
      have hread := readInt?_powerText power
      simp only [powerText, List.tail_cons] at hread ⊢
      simp [hne, hread]
  · next hsome =>
    obtain ⟨htake, hdrop⟩ := span_append hwhole (show ('.' :: (part ++ rest)).head?.any Char.isDigit = false from rfl)
    obtain ⟨htake', hdrop'⟩ := span_append hpart h.head?_any
    rw [List.cons_append, htake, hdrop]
    simp only [htake', hdrop']
    cases h with
    | none => simp [hne]
    | some power =>
      have hread := readInt?_powerText power
      simp only [powerText, List.tail_cons] at hread ⊢
      simp [hne, hread]

theorem denotes_numeral :
    Denotes (numeral whole part rest) (natOfDigits 10 (whole ++ part) * 10 ^ (power - part.length)) :=
  ⟨number_numeral hne hwhole hpart h, _, read?_numeral hne hwhole hpart h, rfl⟩

end

/-! ## Layouts -/

theorem denotes_toDigits (n : Nat) : Denotes (Nat.toDigits 10 n) n := by
  have h := denotes_numeral Nat.toDigits_ne_nil (toDigits_all n) List.all_nil .none
  simpa [numeral, natOfDigits_toDigits] using h

namespace Digits

variable {d : Digits} (hne : d.digits ≠ []) (hall : d.digits.all Char.isDigit = true)

include hne hall

theorem denotes_scientific : Denotes d.scientific d.value := by
  obtain ⟨digits, point⟩ := d
  obtain ⟨c, cs, rfl⟩ := List.exists_cons_of_ne_nil hne
  obtain ⟨hc, hcs⟩ := Bool.and_eq_true_iff.1 (List.all_cons ▸ hall)
  have h := denotes_numeral (List.cons_ne_nil c []) (by simpa using hc) hcs (.some (point - 1))
  have htext : numeral [c] cs (powerText (point - 1)) = scientific ⟨c :: cs, point⟩ := by
    cases cs <;> simp [numeral, scientific, powerText]
  have hexp : point - 1 - (cs.length : Int) = point - (c :: cs).length := by
    rw [List.length_cons]
    omega
  rwa [htext, List.singleton_append, hexp] at h

theorem denotes_positional : Denotes d.positional d.value := by
  have hzeros : ∀ k, (zeros k).all Char.isDigit = true := fun k => by simp [zeros]
  unfold positional value
  dsimp only
  split
  · next hpoint =>
    have h : Denotes (numeral ['0'] (zeros (-d.point) ++ d.digits) []) _ :=
      denotes_numeral (List.cons_ne_nil '0' []) rfl (by simp [hzeros, hall]) .none
    have hvalue : natOfDigits 10 (['0'] ++ (zeros (-d.point) ++ d.digits)) = natOfDigits 10 d.digits := by
      rw [← List.append_assoc, natOfDigits_append, zeros, List.singleton_append, ← List.replicate_succ, natOfDigits_zeros]
      simp
    have hexp : 0 - ((zeros (-d.point) ++ d.digits).length : Int) = d.point - d.digits.length := by
      rw [List.length_append, zeros, List.length_replicate]
      omega
    rw [hvalue, hexp] at h
    simpa [numeral, hne] using h
  · split
    · next hlen =>
      have h : Denotes (numeral (d.digits ++ zeros (d.point - d.digits.length)) [] []) _ :=
        denotes_numeral (by simp [hne]) (by simp [hzeros, hall]) List.all_nil .none
      obtain ⟨k, hk⟩ := Int.eq_ofNat_of_zero_le (show 0 ≤ d.point - d.digits.length by omega)
      rw [hk, zeros, Int.toNat_natCast] at h ⊢
      simpa [numeral, natOfDigits_append, natOfDigits_zeros] using h
    · next hpoint hlen =>
      have h : Denotes (numeral (d.digits.take d.point.toNat) (d.digits.drop d.point.toNat) []) _ :=
        denotes_numeral (by simp [hne]; omega)
          (List.all_eq_true.2 fun c hc => List.all_eq_true.1 hall c (List.mem_of_mem_take hc))
          (List.all_eq_true.2 fun c hc => List.all_eq_true.1 hall c (List.mem_of_mem_drop hc)) .none
      have hexp : 0 - ((d.digits.drop d.point.toNat).length : Int) = d.point - d.digits.length := by
        rw [List.length_drop]
        omega
      rw [List.take_append_drop, hexp] at h
      have hdrop : d.digits.drop d.point.toNat ≠ [] := by
        rw [Ne, List.drop_eq_nil_iff]
        omega
      simpa [numeral, hdrop] using h

end Digits

/-! ## Texts of doubles -/

theorem Magnitude.value_of_toNat? {m : Magnitude} {n : Nat} (h : m.toNat? = some n) : m.value = n := by
  unfold toNat? at h
  split at h
  · next hexp =>
    cases h
    obtain ⟨k, hk⟩ := Int.eq_ofNat_of_zero_le hexp
    rw [value, hk, Int.toNat_natCast, Nat.shiftLeft_eq, zpow_natCast]
    push_cast
    rfl
  · next hexp =>
    dsimp only at h
    split at h
    · next hmod =>
      cases h
      have hcoeff := Nat.div_mul_cancel (Nat.dvd_of_mod_eq_zero hmod)
      rw [Nat.one_shiftLeft] at hcoeff ⊢
      rw [value, zpow_eq_div (by norm_num), Int.toNat_of_nonpos (by omega), pow_zero]
      conv_lhs => rw [← hcoeff]
      push_cast
      field_simp
    · cases h

theorem digits_ne_nil (tie : Tie) {m : Magnitude} (hm : m.IsCanonical) (hpos : 0 < m.coeff) :
    (Shortest.digits tie m).digits ≠ [] := by
  intro hnil
  obtain ⟨hlow, -⟩ := (Shortest.covers_digits tie hm hpos).near
  have hone : (1 : ℚ) ≤ m.coeff := by exact_mod_cast hpos
  have hzero : (Shortest.digits tie m).value = 0 := by
    rw [Digits.value, hnil]
    simp [natOfDigits]
  rw [hzero, zero_div] at hlow
  linarith

/-- The text of a positive number denotes a number that rounds to it. -/
theorem denotes_numberText {v : Float} (hv : IsPositive (unpacked v) = true) :
    ∃ x, Denotes (numberText v).toList x ∧ (Magnitude.ofFloat v).Covers x := by
  obtain ⟨hpos, hunpacked⟩ := unpacked_of_isPositive hv
  have hunsigned : Unsigned (unpacked v) := by
    rw [hunpacked]
    trivial
  have hinf : v.isInf = false := by
    show (unpacked v).isInf = false
    rw [hunpacked]
    rfl
  have hzero : (v == 0.0) = false := by
    show (unpacked v).beq (unpacked 0.0) = false
    rw [hunpacked]
    rfl
  have hcanonical := Magnitude.isCanonical_ofFloat v
  have hcovers := Shortest.covers_digits .up hcanonical hpos
  have hall : (Shortest.digits .up (Magnitude.ofFloat v)).digits.all Char.isDigit = true :=
    List.all_eq_true.2 fun c hc => isDigit_of_mem_digits hc
  have hne := digits_ne_nil .up hcanonical hpos
  unfold numberText
  rw [isNaN_of_unsigned hunsigned, hinf, hzero, signBit_of_unsigned hunsigned]
  simp only [Bool.false_eq_true, if_false, String.toList_ofList]
  split
  · exact ⟨_, Digits.denotes_scientific hne hall, hcovers⟩
  · split
    · next n hn => exact ⟨n, denotes_toDigits n, Magnitude.value_of_toNat? hn ▸ Magnitude.covers_value _⟩
    · exact ⟨_, Digits.denotes_positional hne hall, hcovers⟩

theorem readDecimal?_of_denotes {text : List Char} {x : ℚ} {v : Float} (h : Denotes text x)
    (hv : IsPositive (unpacked v) = true) (hx : (Magnitude.ofFloat v).Covers x) : readDecimal? text = some v := by
  obtain ⟨hscan, d, hread, rfl⟩ := h
  unfold readDecimal?
  split
  · exact absurd (Scanner.number_head hscan) (by decide)
  · exact absurd (Scanner.number_head hscan) (by decide)
  · rw [hread, Option.map_some, Decimal.toFloat_of_covers hv hx]

theorem positive_or_zero {v : Float} (hv : Unsigned (unpacked v)) (hinf : v.isInf = false) :
    IsPositive (unpacked v) = true ∨ v = 0.0 := by
  have hpack := ofModel_pack_unpacked v
  change (unpacked v).isInf = false at hinf
  generalize unpacked v = u at hv hinf hpack
  match u, hv, hinf with
  | .finite .positive .., _, _ => exact .inl rfl
  | .zero .positive, _, _ => exact .inr (hpack ▸ (by decide))

/-- The text of a finite number without sign is one number token. -/
theorem number_numberText {v : Float} (hv : Unsigned (unpacked v)) (hinf : v.isInf = false) :
    Scanner.number (numberText v).toList = some ((numberText v).toList, []) := by
  rcases positive_or_zero hv hinf with hpos | rfl
  · obtain ⟨x, hx, -⟩ := denotes_numberText hpos
    exact hx.scan
  · decide

/-- A finite number without sign is the value of its text. -/
theorem readDecimal?_numberText {v : Float} (hv : Unsigned (unpacked v)) (hinf : v.isInf = false) :
    readDecimal? (numberText v).toList = some v := by
  rcases positive_or_zero hv hinf with hpos | rfl
  · obtain ⟨x, hx, hcovers⟩ := denotes_numberText hpos
    exact readDecimal?_of_denotes hx hpos hcovers
  · decide

end Stepwise
