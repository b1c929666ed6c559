import Stepwise.Number.Decimal
import Stepwise.Proofs.Grammar.Scanning

/-!
# Numerals of the grammar are read

A number literal is digits with an optional point and an optional power of ten. Whatever text the scanner takes for one,
the reader of numerals gives a value for it (`readDecimal?_number`).

A point behind digits belongs to the number, and a name behind it does too if it reads as a power of ten, as in `1.e5`
(`Scanner.exponent_of_isPower`). Any other name stays behind, or its end does (`Scanner.exponent_of_not_isPower`).
-/

namespace Stepwise

/-- A power of ten as a numeral may end with it; it may be missing. -/
def IsExponent (cs : List Char) : Prop :=
  cs = [] ∨ ∃ e sign ds, cs = e :: (sign ++ ds) ∧ (e = 'e' ∨ e = 'E') ∧ (sign = [] ∨ sign = ['+'] ∨ sign = ['-']) ∧
    ds ≠ [] ∧ ds.all Char.isDigit

theorem IsExponent.not_digit {cs : List Char} (h : IsExponent cs) : cs.head?.any Char.isDigit = false := by
  rcases h with rfl | ⟨e, sign, ds, rfl, rfl | rfl, -⟩ <;> rfl

theorem Scanner.digits_all (cs : List Char) : (digits cs).1.all Char.isDigit := List.all_takeWhile

theorem Scanner.exponent_isExponent (cs : List Char) : IsExponent (exponent cs).1 := by
  rcases exponent_cases cs with h | ⟨e, sign, after, rfl, he, hs, hne⟩
  · rw [h]
    exact .inl rfl
  · rw [exponent_of_digits he hs hne]
    exact .inr ⟨e, sign, _, rfl, by simpa [isExponentMark] using he, hs, hne, digits_all after⟩

namespace Decimal

theorem readInt?_digits {sign ds : List Char} (hs : sign = [] ∨ sign = ['+'] ∨ sign = ['-']) (hne : ds ≠ [])
    (hds : ds.all Char.isDigit) : ∃ n, readInt? (sign ++ ds) = some n := by
  have hread : ¬ (ds = [] ∨ (! ds.all Char.isDigit) = true) := by simp [hne, hds]
  rcases hs with rfl | rfl | rfl
  · obtain ⟨d, ds, rfl⟩ := List.exists_cons_of_ne_nil hne
    have hdigit : d.isDigit = true := (List.all_eq_true.1 hds) d List.mem_cons_self
    unfold readInt?
    split
    next negative ds' heq =>
    split at heq
    · next hminus => cases hminus; exact absurd hdigit (by decide)
    · next hplus => cases hplus; exact absurd hdigit (by decide)
    · cases heq
      rw [List.nil_append, if_neg hread]
      exact ⟨_, rfl⟩
  · unfold readInt?
    simp only [List.cons_append, List.nil_append]
    rw [if_neg hread]
    exact ⟨_, rfl⟩
  · unfold readInt?
    simp only [List.cons_append, List.nil_append]
    rw [if_neg hread]
    exact ⟨_, rfl⟩

theorem read?_whole {whole e : List Char} (hw : whole.all Char.isDigit) (hne : whole ≠ []) (he : IsExponent e) :
    ∃ d, read? (whole ++ e) = some d := by
  obtain ⟨htake, hdrop⟩ := span_append hw he.not_digit
  unfold read?
  rw [htake, hdrop]
  rcases he with rfl | ⟨e, sign, ds, rfl, he, hs, hds, hall⟩
  · simp [hne]
  · obtain ⟨n, hn⟩ := readInt?_digits hs hds hall
    rcases he with rfl | rfl <;> simp [hne, hn]

theorem read?_point {whole part e : List Char} (hw : whole.all Char.isDigit) (hp : part.all Char.isDigit)
    (hne : ¬ (whole = [] ∧ part = [])) (he : IsExponent e) : ∃ d, read? (whole ++ '.' :: (part ++ e)) = some d := by
  have hdot : ('.' :: (part ++ e)).head?.any Char.isDigit = false := rfl
  obtain ⟨htake, hdrop⟩ := span_append hw hdot
  obtain ⟨htake', hdrop'⟩ := span_append hp he.not_digit
  unfold read?
  rw [htake, hdrop]
  simp only [htake', hdrop', if_neg hne]
  rcases he with rfl | ⟨e, sign, ds, rfl, he, hs, hds, hall⟩
  · exact ⟨_, rfl⟩
  · obtain ⟨n, hn⟩ := readInt?_digits hs hds hall
    simp [he, hn]

end Decimal

/-- Numerals of the grammar are read. -/
theorem readDecimal?_number {cs l rest : List Char} (h : Scanner.number cs = some (l, rest)) :
    ∃ v, readDecimal? l = some v := by
  have hread : ∃ d, Decimal.read? l = some d := by
    have hall := Scanner.digits_all cs
    rcases Scanner.number_cases h with ⟨whole, tail, hd, hne, rfl, -⟩ | ⟨whole, tail, hd, -, hne, rfl, -⟩
    · rw [hd] at hall
      rw [List.append_assoc]
      exact Decimal.read?_point hall (Scanner.digits_all tail) hne (Scanner.exponent_isExponent _)
    · rw [hd] at hall
      exact Decimal.read?_whole hall hne (Scanner.exponent_isExponent _)
  obtain ⟨hcs, hne⟩ := Scanner.divides_number _ _ _ h
  unfold readDecimal?
  split
  · rw [hcs] at h
    exact absurd (Scanner.number_head h) (by decide)
  · rw [hcs] at h
    exact absurd (Scanner.number_head h) (by decide)
  · obtain ⟨d, hd⟩ := hread
    rw [hd]
    exact ⟨_, rfl⟩

/-! ## A name behind digits and a point -/

namespace Scanner

/-- The name reads as the power of ten of the number before it. -/
def isPower : List Char → Bool
  | e :: ds => isExponentMark e && ! ds.isEmpty && ds.all Char.isDigit
  | [] => false

/-- A sign and a digit, which `e` would take for a power of ten. -/
def isSigned : List Char → Bool
  | s :: d :: _ => isSign s && d.isDigit
  | _ => false

/-- Whole digits and a point take the power of ten that follows. -/
theorem number_digits_point {ds cs : List Char} (hne : ds ≠ []) (hds : ds.all Char.isDigit = true)
    (hcs : cs.head?.any Char.isDigit = false) :
    number (ds ++ '.' :: cs) = some (ds ++ '.' :: (exponent cs).1, (exponent cs).2) := by
  have hwhole : digits (ds ++ '.' :: cs) = (ds, '.' :: cs) := digits_append_of_all hds rfl
  have hpart : digits cs = ([], cs) := digits_append_of_all List.all_nil hcs
  rw [number_of_point hwhole, if_neg fun h => hne h.1, hpart]
  simp

theorem isSigned_of_isWordChar {c : Char} (h : isWordChar c = true) (cs : List Char) : isSigned (c :: cs) = false := by
  have hsign : isSign c = false := by
    refine Bool.eq_false_iff.2 fun hs => ?_
    simp only [isSign, Bool.or_eq_true, decide_eq_true_eq] at hs
    rcases hs with rfl | rfl <;> cases h
  cases cs <;> simp [isSigned, hsign]

theorem isSigned_point (cs : List Char) : isSigned ('.' :: cs) = false := by
  cases cs <;> rfl

/-- Where no sign stands before a digit, the power of ten is the digits that follow. -/
theorem exponent_of_not_isSigned {e : Char} (he : isExponentMark e = true) {cs : List Char} (h : isSigned cs = false) :
    exponent (e :: cs) = exponentBehind [e] cs := by
  by_cases hhead : cs.head?.any isSign = true
  · cases cs with
    | nil => cases hhead
    | cons s after =>
      have hs : isSign s = true := hhead
      have hsign : digits (s :: after) = ([], s :: after) := by
        refine digits_append_of_all List.all_nil (Bool.eq_false_iff.2 fun hd => ?_)
        simp only [isSign, Bool.or_eq_true, decide_eq_true_eq] at hs
        rcases hs with rfl | rfl <;> cases hd
      have hafter : digits after = ([], after) := by
        refine digits_append_of_all List.all_nil ?_
        cases after with
        | nil => rfl
        | cons d after =>
          rw [isSigned, hs, Bool.true_and] at h
          exact h
      simp [exponent_signed he hs, exponentBehind, hafter, hsign]
  · exact exponent_unsigned he (Bool.eq_false_iff.2 hhead)

theorem exponent_of_isPower {name rest : List Char} (h : isPower name = true) (hrest : Apart rest) :
    exponent (name ++ rest) = (name, rest) := by
  cases name with
  | nil => cases h
  | cons e ds =>
    simp only [isPower, Bool.and_eq_true] at h
    obtain ⟨⟨he, hne⟩, hds⟩ := h
    cases ds with
    | nil => cases hne
    | cons d ds =>
      have hd : d.isDigit = true := List.all_eq_true.1 hds d List.mem_cons_self
      have hsigned := isSigned_of_isWordChar (isWordChar_of_isDigit hd) (ds ++ rest)
      have hdigits := digits_append_of_all hds hrest.not_digit
      rw [List.cons_append] at hdigits
      simp [exponent_of_not_isSigned he hsigned, exponentBehind, hdigits]

theorem isWordStart_of_not_isDigit {c : Char} (h : isWordChar c = true) (hd : c.isDigit = false) :
    isWordStart c = true := by
  simpa [isWordChar, isWordStart, Char.isAlphanum, hd] using h

/-- Another name stays behind the number, or its end does. -/
theorem exponent_of_not_isPower {name rest : List Char} (hname : IsWord name) (h : isPower name = false)
    (hrest : Apart rest) (hsigned : isSigned rest = false) :
    (exponent (name ++ rest)).2.head?.any isWordStart = true := by
  cases name with
  | nil => cases hname.1
  | cons c cs =>
    obtain ⟨hstart, hall⟩ := hname
    have hahead : (c :: (cs ++ rest)).head?.any isWordStart = true := hstart
    rw [List.cons_append]
    by_cases hc : isExponentMark c = true
    · have hsigned : isSigned (cs ++ rest) = false := by
        cases cs with
        | nil => exact hsigned
        | cons d cs => exact isSigned_of_isWordChar (List.all_eq_true.1 hall d (by simp)) (cs ++ rest)
      rw [exponent_of_not_isSigned hc hsigned, exponentBehind, digits_append_apart hrest]
      split
      · exact hahead
      · next hne =>
        -- the digits do not take up the whole name, so a letter follows them
        have hcut := digits_append cs
        cases hrem : (digits cs).2 with
        | nil =>
          have hds : cs.all Char.isDigit = true := by
            rw [hcut, hrem, List.append_nil]
            exact List.all_takeWhile
          have hcs : cs ≠ [] := by
            rintro rfl
            exact hne rfl
          simp [isPower, hc, hds, hcs] at h
        | cons d ds =>
          have hd : d.isDigit = false := by
            have hhead := List.head?_dropWhile_not Char.isDigit cs
            rw [show cs.dropWhile Char.isDigit = d :: ds from hrem] at hhead
            simpa using hhead
          have hmem : d ∈ cs := by rw [hcut, hrem]; simp
          exact isWordStart_of_not_isDigit (List.all_eq_true.1 hall d (List.mem_cons_of_mem _ hmem)) hd
    · have hne : (c :: (cs ++ rest)).head?.any isExponentMark = false := Bool.eq_false_iff.2 hc
      rw [exponent_of_ne hne]
      exact hahead

theorem IsWord.not_digit {name : List Char} (h : IsWord name) (rest : List Char) :
    (name ++ rest).head?.any Char.isDigit = false := by
  cases name with
  | nil => cases h.1
  | cons c name =>
    refine Bool.eq_false_iff.2 fun hc => ?_
    have hstart : isWordStart c = true := h.1
    rw [isWordStart_of_isDigit hc] at hstart
    cases hstart

/-- Digits, a point and a power of ten are one number. -/
theorem number_power {ds name rest : List Char} (hne : ds ≠ []) (hds : ds.all Char.isDigit = true) (hname : IsWord name)
    (hpower : isPower name = true) (hrest : Apart rest) :
    number (ds ++ '.' :: (name ++ rest)) = some (ds ++ '.' :: name, rest) := by
  rw [number_digits_point hne hds (hname.not_digit rest), exponent_of_isPower hpower hrest]

end Scanner

end Stepwise
