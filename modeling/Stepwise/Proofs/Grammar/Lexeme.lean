import Mathlib.Data.List.Basic
import Stepwise.Grammar.Layout
import Stepwise.Grammar.Rule

/-!
# Lexemes divide the text

A scanner that succeeds divides its text into the lexeme and the rest (`Scanner.Divides`), and the lexeme of every token
but the end of the text is not empty (`Rule.scan_divides`). Layout divides the text as well, and what it leaves starts
with no layout (`skipped_skipped`). Of what parts a number is made is said once, for all that is proved about numbers
(`exponent_cases`, `number_cases`).
-/

namespace Stepwise

namespace Scanner

/-- What a scanner gives is its text, cut after a nonempty lexeme. -/
def Divides (scan : Scanner) : Prop := ∀ cs l rest, scan cs = some (l, rest) → cs = l ++ rest ∧ l ≠ []

/-! ## Combinators -/

theorem Divides.orElse {a b : Scanner} (ha : a.Divides) (hb : b.Divides) : (orElse a b).Divides := by
  intro cs l rest h
  unfold Scanner.orElse at h
  split at h
  · next r hr => cases h; exact ha _ _ _ hr
  · exact hb _ _ _ h

theorem Divides.firstOf {scanners : List Scanner} (h : ∀ s ∈ scanners, s.Divides) : (firstOf scanners).Divides := by
  induction scanners with
  | nil => intro _ _ _ h; cases h
  | cons s rest ih => exact .orElse (h s (by simp)) (ih fun t ht => h t (by simp [ht]))

theorem divides_symbol {s : String} {notBefore : List Char} (hs : s.toList ≠ []) : (symbol s notBefore).Divides := by
  intro cs l rest h
  unfold symbol at h
  split at h
  · cases h
  · next r hr =>
    have hcut := (List.append_eq_of_isPrefixOf?_eq_some hr).symm
    split at h
    · cases h; exact ⟨hcut, hs⟩
    · split at h
      · cases h
      · cases h; exact ⟨hcut, hs⟩

theorem divides_plain {symbols : List String} (hs : ∀ s ∈ symbols, s.toList ≠ []) : (plain symbols).Divides := by
  refine Divides.firstOf fun scan h => ?_
  obtain ⟨s, hmem, rfl⟩ := List.mem_map.1 h
  exact divides_symbol (hs s hmem)

/-! ## Words -/

theorem word_append (cs : List Char) : cs = (word cs).1 ++ (word cs).2 := List.takeWhile_append_dropWhile.symm

theorem divides_keyword {words : List String} (hw : ∀ w ∈ words, w.toList ≠ []) : (keyword words).Divides := by
  intro cs l rest h
  unfold keyword at h
  split at h
  next w r hr =>
  split at h
  · next hany =>
    cases h
    obtain ⟨k, hk, heq⟩ := List.any_eq_true.1 hany
    have hcut := word_append cs
    rw [hr] at hcut
    exact ⟨hcut, eq_of_beq heq ▸ hw k hk⟩
  · cases h

theorem isWordChar_of_start {c : Char} (h : isWordStart c = true) : isWordChar c = true := by
  simp only [isWordStart, isWordChar, Char.isAlphanum, Bool.or_eq_true] at h ⊢
  rcases h with (h | h) | h
  · exact .inl (.inl (.inl h))
  · exact .inl (.inr h)
  · exact .inr h

theorem divides_anyWord : anyWord.Divides := by
  intro cs l rest h
  cases cs with
  | nil => cases h
  | cons c cs =>
    simp only [anyWord] at h
    split at h
    · next hc =>
      have hw : word (c :: cs) = (l, rest) := Option.some.inj h
      have hcut := word_append (c :: cs)
      rw [hw] at hcut
      refine ⟨hcut, ?_⟩
      have hl : l = (c :: cs).takeWhile isWordChar := congrArg Prod.fst hw.symm
      simp [hl, isWordChar_of_start hc]
    · cases h

theorem divides_identifier : identifier.Divides := by
  intro cs l rest h
  unfold identifier at h
  split at h
  · cases h
  · exact divides_anyWord _ _ _ h

/-- A word that starts with no digit. -/
def IsWord (l : List Char) : Prop := l.head?.any isWordStart ∧ l.all isWordChar

instance (l : List Char) : Decidable (IsWord l) := inferInstanceAs (Decidable (_ ∧ _))

/-- A word that is not reserved. -/
def IsIdentifier (l : List Char) : Prop := IsWord l ∧ ! reserved.any (·.toList == l)

instance (l : List Char) : Decidable (IsIdentifier l) := inferInstanceAs (Decidable (_ ∧ _))

theorem isWord_of_anyWord {cs l rest : List Char} (h : anyWord cs = some (l, rest)) : IsWord l := by
  cases cs with
  | nil => cases h
  | cons c cs =>
    simp only [anyWord] at h
    split at h
    · next hc =>
      have hl : l = (c :: cs).takeWhile isWordChar := congrArg Prod.fst (Option.some.inj h).symm
      subst hl
      exact ⟨by simp [isWordChar_of_start hc, hc], List.all_takeWhile⟩
    · cases h

theorem isIdentifier_of_identifier {cs l rest : List Char} (h : identifier cs = some (l, rest)) : IsIdentifier l := by
  unfold identifier at h
  split at h
  · cases h
  · next hk =>
    have hl : l = (word cs).1 := by
      cases cs with
      | nil => cases h
      | cons c cs =>
        simp only [anyWord] at h
        split at h
        · exact congrArg Prod.fst (Option.some.inj h).symm
        · cases h
    refine ⟨isWord_of_anyWord h, ?_⟩
    subst hl
    simp only [keyword, ite_eq_right_iff] at hk
    simpa using hk

/-! ## Numbers and strings -/

theorem digits_append (cs : List Char) : cs = (digits cs).1 ++ (digits cs).2 := List.takeWhile_append_dropWhile.symm

/-- The exponent that the digits of `cs` make behind `mark`, which is the letter with a sign or without. -/
def exponentBehind (mark cs : List Char) : List Char × List Char :=
  if (digits cs).1 = [] then ([], mark ++ cs) else (mark ++ (digits cs).1, (digits cs).2)

def isExponentMark (c : Char) : Bool := c = 'e' || c = 'E'

def isSign (c : Char) : Bool := c = '+' || c = '-'

theorem exponent_of_ne {cs : List Char} (h : cs.head?.any isExponentMark = false) : exponent cs = ([], cs) := by
  cases cs with
  | nil => rfl
  | cons c cs => simp_all [exponent, isExponentMark]

theorem exponent_signed {e s : Char} (he : isExponentMark e = true) (hs : isSign s = true) (cs : List Char) :
    exponent (e :: s :: cs) = exponentBehind [e, s] cs := by
  simp only [isExponentMark, isSign, Bool.or_eq_true, decide_eq_true_eq] at he hs
  simp only [exponent, if_pos he, if_pos hs, exponentBehind]
  cases hd : digits cs with
  | mk l rest => cases l <;> rfl

theorem exponent_unsigned {e : Char} (he : isExponentMark e = true) {cs : List Char}
    (hs : cs.head?.any isSign = false) : exponent (e :: cs) = exponentBehind [e] cs := by
  simp only [isExponentMark, Bool.or_eq_true, decide_eq_true_eq] at he
  cases cs with
  | nil => simp [exponent, he, exponentBehind, digits]
  | cons s cs =>
    have hne : ¬ (s = '+' ∨ s = '-') := by simpa [isSign] using hs
    simp only [exponent, if_pos he, if_neg hne, exponentBehind]
    cases hd : digits (s :: cs) with
    | mk l rest => cases l <;> rfl

/-- Digits behind the letter and a sign make a power of ten. -/
theorem exponent_of_digits {e : Char} {sign cs : List Char} (he : isExponentMark e = true)
    (hs : sign = [] ∨ sign = ['+'] ∨ sign = ['-']) (hne : (digits cs).1 ≠ []) :
    exponent (e :: (sign ++ cs)) = (e :: (sign ++ (digits cs).1), (digits cs).2) := by
  have hbehind (mark : List Char) : exponentBehind mark cs = (mark ++ (digits cs).1, (digits cs).2) := if_neg hne
  rcases hs with rfl | rfl | rfl
  · have hsign : cs.head?.any isSign = false := by
      cases cs with
      | nil => rfl
      | cons c cs =>
        refine Bool.eq_false_iff.2 fun hc => hne ?_
        simp only [Option.any_some, List.head?_cons, isSign, Bool.or_eq_true, decide_eq_true_eq] at hc
        rcases hc with rfl | rfl <;> rfl
    rw [List.nil_append, exponent_unsigned he hsign, hbehind]
    rfl
  · exact (exponent_signed he rfl cs).trans (hbehind _)
  · exact (exponent_signed he rfl cs).trans (hbehind _)

/-- There is no power of ten, or digits stand behind the letter and a sign. -/
theorem exponent_cases (cs : List Char) : exponent cs = ([], cs) ∨ ∃ e sign after, cs = e :: (sign ++ after) ∧
    isExponentMark e = true ∧ (sign = [] ∨ sign = ['+'] ∨ sign = ['-']) ∧ (digits after).1 ≠ [] := by
  have behind {mark after : List Char} (h : exponent cs = exponentBehind mark after) (hcs : cs = mark ++ after) :
      exponent cs = ([], cs) ∨ (digits after).1 ≠ [] := by
    by_cases hnil : (digits after).1 = []
    · exact .inl (by rw [h, hcs, exponentBehind, if_pos hnil])
    · exact .inr hnil
  cases cs with
  | nil => exact .inl rfl
  | cons e cs =>
    by_cases he : isExponentMark e = true
    · by_cases hs : cs.head?.any isSign = true
      · cases cs with
        | nil => cases hs
        | cons s cs =>
          have hsign : [s] = [] ∨ [s] = ['+'] ∨ [s] = ['-'] := by simpa [isSign] using hs
          exact (behind (exponent_signed he hs cs) rfl).imp_right fun hne => ⟨e, [s], cs, rfl, he, hsign, hne⟩
      · have hcut := exponent_unsigned he (Bool.eq_false_iff.2 hs)
        exact (behind hcut rfl).imp_right fun hne => ⟨e, [], cs, rfl, he, .inl rfl, hne⟩
    · exact .inl (exponent_of_ne (Bool.eq_false_iff.2 he))

theorem exponent_append (cs : List Char) : cs = (exponent cs).1 ++ (exponent cs).2 := by
  rcases exponent_cases cs with h | ⟨e, sign, after, rfl, he, hs, hne⟩
  · rw [h, List.nil_append]
  · rw [exponent_of_digits he hs hne]
    simp [← digits_append after]

theorem number_of_point {cs whole rest : List Char} (h : digits cs = (whole, '.' :: rest)) : number cs =
    if whole = [] ∧ (digits rest).1 = [] then none
    else some (whole ++ '.' :: (digits rest).1 ++ (exponent (digits rest).2).1, (exponent (digits rest).2).2) := by
  simp only [number, h]
  cases whole with
  | nil =>
    cases hd : digits rest with
    | mk part rest => cases part <;> simp [hd]
  | cons w whole => simp

theorem number_of_no_point {cs whole rest : List Char} (h : digits cs = (whole, rest)) (hp : rest.head? ≠ some '.') :
    number cs = if whole = [] then none else some (whole ++ (exponent rest).1, (exponent rest).2) := by
  simp only [number, h]
  cases whole with
  | nil =>
    cases rest with
    | nil => rfl
    | cons c rest =>
      have hc : c ≠ '.' := fun heq => hp (by rw [heq]; rfl)
      simp [hc]
  | cons w whole =>
    cases rest with
    | nil => simp
    | cons c rest =>
      have hc : c ≠ '.' := fun heq => hp (by rw [heq]; rfl)
      simp [hc]

/-- A number is digits with a point or without, at least one of them, and a power of ten. -/
theorem number_cases {cs l rest : List Char} (h : number cs = some (l, rest)) :
    (∃ whole tail, digits cs = (whole, '.' :: tail) ∧ ¬ (whole = [] ∧ (digits tail).1 = []) ∧
      l = whole ++ '.' :: (digits tail).1 ++ (exponent (digits tail).2).1 ∧ rest = (exponent (digits tail).2).2) ∨
    ∃ whole tail, digits cs = (whole, tail) ∧ tail.head? ≠ some '.' ∧ whole ≠ [] ∧ l = whole ++ (exponent tail).1 ∧
      rest = (exponent tail).2 := by
  obtain ⟨whole, tail, hd⟩ : ∃ whole tail, digits cs = (whole, tail) := ⟨_, _, rfl⟩
  by_cases hpoint : tail.head? = some '.'
  · obtain ⟨after, rfl⟩ := List.head?_eq_some_iff.1 hpoint
    rw [number_of_point hd] at h
    split at h
    · cases h
    · next hne =>
      obtain ⟨hl, hrest⟩ := Prod.mk.inj (Option.some.inj h)
      exact .inl ⟨whole, after, hd, hne, hl.symm, hrest.symm⟩
  · rw [number_of_no_point hd hpoint] at h
    split at h
    · cases h
    · next hne =>
      obtain ⟨hl, hrest⟩ := Prod.mk.inj (Option.some.inj h)
      exact .inr ⟨whole, tail, hd, hpoint, hne, hl.symm, hrest.symm⟩

theorem divides_number : number.Divides := by
  intro cs l rest h
  have hcs := digits_append cs
  rcases number_cases h with ⟨whole, tail, hd, -, rfl, rfl⟩ | ⟨whole, tail, hd, -, hne, rfl, rfl⟩
  · have htail := digits_append tail
    have hexp := exponent_append (digits tail).2
    rw [hd] at hcs
    exact ⟨by simp [hcs, ← hexp, ← htail], by simp⟩
  · have hexp := exponent_append tail
    rw [hd] at hcs
    exact ⟨by simp [hcs, ← hexp], fun hnil => hne (List.append_eq_nil_iff.1 hnil).1⟩

/-- A number starts with a digit or a point. -/
theorem number_head {c : Char} {cs : List Char} {found : List Char × List Char} (h : number (c :: cs) = some found) :
    c.isDigit = true ∨ c = '.' := by
  cases hc : c.isDigit with
  | true => exact .inl rfl
  | false =>
    have hnone : digits (c :: cs) = ([], c :: cs) := by simp [digits, hc]
    rcases number_cases h with ⟨whole, tail, hd, -⟩ | ⟨whole, tail, hd, -, hne, -⟩
    · rw [hnone] at hd
      cases hd
      exact .inr rfl
    · rw [hnone] at hd
      cases hd
      exact absurd rfl hne

theorem stringBody_append (quote : Char) (cs : List Char) :
    cs = (stringBody quote cs).1 ++ (stringBody quote cs).2 := by
  fun_induction stringBody quote cs with
  | case1 => rfl
  | case2 => rfl
  | case3 c cs body rest hrec ih => rw [hrec] at ih; simp [ih]
  | case4 => rfl
  | case5 c cs _ _ _ body rest hrec ih => rw [hrec] at ih; simp [ih]

/-- A string is its body between two equal quotes. -/
theorem string_cases {cs l rest : List Char} (h : string cs = some (l, rest)) :
    ∃ quote tail body, cs = quote :: tail ∧ stringBody quote tail = (body, quote :: rest) ∧
      l = quote :: body ++ [quote] := by
  cases cs with
  | nil => cases h
  | cons quote tail =>
    simp only [string] at h
    split at h
    · split at h
      · next body c _ hbody =>
        split at h
        · next hc =>
          cases h
          exact ⟨quote, tail, body, rfl, hc ▸ hbody, rfl⟩
        · cases h
      · cases h
    · cases h

theorem divides_string : string.Divides := by
  intro cs l rest h
  obtain ⟨quote, tail, body, rfl, hbody, rfl⟩ := string_cases h
  have hcut := stringBody_append quote tail
  rw [hbody] at hcut
  exact ⟨by simp [hcut], by simp⟩

theorem body?_string {cs l rest : List Char} (h : string cs = some (l, rest)) : ∃ body, body? l = some body := by
  obtain ⟨quote, _, body, -, -, rfl⟩ := string_cases h
  cases body with
  | nil => exact ⟨_, rfl⟩
  | cons c cs => exact ⟨_, rfl⟩

end Scanner

/-! ## Tokens of the grammar -/

/-- Every token but the end of the text is a nonempty piece of the text. -/
theorem Rule.scan_divides {r : Rule} {scan : Scanner} (hr : r ≠ .endOfInput) (h : r.definition = .token scan) :
    scan.Divides := by
  cases r <;> cases h
  case endOfInput => exact absurd rfl hr
  case identifier => exact Scanner.divides_identifier
  case propertyName => exact Scanner.divides_anyWord
  case number => exact Scanner.divides_number
  case string => exact Scanner.divides_string
  case assignOp => exact .orElse (Scanner.divides_plain (by decide)) (Scanner.divides_symbol (by decide))
  case opEquality | opComparison | opUpdate => exact Scanner.divides_plain (by decide)
  case opOr | opAnd => exact Scanner.divides_symbol (by decide)
  case opAdditive => exact .orElse (Scanner.divides_symbol (by decide)) (Scanner.divides_symbol (by decide))
  case opMultiplicative =>
    refine .firstOf fun s hs => ?_
    simp only [List.mem_cons, List.not_mem_nil, or_false] at hs
    rcases hs with rfl | rfl | rfl <;> exact Scanner.divides_symbol (by decide)
  case opUnary =>
    refine .firstOf fun s hs => ?_
    simp only [List.mem_cons, List.not_mem_nil, or_false] at hs
    rcases hs with rfl | rfl | rfl | rfl
    · exact Scanner.divides_symbol (by decide)
    · exact Scanner.divides_symbol (by decide)
    · exact Scanner.divides_symbol (by decide)
    · exact Scanner.divides_keyword (by decide)
  all_goals exact Scanner.divides_keyword (by decide)

/-! ## Layout -/

theorem Layout.split_append (place : Layout.Place) (cs : List Char) :
    (Layout.split place cs).1 ++ (Layout.split place cs).2 = cs := by
  fun_induction Layout.split place cs <;> simp_all

/-- What follows the layout at the start of a text. -/
def skipped (cs : List Char) : List Char := (Layout.split .outside cs).2

theorem skipped_length_le (cs : List Char) : (skipped cs).length ≤ cs.length := by
  have h := congrArg List.length (Layout.split_append .outside cs)
  rw [List.length_append] at h
  unfold skipped
  omega

/-- Layout takes nothing from what it left, wherever it started. -/
theorem Layout.split_rest (place : Layout.Place) (cs : List Char) :
    Layout.split .outside (Layout.split place cs).2 = ([], (Layout.split place cs).2) := by
  fun_induction Layout.split place cs <;> simp_all [Layout.split]

@[simp] theorem skipped_skipped (cs : List Char) : skipped (skipped cs) = skipped cs := by
  unfold skipped
  rw [Layout.split_rest]

end Stepwise
