import Mathlib
import Stepwise.Proofs.Number.Whole
import Stepwise.Value.Convert

/-!
# Numerals with a radix

A string that starts with `0x`, `0o` or `0b`, blanks aside, is a number if digits of the radix follow. What digits are
and what number they write is said by the grammar of numerals (`RadixDigit`, `RadixNumeral`), blanks by `Text.Trimmed`.

The reader differs from the grammar at two places (`readRadix?_eq_some_iff`): it takes a plus sign before the digits,
and it stops at `2 ^ 64`.

**`Value.radix_number`** says when such a string is a number and which one, and that numerals decide it exactly if
neither of the two places is met. `Value.radix_number_unlike_numeral` shows both.
-/

namespace Stepwise

/-! ## Blanks -/

namespace Text

/-- `core` is the text without the blanks at its ends. -/
def Trimmed (text core : List Char) : Prop :=
  ∃ lead trail, text = lead ++ (core ++ trail) ∧ (∀ c ∈ lead, isBlank c = true) ∧ (∀ c ∈ trail, isBlank c = true) ∧
    (∀ c ∈ core.head?, isBlank c = false) ∧ ∀ c ∈ core.getLast?, isBlank c = false

theorem dropWhile_blanks {blanks rest : List Char} (hblanks : ∀ c ∈ blanks, isBlank c = true)
    (hrest : ∀ c ∈ rest.head?, isBlank c = false) : (blanks ++ rest).dropWhile isBlank = rest := by
  rw [List.dropWhile_append_of_pos hblanks]
  cases rest with
  | nil => rfl
  | cons c cs => rw [List.dropWhile_cons_of_neg (by simp [hrest c rfl])]

theorem isBlank_head?_dropWhile {text : List Char} {c : Char} (h : c ∈ (text.dropWhile isBlank).head?) :
    isBlank c = false := by
  have hnot := List.head?_dropWhile_not isBlank text
  rwa [Option.mem_def.1 h] at hnot

theorem trimmed_trim (text : List Char) : Trimmed text (trim text) := by
  obtain ⟨trail, htrail, hrest⟩ : ∃ trail, (∀ c ∈ trail, isBlank c = true) ∧
      text.dropWhile isBlank = trim text ++ trail := by
    refine ⟨((text.dropWhile isBlank).reverse.takeWhile isBlank).reverse, ?_, ?_⟩
    · intro c hc
      exact List.mem_takeWhile_imp (List.mem_reverse.1 hc)
    · rw [trim, ← List.reverse_append, List.takeWhile_append_dropWhile, List.reverse_reverse]
  refine ⟨text.takeWhile isBlank, trail, ?_, fun c => List.mem_takeWhile_imp, htrail, ?_, ?_⟩
  · rw [← hrest, List.takeWhile_append_dropWhile]
  · intro c hc
    have hhead : c ∈ (text.dropWhile isBlank).head? := by
      rw [hrest, List.head?_append, Option.mem_def.1 hc]
      rfl
    exact isBlank_head?_dropWhile hhead
  · intro c hc
    rw [trim, List.getLast?_reverse] at hc
    exact isBlank_head?_dropWhile hc

/-- Trimming leaves the one part of the text with blanks on both sides and none at its own ends. -/
theorem trim_eq_iff {text core : List Char} : trim text = core ↔ Trimmed text core := by
  constructor
  · rintro rfl
    exact trimmed_trim text
  · rintro ⟨lead, trail, rfl, hlead, htrail, hhead, hlast⟩
    unfold trim
    cases core with
    | nil =>
      have hall : ∀ c ∈ lead ++ ([] ++ trail), isBlank c = true := by
        intro c hc
        rcases List.mem_append.1 hc with hc | hc
        · exact hlead c hc
        · exact htrail c hc
      rw [List.dropWhile_eq_nil_iff.2 hall]
      rfl
    | cons c cs =>
      have hfront : (lead ++ (c :: cs ++ trail)).dropWhile isBlank = c :: cs ++ trail := dropWhile_blanks hlead hhead
      have hback : (trail.reverse ++ (c :: cs).reverse).dropWhile isBlank = (c :: cs).reverse :=
        dropWhile_blanks (fun c hc => htrail c (List.mem_reverse.1 hc)) (by rwa [List.head?_reverse])
      rw [hfront, List.reverse_append, hback, List.reverse_reverse]

end Text

/-! ## Numerals -/

/-- The letter behind the zero that names a radix. -/
inductive RadixMark : Nat → Char → Prop where
  | hex : RadixMark 16 'x'
  | hexUpper : RadixMark 16 'X'
  | octal : RadixMark 8 'o'
  | octalUpper : RadixMark 8 'O'
  | binary : RadixMark 2 'b'
  | binaryUpper : RadixMark 2 'B'

theorem RadixMark.radixPrefix?_eq {radix : Nat} {mark : Char} (h : RadixMark radix mark) (rest : List Char) :
    radixPrefix? ('0' :: mark :: rest) = some (radix, rest) := by
  cases h <;> rfl

theorem RadixMark.radix_le {radix : Nat} {mark : Char} (h : RadixMark radix mark) : radix ≤ 16 := by
  cases h <;> decide

/-- The character is the digit `d` of the radix; a letter may be of either case. -/
def RadixDigit (radix : Nat) (c : Char) (d : Nat) : Prop := d < radix ∧ (c = d.digitChar ∨ c = d.digitChar.toUpper)

/-- The characters are digits of the radix, at least one, and write the number. -/
inductive RadixNumeral (radix : Nat) : List Char → Nat → Prop where
  | digit {c : Char} {d : Nat} : RadixDigit radix c d → RadixNumeral radix [c] d
  | append {cs : List Char} {n : Nat} {c : Char} {d : Nat} :
    RadixNumeral radix cs n → RadixDigit radix c d → RadixNumeral radix (cs ++ [c]) (radix * n + d)

/-- Digits and letters with a value are among the first 128 characters. -/
theorem toNat_lt_of_digitValue {c : Char} (h : digitValue c < 36) : c.toNat < 128 := by
  unfold digitValue at h
  split at h
  · next hdigit => exact (Char.isDigit_iff_toNat.1 hdigit).2.trans_lt (by decide)
  · split at h
    · next hlower =>
      have hle := of_decide_eq_true (Bool.and_eq_true_iff.1 hlower).2
      exact (UInt32.le_iff_toNat_le.1 hle).trans_lt (by decide)
    · split at h
      · next hupper =>
        have hle := (of_decide_eq_true hupper).2
        exact (UInt32.le_iff_toNat_le.1 hle).trans_lt (by decide)
      · exact absurd h (lt_irrefl 36)

theorem radixDigit_iff {radix : Nat} (hradix : radix ≤ 16) {c : Char} {d : Nat} :
    RadixDigit radix c d ↔ digitValue c = d ∧ d < radix := by
  constructor
  · rintro ⟨hd, hc⟩
    have hvalue : ∀ d < 16, digitValue d.digitChar = d ∧ digitValue d.digitChar.toUpper = d := by decide
    obtain ⟨hlower, hupper⟩ := hvalue d (by omega)
    rcases hc with rfl | rfl
    · exact ⟨hlower, hd⟩
    · exact ⟨hupper, hd⟩
  · rintro ⟨rfl, hd⟩
    refine ⟨hd, ?_⟩
    have hchar : ∀ n < 128, digitValue (Char.ofNat n) < 16 →
        Char.ofNat n = (digitValue (Char.ofNat n)).digitChar ∨
          Char.ofNat n = (digitValue (Char.ofNat n)).digitChar.toUpper := by decide
    have hc := hchar c.toNat (toNat_lt_of_digitValue (by omega))
    rw [Char.ofNat_toNat] at hc
    exact hc (by omega)

theorem natOfDigits_concat (radix : Nat) (cs : List Char) (c : Char) :
    natOfDigits radix (cs ++ [c]) = radix * natOfDigits radix cs + digitValue c := by
  rw [natOfDigits, List.foldl_append]
  rfl

/-- The grammar of numerals in terms of the values of digits. -/
theorem radixNumeral_iff {radix : Nat} (hradix : radix ≤ 16) {cs : List Char} {n : Nat} :
    RadixNumeral radix cs n ↔ cs ≠ [] ∧ (∀ c ∈ cs, digitValue c < radix) ∧ natOfDigits radix cs = n := by
  constructor
  · intro h
    induction h with
    | digit hc =>
      obtain ⟨rfl, hd⟩ := (radixDigit_iff hradix).1 hc
      exact ⟨List.cons_ne_nil _ _, by simpa using hd, by simp [natOfDigits]⟩
    | append _ hc ih =>
      obtain ⟨rfl, hd⟩ := (radixDigit_iff hradix).1 hc
      obtain ⟨-, hdigits, rfl⟩ := ih
      refine ⟨by simp, fun c hc => ?_, natOfDigits_concat ..⟩
      rcases List.mem_append.1 hc with hc | hc
      · exact hdigits c hc
      · rwa [List.mem_singleton.1 hc]
  · rintro ⟨hne, hdigits, rfl⟩
    -- The grammar appends digits, so the induction is on the list from its end.
    induction cs using List.reverseRecOn with
    | nil => exact absurd rfl hne
    | append_singleton cs c ih =>
      have hc : RadixDigit radix c (digitValue c) :=
        (radixDigit_iff hradix).2 ⟨rfl, hdigits c (List.mem_append_right _ (List.mem_singleton_self c))⟩
      rw [natOfDigits_concat]
      cases cs with
      | nil => simpa [natOfDigits] using RadixNumeral.digit hc
      | cons b bs => exact .append (ih (List.cons_ne_nil _ _) fun c hc => hdigits c (List.mem_append_left _ hc)) hc

theorem RadixNumeral.unique {radix : Nat} (hradix : radix ≤ 16) {cs : List Char} {m n : Nat}
    (hm : RadixNumeral radix cs m) (hn : RadixNumeral radix cs n) : m = n := by
  rw [← ((radixNumeral_iff hradix).1 hm).2.2, ← ((radixNumeral_iff hradix).1 hn).2.2]

theorem not_radixNumeral_plus {radix : Nat} (hradix : radix ≤ 16) (cs : List Char) (n : Nat) :
    ¬ RadixNumeral radix ('+' :: cs) n := by
  intro h
  have hplus := ((radixNumeral_iff hradix).1 h).2.1 '+' List.mem_cons_self
  have hvalue : digitValue '+' = 36 := by decide
  omega

/-- What is read from the characters behind the sign. -/
def wordOfDigits? (radix : Nat) (ds : List Char) : Option Nat :=
  if ds = [] ∨ ds.any (radix ≤ digitValue ·) then none
  else if natOfDigits radix ds < wordSize then some (natOfDigits radix ds) else none

theorem wordOfDigits?_eq_some_iff {radix : Nat} (hradix : radix ≤ 16) {ds : List Char} {n : Nat} :
    wordOfDigits? radix ds = some n ↔ RadixNumeral radix ds n ∧ n < 2 ^ 64 := by
  have hword : wordSize = 2 ^ 64 := by decide
  rw [radixNumeral_iff hradix, wordOfDigits?, hword]
  by_cases hds : ds = [] ∨ ds.any (radix ≤ digitValue ·)
  · rw [if_pos hds]
    simp only [reduceCtorEq, false_iff]
    rintro ⟨⟨hne, hdigits, -⟩, -⟩
    rcases hds with hnil | hany
    · exact hne hnil
    · obtain ⟨c, hc, hle⟩ := List.any_eq_true.1 hany
      exact absurd (hdigits c hc) (of_decide_eq_true hle).not_gt
  · rw [if_neg hds]
    rw [not_or, List.any_eq_true, not_exists] at hds
    have hdigits : ∀ c ∈ ds, digitValue c < radix := by
      intro c hc
      by_contra hge
      exact hds.2 c ⟨hc, decide_eq_true (Nat.le_of_not_lt hge)⟩
    split
    · next hlt =>
      rw [Option.some_inj]
      constructor
      · rintro rfl
        exact ⟨⟨hds.1, hdigits, rfl⟩, hlt⟩
      · exact fun h => h.1.2.2
    · next hge =>
      simp only [reduceCtorEq, false_iff]
      rintro ⟨⟨-, -, rfl⟩, hlt⟩
      exact hge hlt

theorem readRadix?_plus (radix : Nat) (ds : List Char) : readRadix? radix ('+' :: ds) = wordOfDigits? radix ds := rfl

theorem readRadix?_of_ne_plus {radix : Nat} {cs : List Char} (h : ∀ ds, cs ≠ '+' :: ds) :
    readRadix? radix cs = wordOfDigits? radix cs := by
  unfold readRadix?
  dsimp only
  split
  · next ds => exact absurd rfl (h ds)
  · rfl

/-- The characters are a numeral below `2 ^ 64`, perhaps with a plus sign before it. -/
def RadixWord (radix : Nat) (cs : List Char) (n : Nat) : Prop :=
  ∃ ds, (cs = ds ∨ cs = '+' :: ds) ∧ RadixNumeral radix ds n ∧ n < 2 ^ 64

theorem readRadix?_eq_some_iff {radix : Nat} (hradix : radix ≤ 16) {cs : List Char} {n : Nat} :
    readRadix? radix cs = some n ↔ RadixWord radix cs n := by
  by_cases hplus : ∃ ds, cs = '+' :: ds
  · obtain ⟨ds, rfl⟩ := hplus
    rw [readRadix?_plus, wordOfDigits?_eq_some_iff hradix]
    constructor
    · intro h
      exact ⟨ds, .inr rfl, h⟩
    · rintro ⟨es, rfl | heq, h⟩
      · exact absurd h.1 (not_radixNumeral_plus hradix ds n)
      · cases heq
        exact h
  · rw [readRadix?_of_ne_plus fun ds h => hplus ⟨ds, h⟩, wordOfDigits?_eq_some_iff hradix]
    constructor
    · intro h
      exact ⟨cs, .inl rfl, h⟩
    · rintro ⟨ds, rfl | rfl, h⟩
      · exact h
      · exact absurd ⟨ds, rfl⟩ hplus

/-- Words are numerals, and numerals are words, unless a number is too large or a sign is in front. -/
theorem radixWord_iff_numeral {radix : Nat} (hradix : radix ≤ 16) (cs : List Char) :
    ((∃ n, RadixWord radix cs n) ↔ ∃ n, RadixNumeral radix cs n) ↔
      (∀ n, RadixNumeral radix cs n → n < 2 ^ 64) ∧
        ∀ ds n, cs = '+' :: ds → RadixNumeral radix ds n → 2 ^ 64 ≤ n := by
  constructor
  · intro h
    constructor
    · intro n hn
      obtain ⟨m, ds, rfl | rfl, hm, hlt⟩ := h.2 ⟨n, hn⟩
      · rwa [hn.unique hradix hm]
      · exact absurd hn (not_radixNumeral_plus hradix ds n)
    · intro ds n heq hn
      by_contra hlt
      obtain ⟨m, hm⟩ := h.1 ⟨n, ds, .inr heq, hn, by omega⟩
      exact not_radixNumeral_plus hradix ds m (heq ▸ hm)
  · rintro ⟨hsmall, hlarge⟩
    constructor
    · rintro ⟨n, ds, rfl | heq, hn, hlt⟩
      · exact ⟨n, hn⟩
      · exact absurd hlt (hlarge ds n heq hn).not_gt
    · rintro ⟨n, hn⟩
      exact ⟨n, cs, .inl rfl, hn, hsmall n hn⟩

/-! ## Strings -/

namespace Value

section

variable {s : String} {mark : Char} {radix : Nat} {rest : List Char}

theorem toNumber_of_radixMark (hs : Text.Trimmed s.toList ('0' :: mark :: rest)) (hmark : RadixMark radix mark) :
    (str s).toNumber = ((readRadix? radix rest).map fun n => Decimal.toFloat ⟨n, 0⟩).getD nan := by
  have htrim := Text.trim_eq_iff.2 hs
  show numberOfChars s.toList = _
  unfold numberOfChars
  dsimp only
  rw [htrim, if_neg (List.cons_ne_nil _ _), if_neg (by simp), if_neg (by simp), hmark.radixPrefix?_eq]
  dsimp only
  cases readRadix? radix rest <;> rfl

theorem toNumber_of_radixWord (hs : Text.Trimmed s.toList ('0' :: mark :: rest)) (hmark : RadixMark radix mark)
    {n : Nat} (hn : RadixWord radix rest n) : (str s).toNumber = Decimal.toFloat ⟨n, 0⟩ := by
  rw [toNumber_of_radixMark hs hmark, (readRadix?_eq_some_iff hmark.radix_le).2 hn]
  rfl

theorem isNaN_toNumber_iff (hs : Text.Trimmed s.toList ('0' :: mark :: rest)) (hmark : RadixMark radix mark) :
    (str s).toNumber.isNaN = false ↔ ∃ n, RadixWord radix rest n := by
  constructor
  · intro hnumber
    cases hread : readRadix? radix rest with
    | none =>
      have hnan : nan.isNaN = true := by decide
      rw [toNumber_of_radixMark hs hmark, hread] at hnumber
      exact absurd hnan (Bool.eq_false_iff.1 hnumber)
    | some n => exact ⟨n, (readRadix?_eq_some_iff hmark.radix_le).1 hread⟩
  · rintro ⟨n, hn⟩
    rw [toNumber_of_radixWord hs hmark hn]
    exact isNaN_of_unsigned (Decimal.unsigned_toFloat _)

/-- **Strings with a radix**: behind the prefix, a numeral of the radix below `2 ^ 64`, with or without a plus sign,
makes the string a number, the double nearest to it, and nothing else does. So the string is a number exactly if a
numeral follows the prefix, unless that numeral writes `2 ^ 64` or more, or a smaller one stands behind a plus sign. -/
theorem radix_number (hs : Text.Trimmed s.toList ('0' :: mark :: rest)) (hmark : RadixMark radix mark) :
    ((str s).toNumber.isNaN = false ↔ ∃ n, RadixWord radix rest n) ∧
    (∀ n, RadixWord radix rest n → (str s).toNumber = Decimal.toFloat ⟨n, 0⟩) ∧
    (((str s).toNumber.isNaN = false ↔ ∃ n, RadixNumeral radix rest n) ↔
      (∀ n, RadixNumeral radix rest n → n < 2 ^ 64) ∧
        ∀ ds n, rest = '+' :: ds → RadixNumeral radix ds n → 2 ^ 64 ≤ n) := by
  have hnumber := isNaN_toNumber_iff hs hmark
  refine ⟨hnumber, fun n hn => toNumber_of_radixWord hs hmark hn, ?_⟩
  rw [hnumber]
  exact radixWord_iff_numeral hmark.radix_le rest

end

/-- Blanks around the numeral, a sign, and letters of both cases. -/
theorem radix_number_signed : Text.Trimmed " 0X+Ff\n".toList "0X+Ff".toList ∧ RadixMark 16 'X' ∧
    RadixNumeral 16 "Ff".toList 255 ∧ (str " 0X+Ff\n").toNumber.isNaN = false ∧
    (str " 0X+Ff\n").toNumber = Decimal.toFloat ⟨255, 0⟩ := by
  have hs : Text.Trimmed " 0X+Ff\n".toList "0X+Ff".toList := Text.trim_eq_iff.1 (by decide)
  have hn : RadixNumeral 16 "Ff".toList 255 :=
    (radixNumeral_iff le_rfl).2 ⟨by decide, List.forall_iff_forall_mem.1 (by decide), by decide⟩
  have hword : RadixWord 16 "+Ff".toList 255 := ⟨_, .inr rfl, hn, by decide⟩
  obtain ⟨hnumber, hvalue, -⟩ := radix_number hs .hexUpper
  exact ⟨hs, .hexUpper, hn, hnumber.2 ⟨255, hword⟩, hvalue 255 hword⟩

/-- A sign before the digit is no part of a numeral, but the string is a number; `2 ^ 64` has a numeral, but the string
is none. -/
theorem radix_number_unlike_numeral :
    Text.Trimmed "0x+5".toList "0x+5".toList ∧ (str "0x+5").toNumber.isNaN = false ∧
    (¬ ∃ n, RadixNumeral 16 "+5".toList n) ∧
    Text.Trimmed "0x10000000000000000".toList "0x10000000000000000".toList ∧
    (str "0x10000000000000000").toNumber.isNaN = true ∧ RadixNumeral 16 "10000000000000000".toList (2 ^ 64) := by
  have hnumeral : RadixNumeral 16 "10000000000000000".toList (2 ^ 64) :=
    (radixNumeral_iff le_rfl).2 ⟨by decide, List.forall_iff_forall_mem.1 (by decide), by decide⟩
  refine ⟨Text.trim_eq_iff.1 (by decide), by decide +kernel, ?_, Text.trim_eq_iff.1 (by decide), by decide +kernel,
    hnumeral⟩
  rintro ⟨n, hn⟩
  exact not_radixNumeral_plus le_rfl _ n hn

end Value

end Stepwise
