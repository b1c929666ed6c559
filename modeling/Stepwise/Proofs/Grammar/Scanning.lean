import Stepwise.Proofs.Grammar.Lexeme
import Stepwise.Syntax.Render

/-!
# Scanning what was written

A lexeme that stands in front of other text is scanned as it was written, provided that the text does not continue it:

* a word in front of what is no word character (`anyWord_append`, `identifier_append`, `keyword_append`). It is the same
  to take the first word of a list that the text starts with and to look whether the word ends there
  (`keyword_eq_orderedWord`, and `Rule.definition_keywords` for the keywords of the grammar);
* a number in front of what is no word character, and no point unless the number has one (`number_append`);
* a string literal in front of anything; it stands for its string (`string_stringLiteral`, `body?_stringLiteral`,
  `unescape_escaped`).
-/

namespace Stepwise

/-- The text does not continue a word. -/
def Apart (rest : List Char) : Prop := rest.head?.any Scanner.isWordChar = false

theorem span_append {p : Char → Bool} {l rest : List Char} (hl : l.all p = true) (hrest : rest.head?.any p = false) :
    (l ++ rest).takeWhile p = l ∧ (l ++ rest).dropWhile p = rest := by
  have hall : ∀ c ∈ l, p c = true := List.all_eq_true.1 hl
  rw [List.takeWhile_append_of_pos hall, List.dropWhile_append_of_pos hall]
  cases rest with
  | nil => simp
  | cons c rest =>
    have hc : p c = false := hrest
    simp [hc]

theorem Scanner.digits_append_of_all {ds cs : List Char} (hds : ds.all Char.isDigit = true)
    (hcs : cs.head?.any Char.isDigit = false) : digits (ds ++ cs) = (ds, cs) := by
  obtain ⟨htake, hdrop⟩ := span_append hds hcs
  rw [digits, htake, hdrop]

theorem isWordChar_of_isDigit {c : Char} (h : c.isDigit = true) : Scanner.isWordChar c = true := by
  simp [Scanner.isWordChar, Char.isAlphanum, h]

theorem isWordStart_of_isDigit {c : Char} (h : c.isDigit = true) : Scanner.isWordStart c = false := by
  have hrange : 48 ≤ c.toNat ∧ c.toNat ≤ 57 := by simpa [Char.isDigit, UInt32.le_iff_toNat_le] using h
  have hne : ∀ d : Char, d.toNat < 48 ∨ 57 < d.toNat → c ≠ d := by
    rintro d hd rfl
    omega
  unfold Scanner.isWordStart Char.isAlpha Char.isUpper Char.isLower
  simp only [hne '_' (by decide), hne '$' (by decide)]
  simp [UInt32.le_iff_toNat_le]
  omega

/-- What does not continue a word does not continue digits. -/
theorem Apart.not_digit {rest : List Char} (h : Apart rest) : rest.head?.any Char.isDigit = false := by
  cases rest with
  | nil => rfl
  | cons c rest =>
    apply Bool.eq_false_iff.2
    intro hc
    have hword : Scanner.isWordChar c = true := isWordChar_of_isDigit hc
    exact absurd hword (Bool.eq_false_iff.1 h)

namespace Scanner

/-! ## Words -/

theorem word_append_apart {w rest : List Char} (hw : w.all isWordChar = true) (hrest : Apart rest) :
    word (w ++ rest) = (w, rest) := by
  obtain ⟨htake, hdrop⟩ := span_append hw hrest
  rw [word, htake, hdrop]

theorem anyWord_append {w rest : List Char} (hw : IsWord w) (hrest : Apart rest) :
    anyWord (w ++ rest) = some (w, rest) := by
  have hword := word_append_apart hw.2 hrest
  cases w with
  | nil => exact absurd hw.1 (by decide)
  | cons c w =>
    have hc : isWordStart c = true := hw.1
    rw [List.cons_append] at hword ⊢
    simp only [anyWord, hc, if_true, hword]

theorem keyword_append {words : List String} {w rest : List Char} (hw : w.all isWordChar = true) (hrest : Apart rest) :
    keyword words (w ++ rest) = if words.any (·.toList == w) then some (w, rest) else none := by
  simp only [keyword, word_append_apart hw hrest]

theorem IsIdentifier.ne {name : List Char} (h : IsIdentifier name) {w : String} (hw : w ∈ reserved) :
    w.toList ≠ name := by
  intro heq
  have hany : reserved.any (·.toList == name) = true := List.any_eq_true.2 ⟨w, hw, beq_iff_eq.2 heq⟩
  have hname := h.2
  rw [hany] at hname
  cases hname

theorem identifier_append {w rest : List Char} (hw : IsIdentifier w) (hrest : Apart rest) :
    identifier (w ++ rest) = some (w, rest) := by
  have hreserved : reserved.any (·.toList == w) = false := by simpa using hw.2
  simp only [identifier, keyword_append hw.1.2 hrest, hreserved]
  exact anyWord_append hw.1 hrest

theorem identifier_reserved {w : String} (hw : w ∈ reserved) {rest : List Char} (hrest : Apart rest) :
    identifier (w.toList ++ rest) = none := by
  have hall : ∀ w ∈ reserved, w.toList.all isWordChar = true := by decide
  have hany : reserved.any (·.toList == w.toList) = true := List.any_eq_true.2 ⟨w, hw, beq_self_eq_true _⟩
  rw [identifier, keyword_append (hall w hw) hrest, if_pos hany]

theorem keyword_eq_none {words : List String} {cs : List Char} (h : ∀ w ∈ words, w.toList ≠ (word cs).1) :
    keyword words cs = none := by
  show (if words.any (·.toList == (word cs).1) then some (word cs) else none) = none
  rw [if_neg]
  intro hany
  obtain ⟨w, hw, heq⟩ := List.any_eq_true.1 hany
  exact h w hw (eq_of_beq heq)

theorem word_ne_of_start {w : String} {c : Char} {cs : List Char} (hc : isWordStart c = false)
    (hw : w.toList.head?.any isWordStart = true) : w.toList ≠ (word (c :: cs)).1 := by
  intro heq
  simp only [word] at heq
  rw [heq, List.takeWhile_cons] at hw
  split at hw
  · exact absurd hw (Bool.eq_false_iff.1 hc)
  · cases hw

/-- A text that does not start like a word has no keyword at its start. -/
theorem keyword_eq_none_of_start {words : List String} {c : Char} {cs : List Char} (hc : isWordStart c = false)
    (hwords : ∀ w ∈ words, w.toList.head?.any isWordStart = true) : keyword words (c :: cs) = none :=
  keyword_eq_none fun w hw => word_ne_of_start hc (hwords w hw)

theorem identifier_eq_none {c : Char} {cs : List Char} (hc : isWordStart c = false) : identifier (c :: cs) = none := by
  unfold identifier
  split
  · rfl
  · simp [anyWord, hc]

/-! ## Words in the order of a list -/

/-- The first word of a list that the text starts with, if no word character follows it. The words after it in the list
are not tried. -/
def orderedWord (words : List String) : Scanner := fun cs =>
  match plain words cs with
  | some (w, rest) => if rest.head?.any isWordChar then none else some (w, rest)
  | none => none

section Ordered

variable {v : String} {words : List String} {cs rest : List Char}

theorem plain_cons_of_prefix (h : v.toList.isPrefixOf? cs = some rest) :
    plain (v :: words) cs = some (v.toList, rest) := by
  have hsymbol : symbol v [] cs = some (v.toList, rest) := by
    unfold symbol
    rw [h]
    cases rest <;> simp
  show orElse (symbol v []) (plain words) cs = _
  rw [orElse, hsymbol]

theorem plain_cons_of_not_prefix (h : v.toList.isPrefixOf? cs = none) : plain (v :: words) cs = plain words cs := by
  have hsymbol : symbol v [] cs = none := by
    unfold symbol
    rw [h]
  show orElse (symbol v []) (plain words) cs = _
  rw [orElse, hsymbol]

theorem keyword_cons_of_ne (h : v.toList ≠ (word cs).1) : keyword (v :: words) cs = keyword words cs := by
  have hne : (v.toList == (word cs).1) = false := beq_eq_false_iff_ne.2 h
  unfold keyword
  simp [hne]

/-- **Keywords**: if no word of a list begins with an earlier one, the first that the text starts with is the only one
that can be a whole word of it. -/
theorem keyword_eq_orderedWord (hall : ∀ w ∈ words, w.toList.all isWordChar = true)
    (hfree : words.Pairwise fun v w => ¬ v.toList <+: w.toList) : keyword words = orderedWord words := by
  funext cs
  induction words with
  | nil => rfl
  | cons v words ih =>
    obtain ⟨hv, hwords⟩ := List.forall_mem_cons.1 hall
    obtain ⟨hv', hfree⟩ := List.pairwise_cons.1 hfree
    cases hpre : v.toList.isPrefixOf? cs with
    | none =>
      have hne : v.toList ≠ (word cs).1 := by
        intro heq
        have hsome : (v.toList.isPrefixOf? cs).isSome = true := by
          rw [List.isSome_isPrefixOf?_eq_isPrefixOf, List.isPrefixOf_iff_prefix, heq]
          exact ⟨_, (word_append cs).symm⟩
        rw [hpre] at hsome
        cases hsome
      rw [keyword_cons_of_ne hne, ih hwords hfree, orderedWord, orderedWord, plain_cons_of_not_prefix hpre]
    | some rest =>
      obtain rfl : v.toList ++ rest = cs := List.append_eq_of_isPrefixOf?_eq_some hpre
      rw [orderedWord, plain_cons_of_prefix hpre]
      dsimp only
      cases hrest : rest.head?.any isWordChar with
      | false =>
        rw [keyword_append hv hrest]
        simp
      | true =>
        -- The word goes on, so `v` is a proper beginning of it, and no later word of the list is.
        have hword : (word (v.toList ++ rest)).1 = v.toList ++ rest.takeWhile isWordChar :=
          List.takeWhile_append_of_pos (List.all_eq_true.1 hv)
        have hmore : rest.takeWhile isWordChar ≠ [] := by
          cases rest with
          | nil => cases hrest
          | cons c rest =>
            have hc : isWordChar c = true := hrest
            simp [hc]
        refine keyword_eq_none fun w hw heq => ?_
        rw [hword] at heq
        rcases List.mem_cons.1 hw with rfl | hw
        · exact hmore (List.self_eq_append_right.1 heq)
        · exact hv' w hw ⟨_, heq.symm⟩

end Ordered

/-- Reserved words may be looked for in the order of their list. -/
theorem keyword_reserved : keyword reserved = orderedWord reserved :=
  keyword_eq_orderedWord (by decide) (by decide)

theorem identifier_eq_orderedWord (cs : List Char) :
    identifier cs = if (orderedWord reserved cs).isSome then none else anyWord cs := by
  rw [identifier, keyword_reserved]
  cases orderedWord reserved cs <;> rfl

/-! ## Numbers -/

theorem digits_append_apart {cs rest : List Char} (hrest : Apart rest) :
    digits (cs ++ rest) = ((digits cs).1, (digits cs).2 ++ rest) := by
  induction cs with
  | nil =>
    obtain ⟨htake, hdrop⟩ := span_append (l := []) rfl hrest.not_digit
    rw [List.nil_append] at htake hdrop
    simp [digits, htake, hdrop]
  | cons c cs ih =>
    simp only [digits, Prod.mk.injEq] at ih
    by_cases hc : c.isDigit = true <;> simp [digits, hc, ih]

theorem exponent_append_apart {cs rest : List Char} (h : (exponent cs).2 = []) (hrest : Apart rest) :
    exponent (cs ++ rest) = (cs, rest) := by
  rcases exponent_cases cs with hnone | ⟨e, sign, after, rfl, he, hs, hne⟩
  · rw [hnone] at h
    obtain rfl : cs = [] := h
    refine exponent_of_ne ?_
    cases rest with
    | nil => rfl
    | cons c rest =>
      have hc : isWordChar c = false := hrest
      refine Bool.eq_false_iff.2 fun hmark => ?_
      simp only [List.nil_append, List.head?_cons, Option.any_some, isExponentMark, Bool.or_eq_true,
        decide_eq_true_eq] at hmark
      rcases hmark with rfl | rfl <;> cases hc
  · rw [exponent_of_digits he hs hne] at h
    have hall : after = (digits after).1 := by
      have hcut := digits_append after
      rwa [show (digits after).2 = [] from h, List.append_nil] at hcut
    have hdigits : digits (after ++ rest) = ((digits after).1, rest) := by
      rw [digits_append_apart hrest, show (digits after).2 = [] from h, List.nil_append]
    have hnext : (digits (after ++ rest)).1 ≠ [] := by rwa [hdigits]
    have hjoin := exponent_of_digits he hs hnext
    rw [hdigits, ← hall] at hjoin
    rwa [List.cons_append, List.append_assoc]

theorem number_append {text rest : List Char} (h : number text = some (text, [])) (hrest : Apart rest)
    (hpoint : rest.head? = some '.' → text.all Char.isDigit = false) : number (text ++ rest) = some (text, rest) := by
  have hdigits : digits (text ++ rest) = ((digits text).1, (digits text).2 ++ rest) := digits_append_apart hrest
  rcases number_cases h with ⟨whole, tail, hd, hne, htext, hend⟩ | ⟨whole, tail, hd, hp, hne, htext, hend⟩
  · have hexp := exponent_append (digits tail).2
    rw [← hend, List.append_nil] at hexp
    rw [hd, List.cons_append] at hdigits
    rw [number_of_point hdigits, digits_append_apart hrest, if_neg hne, exponent_append_apart hend.symm hrest, hexp,
      ← htext]
  · have hexp := exponent_append tail
    rw [← hend, List.append_nil] at hexp
    rw [hd] at hdigits
    have hnext : (tail ++ rest).head? ≠ some '.' := by
      cases tail with
      | cons c tail => exact hp
      | nil =>
        intro hdot
        have hall : text.all Char.isDigit = true := by
          rw [htext, ← hexp, List.append_nil, ← show (digits text).1 = whole by rw [hd]]
          exact List.all_takeWhile
        rw [hpoint hdot] at hall
        cases hall
    rw [number_of_no_point hdigits hnext, if_neg hne, exponent_append_apart hend.symm hrest, hexp, ← htext]

theorem number_eq_none {c : Char} (hdigit : c.isDigit = false) (hpoint : c ≠ '.') (cs : List Char) :
    number (c :: cs) = none := by
  cases h : number (c :: cs) with
  | none => rfl
  | some found =>
    rcases number_head h with hc | hc
    · rw [hdigit] at hc
      cases hc
    · exact absurd hc hpoint

/-! ## Strings -/

theorem string_eq_none {c : Char} (hdouble : c ≠ '"') (hsingle : c ≠ '\'') (cs : List Char) :
    string (c :: cs) = none := by
  rw [string, if_neg (not_or.2 ⟨hdouble, hsingle⟩)]

/-- The body of the literal of a string. -/
def escaped (cs : List Char) : List Char := cs.flatMap fun c => if c = '\\' ∨ c = '"' then ['\\', c] else [c]

theorem stringLiteral_eq (s : String) : stringLiteral s = '"' :: escaped s.toList ++ ['"'] := rfl

theorem escaped_cons (c : Char) (cs : List Char) :
    escaped (c :: cs) = (if c = '\\' ∨ c = '"' then ['\\', c] else [c]) ++ escaped cs := List.flatMap_cons

theorem stringBody_escaped {cs : List Char} (h : '\n' ∉ cs) (rest : List Char) :
    stringBody '"' (escaped cs ++ '"' :: rest) = (escaped cs, '"' :: rest) := by
  induction cs with
  | nil => simp [escaped, stringBody]
  | cons c cs ih =>
    obtain ⟨hc, hcs⟩ := not_or.1 (mt List.mem_cons.2 h)
    rw [escaped_cons]
    by_cases hesc : c = '\\' ∨ c = '"'
    · rw [if_pos hesc]
      simp only [List.cons_append, List.nil_append, stringBody, ih hcs]
    · rw [if_neg hesc]
      obtain ⟨hslash, hquote⟩ := not_or.1 hesc
      have hstop : ¬ (c = '"' ∨ c = '\n') := not_or.2 ⟨hquote, fun he => hc he.symm⟩
      simp [stringBody, hslash, hstop, ih hcs]

/-- A string literal is scanned whole, whatever follows it. -/
theorem string_stringLiteral {s : String} (h : '\n' ∉ s.toList) (rest : List Char) :
    string (stringLiteral s ++ rest) = some (stringLiteral s, rest) := by
  simp [stringLiteral_eq, string, stringBody_escaped h]

theorem unescape_escaped (cs : List Char) : unescape (escaped cs) = cs := by
  induction cs with
  | nil => rfl
  | cons c cs ih =>
    rw [escaped_cons]
    by_cases hesc : c = '\\' ∨ c = '"'
    · rw [if_pos hesc]
      rcases hesc with rfl | rfl <;> simp [unescape, ih]
    · rw [if_neg hesc]
      simp [unescape, (not_or.1 hesc).1, ih]

/-- The body of a literal is the string with its escapes. -/
theorem body?_stringLiteral (s : String) : body? (stringLiteral s) = some (escaped s.toList) := by
  rw [stringLiteral_eq, List.cons_append]
  cases hbody : escaped s.toList with
  | nil => rfl
  | cons c cs => rw [List.cons_append, body?, ← List.cons_append, List.dropLast_concat]

end Scanner

/-! ## Keywords of the grammar -/

/-- The words of a rule for keywords, in the order of the grammar. -/
def Rule.keywords : Rule → List String
  | varKind => ["const", "let", "var"]
  | kwIf => ["if"]
  | kwElse => ["else"]
  | kwFor => ["for"]
  | kwWhile => ["while"]
  | kwBreak => ["break"]
  | kwContinue => ["continue"]
  | kwReturn => ["return"]
  | kwFunction => ["function"]
  | boolean => ["true", "false"]
  | nullLit => ["null"]
  | _ => []

/-- **Rules for keywords** try their words in order and look ahead for the end of the word. -/
theorem Rule.definition_keywords {r : Rule} (h : r.keywords ≠ []) :
    r.definition = .token (Scanner.orderedWord r.keywords) := by
  have hordered : Scanner.keyword r.keywords = Scanner.orderedWord r.keywords :=
    Scanner.keyword_eq_orderedWord (by cases r <;> decide) (by cases r <;> decide)
  rw [← hordered]
  cases r <;> first | rfl | exact absurd rfl h

theorem Scanner.unaryOp_eq_orderedWord : Scanner.unaryOp = Scanner.firstOf [Scanner.symbol "!" ['='],
    Scanner.symbol "-" ['-'], Scanner.symbol "+" ['+'], Scanner.orderedWord ["typeof"]] := by
  rw [← Scanner.keyword_eq_orderedWord (by decide) (by decide)]
  rfl

end Stepwise
