import Stepwise.Proofs.Grammar.Parts
import Stepwise.Proofs.Grammar.Relayout

/-!
# Texts that cannot be read to their end

A text is broken if, cut into words, numbers, strings and single other characters, it comes to a place where no
expression goes on: a string that is not closed, or a number with a word right behind it (`Broken`).

* **tokens**: every scanner cuts a broken text where it is cut anyway, so what follows is broken (`Scanner.Keeps`). Only
  behind the number before a word it is not; there the word follows (`Rule.scan_leaves`).
* **patterns**: where a part of a pattern may end with a number, nothing behind it starts with a word
  (`Pattern.sparesWords`). So a pattern of the rules of expressions ends in a broken text or before that word, and never
  at the end of the text (`Pattern.aligned`, `Pattern.find_leaves`).

**`Rule.find_leaves`**: what a rule of expressions leaves of a broken text is not empty.
-/

namespace Stepwise

open Layout (isBlank opens)

/-! ## Broken texts -/

/-- Operators, brackets and blanks, which are cut one by one. Braces do not occur. -/
def isDelimiter (c : Char) : Bool := ! Scanner.isWordChar c && ! ['.', '"', '\'', '\x7b'].contains c

/-- Characters of no word, number or string, but for the point that may start a number. -/
def isPunctuation (c : Char) : Bool := ! Scanner.isWordChar c && c != '"'

theorem isPunctuation_iff {c : Char} : isPunctuation c = true ↔ Scanner.isWordChar c = false ∧ c ≠ '"' := by
  simp [isPunctuation]

/-- A word starts here. -/
def WordAhead (cs : List Char) : Prop := cs.head?.any Scanner.isWordStart = true

/-- The text comes to an unclosed string, or to a number and a word without anything between them. -/
inductive Broken : List Char → Prop where
  | unclosed {cs : List Char} (h : Scanner.string ('"' :: cs) = none) : Broken ('"' :: cs)
  | joined {c : Char} {cs l rest : List Char} (hc : c.isDigit = true) (hn : Scanner.number (c :: cs) = some (l, rest))
      (h : WordAhead rest) : Broken (c :: cs)
  | delimiter {c : Char} {cs : List Char} (hc : isDelimiter c = true) (ho : opens (c :: cs) = false) (h : Broken cs) :
      Broken (c :: cs)
  | point {cs : List Char} (hd : cs.head?.any Char.isDigit = false) (h : Broken cs) : Broken ('.' :: cs)
  | word {c : Char} {cs : List Char} (hc : Scanner.isWordStart c = true) (h : Broken (Scanner.word (c :: cs)).2) :
      Broken (c :: cs)
  | number {c : Char} {cs l rest : List Char} (hc : c.isDigit = true) (hn : Scanner.number (c :: cs) = some (l, rest))
      (h : Broken rest) : Broken (c :: cs)
  | string {cs l rest : List Char} (hs : Scanner.string ('"' :: cs) = some (l, rest)) (h : Broken rest) :
      Broken ('"' :: cs)

/-- A point alone is no number. -/
theorem Scanner.number_point_eq_none {cs : List Char} (h : cs.head?.any Char.isDigit = false) :
    number ('.' :: cs) = none := by
  have hpart : digits cs = ([], cs) := digits_append_of_all List.all_nil h
  have hpoint : digits ('.' :: cs) = ([], '.' :: cs) := rfl
  simp only [number, hpoint, hpart]

theorem isWordChar_of_isBlank {c : Char} (h : isBlank c = true) : Scanner.isWordChar c = false := by
  simp only [isBlank, Bool.or_eq_true, decide_eq_true_eq] at h
  rcases h with ((rfl | rfl) | rfl) | rfl <;> rfl

theorem opens_of_ne_slash {c : Char} (h : c ≠ '/') (cs : List Char) : opens (c :: cs) = false := by
  unfold opens
  split
  · next heq => cases heq; exact absurd rfl h
  · next heq => cases heq; exact absurd rfl h
  · rfl

theorem opens_of_isWordChar {c : Char} (h : Scanner.isWordChar c = true) (cs : List Char) : opens (c :: cs) = false :=
  opens_of_ne_slash (by rintro rfl; cases h) cs

theorem Scanner.string_eq_none_of_wordChar {c : Char} (h : isWordChar c = true) (cs : List Char) :
    string (c :: cs) = none :=
  string_eq_none (by rintro rfl; cases h) (by rintro rfl; cases h) cs

namespace Broken

variable {c : Char} {cs l rest : List Char}

theorem ne_nil (h : Broken cs) : cs ≠ [] := by
  cases h <;> exact List.cons_ne_nil _ _

theorem isDelimiter_iff : isDelimiter c = true ↔
    Scanner.isWordChar c = false ∧ c ≠ '.' ∧ c ≠ '"' ∧ c ≠ '\'' ∧ c ≠ '\x7b' := by
  simp [isDelimiter]

/-- No comment stands in front. -/
theorem opens_eq_false (h : Broken cs) : opens cs = false := by
  cases h with
  | unclosed _ | string _ _ | point _ _ => rfl
  | joined hc _ _ | number hc _ _ => exact opens_of_isWordChar (isWordChar_of_isDigit hc) _
  | word hc _ => exact opens_of_isWordChar (Scanner.isWordChar_of_start hc) _
  | delimiter _ ho _ => exact ho

/-- Behind a character that belongs to no word, number or string. -/
theorem tail (h : Broken (c :: cs)) (hc : Scanner.isWordChar c = false) (hq : c ≠ '"') : Broken cs := by
  cases h with
  | unclosed _ | string _ _ => exact absurd rfl hq
  | joined hd _ _ | number hd _ _ => rw [isWordChar_of_isDigit hd] at hc; cases hc
  | word hs _ => rw [Scanner.isWordChar_of_start hs] at hc; cases hc
  | delimiter _ _ h | point _ h => exact h

/-- No brace stands in front. -/
theorem not_brace (h : Broken ('\x7b' :: cs)) : False := by
  cases h with
  | delimiter hc _ _ => cases hc
  | joined hc _ _ | number hc _ _ | word hc _ => cases hc

theorem of_word (h : Broken cs) (hw : WordAhead cs) : Broken (Scanner.word cs).2 := by
  cases h with
  | unclosed _ | string _ _ | point _ _ => cases hw
  | joined hc _ _ | number hc _ _ =>
    have hstart : Scanner.isWordStart _ = true := hw
    rw [isWordStart_of_isDigit hc] at hstart
    cases hstart
  | delimiter hc _ _ =>
    have hword := Scanner.isWordChar_of_start hw
    rw [(isDelimiter_iff.1 hc).1] at hword
    cases hword
  | word _ h => exact h

theorem of_number (h : Broken cs) (hn : Scanner.number cs = some (l, rest)) : Broken rest ∨ WordAhead rest := by
  cases h with
  | joined _ hn' h => cases hn.symm.trans hn'; exact .inr h
  | number _ hn' h => cases hn.symm.trans hn'; exact .inl h
  | unclosed _ | string _ _ => rcases Scanner.number_head hn with hc | hc <;> cases hc
  | delimiter hc _ _ =>
    obtain ⟨hword, hpoint, -⟩ := isDelimiter_iff.1 hc
    rcases Scanner.number_head hn with hd | hd
    · rw [isWordChar_of_isDigit hd] at hword; cases hword
    · exact absurd hd hpoint
  | word hc _ =>
    rcases Scanner.number_head hn with hd | rfl
    · rw [isWordStart_of_isDigit hd] at hc; cases hc
    · cases hc
  | point hd _ =>
    rw [Scanner.number_point_eq_none hd] at hn
    cases hn

theorem of_string (h : Broken cs) (hs : Scanner.string cs = some (l, rest)) : Broken rest := by
  cases h with
  | unclosed hn => rw [hn] at hs; cases hs
  | string hs' h => cases hs.symm.trans hs'; exact h
  | joined hc _ _ | number hc _ _ => rw [Scanner.string_eq_none_of_wordChar (isWordChar_of_isDigit hc)] at hs; cases hs
  | word hc _ => rw [Scanner.string_eq_none_of_wordChar (Scanner.isWordChar_of_start hc)] at hs; cases hs
  | delimiter hc _ _ =>
    obtain ⟨-, -, hdouble, hsingle, -⟩ := isDelimiter_iff.1 hc
    rw [Scanner.string_eq_none hdouble hsingle] at hs
    cases hs
  | point _ _ => cases hs

/-- Layout leaves a broken text. -/
theorem skipped (h : Broken cs) : Broken (skipped cs) := by
  induction cs with
  | nil => exact absurd rfl h.ne_nil
  | cons c cs ih =>
    by_cases hc : isBlank c = true
    · rw [skipped_blank hc]
      exact ih (h.tail (isWordChar_of_isBlank hc) (by rintro rfl; cases hc))
    · rw [skipped_of_opens (Bool.eq_false_iff.2 hc) h.opens_eq_false]
      exact h

/-- Behind characters that belong to no word, number or string. -/
theorem drop (h : Broken (l ++ rest)) (hl : l.all isPunctuation = true) : Broken rest := by
  induction l with
  | nil => exact h
  | cons c l ih =>
    obtain ⟨hc, hl⟩ := Bool.and_eq_true_iff.1 (List.all_cons.symm.trans hl)
    obtain ⟨hword, hquote⟩ := isPunctuation_iff.1 hc
    exact ih (h.tail hword hquote) hl

end Broken

theorem WordAhead.ne_nil {cs : List Char} (h : WordAhead cs) : cs ≠ [] := by
  rintro rfl
  cases h

theorem WordAhead.skipped {cs : List Char} (h : WordAhead cs) : skipped cs = cs := by
  cases cs with
  | nil => rfl
  | cons c cs =>
    have hword := Scanner.isWordChar_of_start h
    refine skipped_of_opens (Bool.eq_false_iff.2 fun hblank => ?_) (opens_of_isWordChar hword cs)
    rw [isWordChar_of_isBlank hblank] at hword
    cases hword

/-- Punctuation does not start with a word. -/
theorem WordAhead.not_punctuation {l rest : List Char} (h : WordAhead (l ++ rest)) (hne : l ≠ []) :
    l.all isPunctuation = false := by
  cases l with
  | nil => exact absurd rfl hne
  | cons c l =>
    have hword : Scanner.isWordChar c = true := Scanner.isWordChar_of_start h
    simp [isPunctuation, hword]

/-! ## Tokens -/

namespace Scanner

/-- What follows a lexeme of a broken text is broken. -/
def Keeps (scan : Scanner) : Prop := ∀ cs l rest, Broken cs → scan cs = some (l, rest) → Broken rest

theorem Keeps.orElse {a b : Scanner} (ha : a.Keeps) (hb : b.Keeps) : (orElse a b).Keeps := by
  intro cs l rest h hs
  unfold Scanner.orElse at hs
  split at hs
  · next r hr => cases hs; exact ha _ _ _ h hr
  · exact hb _ _ _ h hs

theorem Yields.keeps {scan : Scanner} {lexemes : List String} (hy : scan.Yields lexemes) (hd : scan.Divides)
    (hl : ∀ s ∈ lexemes, s.toList.all isPunctuation = true) : scan.Keeps := by
  intro cs l rest h hs
  have hmarks := hl _ (hy _ _ _ hs)
  rw [String.toList_ofList] at hmarks
  rw [(hd _ _ _ hs).1] at h
  exact h.drop hmarks

theorem Yields.eq_none_of_word {scan : Scanner} {lexemes : List String} (hy : scan.Yields lexemes) (hd : scan.Divides)
    (hl : ∀ s ∈ lexemes, s.toList.all isPunctuation = true) {cs : List Char} (h : WordAhead cs) : scan cs = none := by
  cases hs : scan cs with
  | none => rfl
  | some found =>
    obtain ⟨hcut, hne⟩ := hd _ _ _ hs
    have hmarks := hl _ (hy _ _ _ hs)
    rw [String.toList_ofList] at hmarks
    rw [hcut] at h
    rw [h.not_punctuation hne] at hmarks
    cases hmarks

theorem keeps_symbol {s : String} (notBefore : List Char) (hne : s.toList ≠ []) (hs : s.toList.all isPunctuation = true) :
    (symbol s notBefore).Keeps :=
  (yields_symbol s notBefore).keeps (divides_symbol hne) (by simpa using hs)

theorem keeps_keyword {words : List String} (hw : ∀ w ∈ words, w.toList.head?.any isWordStart = true) :
    (keyword words).Keeps := by
  intro cs l rest h hs
  have hmem := yields_keyword words _ _ _ hs
  have hstart := hw _ hmem
  have hne : ∀ w ∈ words, w.toList ≠ [] := by
    intro w hmem hnil
    have hstart := hw w hmem
    rw [hnil] at hstart
    cases hstart
  obtain ⟨hcut, -⟩ := divides_keyword hne _ _ _ hs
  have hahead : WordAhead cs := by
    rw [String.toList_ofList] at hstart
    cases l with
    | nil => cases hstart
    | cons c l => rw [hcut]; exact hstart
  have hrest : rest = (word cs).2 := by
    unfold keyword at hs
    split at hs
    next w r hr =>
    split at hs
    · cases hs; rw [hr]
    · cases hs
  exact hrest ▸ h.of_word hahead

theorem keeps_anyWord : anyWord.Keeps := by
  intro cs l rest h hs
  cases cs with
  | nil => cases hs
  | cons c cs =>
    simp only [anyWord] at hs
    split at hs
    · next hc =>
      have hrest : (word (c :: cs)).2 = rest := congrArg Prod.snd (Option.some.inj hs)
      exact hrest ▸ h.of_word hc
    · cases hs

theorem keeps_identifier : identifier.Keeps := by
  intro cs l rest h hs
  unfold identifier at hs
  split at hs
  · cases hs
  · exact keeps_anyWord _ _ _ h hs

theorem keeps_unaryOp : unaryOp.Keeps :=
  (keeps_symbol _ (by decide) (by decide)).orElse <| (keeps_symbol _ (by decide) (by decide)).orElse <|
    (keeps_symbol _ (by decide) (by decide)).orElse <| (keeps_keyword (by decide)).orElse fun _ _ _ _ hs => by cases hs

end Scanner

namespace Rule

/-- The operators that stand behind an operand. -/
def isOperator : Rule → Bool
  | assignOp | opOr | opAnd | opEquality | opComparison | opAdditive | opMultiplicative | opUpdate => true
  | _ => false

/-- Operators are punctuation. -/
theorem operator_yields {r : Rule} {scan : Scanner} (hr : r.isOperator = true) (h : r.definition = .token scan) :
    ∃ lexemes, scan.Yields lexemes ∧ ∀ s ∈ lexemes, s.toList.all isPunctuation = true := by
  cases r <;> cases hr <;> cases h
  case assignOp => exact ⟨_, (Scanner.yields_plain _).orElse (Scanner.yields_symbol _ _), by decide⟩
  case opOr | opAnd => exact ⟨_, Scanner.yields_symbol _ _, by decide⟩
  case opEquality | opComparison | opUpdate => exact ⟨_, Scanner.yields_plain _, by decide⟩
  case opAdditive => exact ⟨_, (Scanner.yields_symbol _ _).orElse (Scanner.yields_symbol _ _), by decide⟩
  case opMultiplicative => exact ⟨_, Scanner.yields_multiplicativeOp, by decide⟩

theorem operator_keeps {r : Rule} {scan : Scanner} (hr : r.isOperator = true) (h : r.definition = .token scan) :
    scan.Keeps := by
  obtain ⟨lexemes, hyields, hmarks⟩ := operator_yields hr h
  exact hyields.keeps (scan_divides (by rintro rfl; cases hr) h) hmarks

/-- No operator is found where a word starts. -/
theorem operator_eq_none {r : Rule} {scan : Scanner} (hr : r.isOperator = true) (h : r.definition = .token scan)
    {cs : List Char} (hcs : WordAhead cs) : scan cs = none := by
  obtain ⟨lexemes, hyields, hmarks⟩ := operator_yields hr h
  exact hyields.eq_none_of_word (scan_divides (by rintro rfl; cases hr) h) hmarks hcs

/-- Of the rules of expressions, the tokens other than numbers end where a broken text is broken; a phrase may end with
a number. -/
def mayStall (r : Rule) : Bool :=
  match r.definition with
  | .token _ => r = number
  | .phrase _ => true

/-- The rules that find nothing where a word starts, because they start with punctuation. -/
def sparesWords : Rule → Bool
  | accessor | callSuffix | computedAccess | staticAccess | block => true
  | r => r.isOperator

/-- The rules that expressions are made of. -/
def inExpression : Rule → Bool
  | identifier | propertyName | kwFunction | number | string | boolean | nullLit | block | paramList | exprStmt
  | expression | assignment | assignExpr | arrowFunction | arrowParams | arrowBody | ternaryExpr | logicalOrExpr
  | logicalAndExpr | equalityExpr | comparisonExpr | additiveExpr | multiplicativeExpr | unaryExpr | opUnary
  | updateBefore | updateAfter | callExpr | accessor | callSuffix | argList | staticAccess | computedAccess | primary
  | literal | parenExpr | functionExpr | arrayLit | objectLit => true
  | r => r.isOperator

end Rule

/-! ## Patterns -/

namespace Pattern

/-- A match may end with a number. -/
def mayStall : Pattern → Bool
  | text _ => false
  | rule r => r.mayStall
  | seq p q | alt p q => p.mayStall || q.mayStall
  | opt p | star p => p.mayStall

/-- A match takes nothing where a word starts. -/
def sparesWords : Pattern → Bool
  | text s => s.toList.all isPunctuation
  | rule r => r.sparesWords
  | seq p q => p.sparesWords && (! p.mayBeEmpty || q.sparesWords)
  | alt p q => p.sparesWords && q.sparesWords
  | opt p | star p => p.sparesWords

/-- The pattern is an opening brace. -/
def isBrace : Pattern → Bool
  | text s => s.toList.head? = some '\x7b'
  | _ => false

/-- Behind everything that may end with a number, no word is taken. What stands in braces does not matter. -/
def aligned : Pattern → Bool
  | text s => s.toList.all isPunctuation
  | rule r => r.inExpression
  | seq p q => p.isBrace || (p.aligned && q.aligned && (! p.mayStall || q.sparesWords))
  | alt p q => p.aligned && q.aligned
  | opt p => p.aligned
  | star p => p.aligned && (! p.mayStall || p.sparesWords)

end Pattern

theorem Rule.phrase_sparesWords {r : Rule} {p : Pattern} (h : r.definition = .phrase p) (hr : r.sparesWords = true) :
    p.sparesWords = true := by
  cases r <;> cases h <;> first | rfl | cases hr

theorem Rule.phrase_aligned {r : Rule} {p : Pattern} (h : r.definition = .phrase p) (hr : r.inExpression = true) :
    p.aligned = true := by
  cases r <;> cases h <;> first | rfl | cases hr

/-- The match leaves a place before a word as it is. -/
def Spares (find : Cursor → Found) : Prop := ∀ c ts d, WordAhead c.rest → find c = some (ts, d) → d.rest = c.rest

/-- A broken text, or one that starts with the word behind a number. -/
def Unfinished (mayStall : Bool) (cs : List Char) : Prop := Broken cs ∨ mayStall = true ∧ WordAhead cs

/-- The match leaves an unfinished text of a broken one. -/
def Leaves (mayStall : Bool) (find : Cursor → Found) : Prop :=
  ∀ c ts d, Broken c.rest → find c = some (ts, d) → Unfinished mayStall d.rest

theorem Unfinished.mono {a b : Bool} {cs : List Char} (h : Unfinished a cs) (hab : a = true → b = true) :
    Unfinished b cs := h.imp id (And.imp_left hab)

theorem Unfinished.skipped_ne_nil {a : Bool} {cs : List Char} (h : Unfinished a cs) : skipped cs ≠ [] := by
  rcases h with h | ⟨-, h⟩
  · exact h.skipped.ne_nil
  · rw [h.skipped]
    exact h.ne_nil

section

variable {call : Rule → Cursor → Found}

theorem repeatFind_spares {step : Cursor → Found} (h : Spares step) (fuel : Nat) {c : Cursor} (hc : WordAhead c.rest) :
    (repeatFind step fuel c).2.rest = c.rest := by
  induction fuel generalizing c with
  | zero => rfl
  | succ fuel ih =>
    rw [repeatFind]
    split
    · rfl
    · next r hr =>
      have hskip : c.skip.rest = c.rest := hc.skipped
      have hstep := h _ _ _ (hskip ▸ hc) hr
      rw [hskip] at hstep
      rw [ih (hstep ▸ hc), hstep]

theorem Pattern.find_spares (hs : ∀ r, Shortens r.mayBeEmpty (call r)) (h : ∀ r, r.sparesWords = true → Spares (call r))
    (p : Pattern) (hp : p.sparesWords = true) : Spares (p.find call) := by
  induction p with
  | text s =>
    intro c ts d hc hd
    obtain ⟨d, hd, heq⟩ := Option.map_eq_some_iff.1 hd
    cases heq
    obtain ⟨hrest, -⟩ := Cursor.eat?_eq_some hd
    by_cases hne : s.toList = []
    · rw [hrest, hne, List.nil_append]
    · rw [hrest] at hc
      rw [sparesWords, hc.not_punctuation hne] at hp
      cases hp
  | rule r => exact h r hp
  | seq p q ihp ihq =>
    intro c ts d hc hd
    obtain ⟨r, hr, hd⟩ := Option.bind_eq_some_iff.1 hd
    obtain ⟨s, hq, heq⟩ := Option.map_eq_some_iff.1 hd
    cases heq
    obtain ⟨hpw, hqw⟩ := Bool.and_eq_true_iff.1 hp
    have hsame := ihp hpw _ _ _ hc hr
    rcases Bool.or_eq_true_iff.1 hqw with hempty | hqw
    · -- a part that takes nothing may be empty
      have hlt := (find_shortens hs p _ _ _ hr).2 (by simpa using hempty)
      rw [hsame] at hlt
      exact absurd hlt (Nat.lt_irrefl _)
    · have hskip : r.2.skip.rest = c.rest := by
        rw [Cursor.skip_rest, hsame]
        exact hc.skipped
      exact (ihq hqw _ _ _ (hskip ▸ hc) hq).trans hskip
  | alt p q ihp ihq =>
    intro c ts d hc hd
    obtain ⟨hpw, hqw⟩ := Bool.and_eq_true_iff.1 hp
    rcases Option.or_eq_some_iff.1 hd with hd | ⟨-, hd⟩
    · exact ihp hpw _ _ _ hc hd
    · exact ihq hqw _ _ _ hc hd
  | opt p ih =>
    intro c ts d hc hd
    rcases Option.or_eq_some_iff.1 hd with hd | ⟨-, hd⟩
    · exact ih hp _ _ _ hc hd
    · cases hd; rfl
  | star p ih =>
    intro c ts d hc hd
    rcases Option.or_eq_some_iff.1 hd with hd | ⟨-, hd⟩
    · obtain ⟨r, hr, heq⟩ := Option.map_eq_some_iff.1 hd
      cases heq
      have hsame := ih hp _ _ _ hc hr
      rw [repeatFind_spares (ih hp) _ (hsame ▸ hc), hsame]
    · cases hd; rfl

/-- A broken text starts with no brace. -/
theorem Pattern.find_brace {p : Pattern} (hp : p.isBrace = true) {c : Cursor} (hc : Broken c.rest) :
    p.find call c = none := by
  cases hd : p.find call c with
  | none => rfl
  | some found =>
    cases p with
    | text s =>
      obtain ⟨d, hd, -⟩ := Option.map_eq_some_iff.1 hd
      obtain ⟨hrest, -⟩ := Cursor.eat?_eq_some hd
      cases hs : s.toList with
      | nil => simp [isBrace, hs] at hp
      | cons x l =>
        have hx : x = '\x7b' := by simpa [isBrace, hs] using hp
        rw [hrest, hs, hx] at hc
        exact hc.not_brace.elim
    | _ => cases hp

theorem repeatFind_leaves {step : Cursor → Found} {mayStall : Bool} (h : Leaves mayStall step)
    (hspares : mayStall = true → Spares step) (fuel : Nat) {c : Cursor} (hc : Unfinished mayStall c.rest) :
    Unfinished mayStall (repeatFind step fuel c).2.rest := by
  induction fuel generalizing c with
  | zero => exact hc
  | succ fuel ih =>
    rw [repeatFind]
    split
    · exact hc
    · next r hr =>
      refine ih ?_
      rcases hc with hc | ⟨hstall, hc⟩
      · exact h _ _ _ hc.skipped hr
      · have hskip : c.skip.rest = c.rest := hc.skipped
        have hsame := hspares hstall _ _ _ (hskip ▸ hc) hr
        rw [hsame, hskip]
        exact .inr ⟨hstall, hc⟩

theorem Pattern.find_leaves (hs : ∀ r, Shortens r.mayBeEmpty (call r))
    (hspares : ∀ r, r.sparesWords = true → Spares (call r))
    (h : ∀ r, r.inExpression = true → Leaves r.mayStall (call r)) (p : Pattern) (hp : p.aligned = true) :
    Leaves p.mayStall (p.find call) := by
  have hspare := find_spares hs hspares
  induction p with
  | text s =>
    intro c ts d hc hd
    obtain ⟨d, hd, heq⟩ := Option.map_eq_some_iff.1 hd
    cases heq
    obtain ⟨hrest, -⟩ := Cursor.eat?_eq_some hd
    rw [hrest] at hc
    exact .inl (hc.drop hp)
  | rule r => exact h r hp
  | seq p q ihp ihq =>
    intro c ts d hc hd
    obtain ⟨r, hr, hd⟩ := Option.bind_eq_some_iff.1 hd
    obtain ⟨s, hq, heq⟩ := Option.map_eq_some_iff.1 hd
    cases heq
    rcases Bool.or_eq_true_iff.1 hp with hbrace | hp
    · rw [find_brace hbrace hc] at hr
      cases hr
    · obtain ⟨hp, hqw⟩ := Bool.and_eq_true_iff.1 hp
      obtain ⟨hpa, hqa⟩ := Bool.and_eq_true_iff.1 hp
      rcases ihp hpa _ _ _ hc hr with hr | ⟨hstall, hr⟩
      · exact (ihq hqa _ _ _ hr.skipped hq).mono fun hstall => by simp [mayStall, hstall]
      · rw [hstall] at hqw
        have hskip : r.2.skip.rest = r.2.rest := hr.skipped
        have hsame := hspare q hqw _ _ _ (hskip ▸ hr) hq
        rw [hsame, hskip]
        exact .inr ⟨by simp [mayStall, hstall], hr⟩
  | alt p q ihp ihq =>
    intro c ts d hc hd
    obtain ⟨hpa, hqa⟩ := Bool.and_eq_true_iff.1 hp
    rcases Option.or_eq_some_iff.1 hd with hd | ⟨-, hd⟩
    · exact (ihp hpa _ _ _ hc hd).mono fun hstall => by simp [mayStall, hstall]
    · exact (ihq hqa _ _ _ hc hd).mono fun hstall => by simp [mayStall, hstall]
  | opt p ih =>
    intro c ts d hc hd
    rcases Option.or_eq_some_iff.1 hd with hd | ⟨-, hd⟩
    · exact ih hp _ _ _ hc hd
    · cases hd; exact .inl hc
  | star p ih =>
    intro c ts d hc hd
    obtain ⟨hpa, hpw⟩ := Bool.and_eq_true_iff.1 hp
    rcases Option.or_eq_some_iff.1 hd with hd | ⟨-, hd⟩
    · obtain ⟨r, hr, heq⟩ := Option.map_eq_some_iff.1 hd
      cases heq
      refine repeatFind_leaves (ih hpa) (fun hstall => hspare p ?_) _ (ih hpa _ _ _ hc hr)
      simpa [mayStall, hstall] using hpw
    · cases hd; exact .inl hc

end

/-! ## Rules -/

/-- A token of an expression leaves a broken text, or it is the number before a word. -/
theorem Rule.scan_leaves {r : Rule} {scan : Scanner} (hr : r.inExpression = true) (h : r.definition = .token scan)
    {cs l rest : List Char} (hcs : Broken cs) (hs : scan cs = some (l, rest)) : Unfinished r.mayStall rest := by
  have hoperator : r.isOperator = true → Unfinished r.mayStall rest :=
    fun hop => .inl (Rule.operator_keeps hop h _ _ _ hcs hs)
  cases r <;> cases hr <;> cases h
  case number => exact (hcs.of_number hs).imp id fun h => ⟨rfl, h⟩
  case identifier => exact .inl (Scanner.keeps_identifier _ _ _ hcs hs)
  case propertyName => exact .inl (Scanner.keeps_anyWord _ _ _ hcs hs)
  case string => exact .inl (hcs.of_string hs)
  case opUnary => exact .inl (Scanner.keeps_unaryOp _ _ _ hcs hs)
  case kwFunction | boolean | nullLit => exact .inl (Scanner.keeps_keyword (by decide) _ _ _ hcs hs)
  all_goals exact hoperator rfl

theorem Rule.within_spares (fuel : Nat) (r : Rule) (hr : r.sparesWords = true) : Spares (Rule.within fuel r) := by
  induction fuel generalizing r with
  | zero => intro c ts d _ h; cases h
  | succ fuel ih =>
    intro c ts d hc hd
    rw [within] at hd
    cases hdef : r.definition with
    | token scan =>
      rw [hdef] at hd
      obtain ⟨s, hs, -⟩ := Option.map_eq_some_iff.1 hd
      have hop : r.isOperator = true := by cases r <;> cases hdef <;> first | rfl | cases hr
      rw [Rule.operator_eq_none hop hdef hc] at hs
      cases hs
    | phrase p =>
      rw [hdef] at hd
      obtain ⟨s, hs, heq⟩ := Option.map_eq_some_iff.1 hd
      cases heq
      exact Pattern.find_spares (Rule.within_shortens fuel) ih p (Rule.phrase_sparesWords hdef hr) _ _ _ hc hs

theorem Rule.within_leaves (fuel : Nat) (r : Rule) (hr : r.inExpression = true) :
    Leaves r.mayStall (Rule.within fuel r) := by
  induction fuel generalizing r with
  | zero => intro c ts d _ h; cases h
  | succ fuel ih =>
    intro c ts d hc hd
    rw [within] at hd
    cases hdef : r.definition with
    | token scan =>
      rw [hdef] at hd
      obtain ⟨s, hs, heq⟩ := Option.map_eq_some_iff.1 hd
      cases heq
      exact Rule.scan_leaves hr hdef hc hs
    | phrase p =>
      rw [hdef] at hd
      obtain ⟨s, hs, heq⟩ := Option.map_eq_some_iff.1 hd
      cases heq
      refine (Pattern.find_leaves (Rule.within_shortens fuel) (Rule.within_spares fuel) ih p
        (Rule.phrase_aligned hdef hr) _ _ _ hc hs).mono fun _ => ?_
      simp [mayStall, hdef]

/-- What a rule of expressions leaves of a broken text is not only layout. -/
theorem Rule.find_leaves {r : Rule} (hr : r.inExpression = true) {c d : Cursor} {ts : List Tree}
    (hc : Broken c.rest) (h : r.find c = some (ts, d)) : d.skip.rest ≠ [] :=
  (Rule.within_leaves _ r hr c ts d hc h).skipped_ne_nil

end Stepwise
