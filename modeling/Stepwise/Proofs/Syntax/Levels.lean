import Stepwise.Proofs.Syntax.Building
import Stepwise.Proofs.Syntax.Opening

/-!
# Levels of the grammar

The grammar has one rule for every level of precedence. What is read at a level ends where nothing follows that the
level, or a higher one, would take (`Ends`). The judgements say that a text is matched and builds what an expression is
read as, whatever follows, as long as it ends there:

* `ReadsAt n cs e`: by the rule of level `n`;
* `SeriesAt n cs e`: as operands of level `n + 1`, which more operands may follow;
* `SpineAt cs e`: as a primary expression with calls and member accesses, which more of them may follow.

A text that is read at a level is read at every lower one (`SpineAt.unary`, `ReadsAt.series`, `SeriesAt.reads`), and in
parentheses a text of the lowest level is read at the highest (`ReadsAt.paren`).
-/

namespace Stepwise

open Pattern (Gives Fails Series)

/-! ## Rules and what continues them -/

/-- The rule of a level of precedence. -/
def levelRule : Nat → Rule
  | 1 => .assignment
  | 2 => .ternaryExpr
  | 3 => .logicalOrExpr
  | 4 => .logicalAndExpr
  | 5 => .equalityExpr
  | 6 => .comparisonExpr
  | 7 => .additiveExpr
  | 8 => .multiplicativeExpr
  | _ => .unaryExpr

/-- The rule of the operators that join operands at a level. -/
def operatorRule : Nat → Rule
  | 3 => .opOr
  | 4 => .opAnd
  | 5 => .opEquality
  | 6 => .opComparison
  | 7 => .opAdditive
  | _ => .opMultiplicative

def operatorScan : Nat → Scanner
  | 3 => .symbol "||" []
  | 4 => .symbol "&&" []
  | 5 => .equalityOp
  | 6 => .comparisonOp
  | 7 => .additiveOp
  | _ => .multiplicativeOp

theorem operatorRule_definition (n : Nat) : (operatorRule n).definition = .token (operatorScan n) := by
  unfold operatorRule operatorScan
  split <;> rfl

/-- The levels whose operators join operands from the left. -/
structure IsChain (n : Nat) : Prop where
  low : 3 ≤ n
  high : n ≤ 8

theorem IsChain.cases {n : Nat} (h : IsChain n) : n = 3 ∨ n = 4 ∨ n = 5 ∨ n = 6 ∨ n = 7 ∨ n = 8 := by
  obtain ⟨hlow, hhigh⟩ := h
  omega

theorem IsChain.definition {n : Nat} (h : IsChain n) :
    (levelRule n).definition = .phrase (.chain (levelRule (n + 1)) (operatorRule n)) := by
  rcases h.cases with rfl | rfl | rfl | rfl | rfl | rfl <;> rfl

theorem IsChain.ofTree {n : Nat} (h : IsChain n) (text : List Char) (start stop : Nat) (t : Tree) (us : List Tree) :
    Expr.ofTree text (.phrase (levelRule n) start stop (t :: us)) =
      Expr.ofTree text t >>= fun a => Expr.ofChain text (.ofOffsets text start stop) a us := by
  rcases h.cases with rfl | rfl | rfl | rfl | rfl | rfl <;> rfl

/-- What continues an expression, with the highest level that takes it. -/
def continuations : List (Nat × Scanner) :=
  [(11, .plain ["(", "[", ".", "=>"]), (10, .updateOp), (10, .assignOp), (8, .multiplicativeOp), (7, .additiveOp),
    (6, .comparisonOp), (5, .equalityOp), (4, .symbol "&&" []), (3, .symbol "||" []), (2, .symbol "?" [])]

theorem IsChain.mem_continuations {n : Nat} (h : IsChain n) : (n, operatorScan n) ∈ continuations := by
  rcases h.cases with rfl | rfl | rfl | rfl | rfl | rfl <;> simp [continuations, operatorScan]

/-- Nothing follows that an expression read at the level would take. -/
structure Ends (level : Nat) (rest : List Char) : Prop where
  apart : Apart rest
  all : (continuations.all fun c => decide (c.1 < level) || (c.2 (skipped rest)).isNone) = true

theorem Ends.none {level : Nat} {rest : List Char} (h : Ends level rest) {c : Nat × Scanner} (hc : c ∈ continuations)
    (hlevel : level ≤ c.1) : c.2 (skipped rest) = none := by
  have := List.all_eq_true.1 h.all c hc
  simpa [Nat.not_lt.2 hlevel] using this

theorem Ends.mono {level level' : Nat} {rest : List Char} (h : Ends level rest) (hle : level ≤ level') :
    Ends level' rest := by
  refine ⟨h.apart, List.all_eq_true.2 fun c hc => ?_⟩
  by_cases hlt : c.1 < level'
  · simp [hlt]
  · simp [h.none hc (by omega)]

theorem Scanner.firstOf_eq_none {scanners : List Scanner} {cs : List Char} :
    Scanner.firstOf scanners cs = none ↔ ∀ scan ∈ scanners, scan cs = none := by
  induction scanners with
  | nil => simp [Scanner.firstOf]
  | cons first scanners ih =>
    show Scanner.orElse first (Scanner.firstOf scanners) cs = none ↔ _
    cases hfirst : first cs <;> simp [Scanner.orElse, hfirst, ih]

theorem Pattern.Fails.of_plain {symbols : List String} {cs : List Char} (h : Scanner.plain symbols cs = none)
    {s : String} (hs : s ∈ symbols) : (Pattern.text s).Fails cs := by
  have hnone : Scanner.symbol s [] cs = none := Scanner.firstOf_eq_none.1 h _ (List.mem_map.2 ⟨s, hs, rfl⟩)
  apply Fails.text
  unfold Scanner.symbol at hnone
  split at hnone
  · assumption
  · split at hnone
    · cases hnone
    · simp at hnone

section

variable {rest : List Char} (h : Ends 11 rest)

include h

theorem Ends.text_fails {s : String} (hs : s ∈ ["(", "[", ".", "=>"]) : (Pattern.text s).Fails (skipped rest) :=
  .of_plain (h.none (c := (11, .plain ["(", "[", ".", "=>"])) (by simp [continuations]) (Nat.le_refl 11)) hs

theorem Ends.calm : Calm rest := ⟨h.apart, h.text_fails (by decide)⟩

theorem Ends.accessor_fails : Fails Rule.accessor (skipped rest) := by
  have hcall : Fails Rule.callSuffix (skipped rest) := .phrase rfl (.seq_left (h.text_fails (by decide)))
  have hcomputed : Fails Rule.computedAccess (skipped rest) := .phrase rfl (.seq_left (h.text_fails (by decide)))
  have hstatic : Fails Rule.staticAccess (skipped rest) := .phrase rfl (.seq_left (h.text_fails (by decide)))
  exact .phrase rfl (.alt hcall (.alt hcomputed hstatic))

theorem Ends.head_ne_point : rest.head? ≠ some '.' := by
  intro hhead
  cases rest with
  | nil => cases hhead
  | cons c cs =>
    cases hhead
    have hfails := h.text_fails (s := ".") (by decide)
    rw [skipped_cons (by decide) (by decide)] at hfails
    obtain ⟨ts, d, hd, -⟩ := Gives.text "." cs 0
    have hnone := hfails 0
    rw [show '.' :: cs = ".".toList ++ cs from rfl, hd] at hnone
    cases hnone

end

/-! ## What follows a part of an expression -/

theorem ends_nil : Ends 1 [] := ⟨rfl, rfl⟩

theorem ends_close {c : Char} (h : c ∈ [')', ']', ',']) (cs : List Char) : Ends 1 (c :: cs) := by
  simp only [List.mem_cons, List.not_mem_nil, or_false] at h
  rcases h with rfl | rfl | rfl <;> exact ⟨rfl, rfl⟩

theorem ends_colon (cs : List Char) : Ends 1 (" : ".toList ++ cs) := ⟨rfl, rfl⟩

theorem ends_question (cs : List Char) : Ends 3 (" ? ".toList ++ cs) := ⟨rfl, rfl⟩

theorem BinaryOp.ends (op : BinaryOp) (cs : List Char) :
    Ends (op.precedence + 1) (' ' :: op.symbol.toList ++ ' ' :: cs) := by
  cases op <;> exact ⟨rfl, rfl⟩

theorem LogicalOp.ends (op : LogicalOp) (cs : List Char) :
    Ends (op.precedence + 1) (' ' :: op.symbol.toList ++ ' ' :: cs) := by
  cases op <;> exact ⟨rfl, rfl⟩

theorem AssignOp.ends (op : AssignOp) (cs : List Char) : Ends 11 (' ' :: op.symbol.toList ++ ' ' :: cs) := by
  cases op <;> exact ⟨rfl, rfl⟩

theorem UpdateOp.ends (op : UpdateOp) (cs : List Char) : Ends 11 (op.symbol.toList ++ cs) := by
  cases op <;> exact ⟨rfl, rfl⟩

/-! ## Judgements -/

/-- The text is read as the expression by the rule of level `n`. -/
def ReadsAt (n : Nat) (cs : List Char) (e : Expr) : Prop :=
  ∀ rest, Ends n rest → Gives (levelRule n) (cs ++ rest) (Builds e) rest

/-- The text is read as operands of level `n + 1` that make up the expression; more may follow. -/
def SeriesAt (n : Nat) (cs : List Char) (e : Expr) : Prop :=
  ∀ rest, Ends (n + 1) rest →
    Series (levelRule (n + 1)) (.seq (operatorRule n) (levelRule (n + 1))) (cs ++ rest) (Extends Expr.ofChain e) rest

/-- The text may follow that of the expression without being taken for a part of its last token. -/
structure Expr.Precedes (e : Expr) (rest : List Char) : Prop where
  apart : Apart rest
  point : rest.head? = some '.' → e.isDigits = false

/-- The text is read as a primary expression and accessors that make up the expression; more may follow. -/
def SpineAt (cs : List Char) (e : Expr) : Prop :=
  ∀ rest, e.Precedes rest →
    Series Rule.primary Rule.accessor (cs ++ rest) (Extends Expr.ofAccessors e) rest

/-! ## Chains -/

theorem Expr.ofChain_nil (text : List Char) (span : Span) (a : Expr) : Expr.ofChain text span a [] = .ok a := by
  rw [Expr.ofChain]

theorem Expr.ofAccessors_nil (text : List Char) (span : Span) (a : Expr) : Expr.ofAccessors text span a [] = .ok a := by
  rw [Expr.ofAccessors]

section

variable {n : Nat} {cs : List Char} {e : Expr}

theorem ReadsAt.series (h : ReadsAt (n + 1) cs e) : SeriesAt n cs e := by
  intro rest hrest
  refine (h rest hrest).series.mono ?_
  rintro ts us ⟨hts, rfl⟩
  exact hts.extends

theorem SeriesAt.reads (hn : IsChain n) (h : SeriesAt n cs e) : ReadsAt n cs e := by
  intro rest hrest
  have hend : Fails (.seq (operatorRule n) (levelRule (n + 1))) (skipped rest) :=
    .seq_left (.token (operatorRule_definition n) (hrest.none hn.mem_continuations (Nat.le_refl n)))
  have hnonempty : (Pattern.seq (operatorRule n) (levelRule (n + 1))).mayBeEmpty = false := by
    rcases hn.cases with rfl | rfl | rfl | rfl | rfl | rfl <;> rfl
  refine (Gives.phrase hn.definition ((h rest (hrest.mono (Nat.le_succ n))).gives hnonempty hend)).mono ?_
  rintro _ ⟨start, stop, _, ⟨_, vs, hus, rfl⟩, rfl⟩
  obtain ⟨t, rfl, -⟩ := id hus
  refine ⟨_, rfl, fun text => ?_⟩
  rw [List.singleton_append, hn.ofTree]
  exact hus.agrees Expr.ofChain_nil text _

/-- What is read at a level is read at the lower ones. -/
theorem SeriesAt.lower {m : Nat} (hm : m ≤ 8) (hn : 3 ≤ n) (hle : n ≤ m) (h : SeriesAt m cs e) : SeriesAt n cs e := by
  induction m with
  | zero => omega
  | succ m ih =>
    by_cases heq : n = m + 1
    · rw [heq]
      exact h
    · exact ih (by omega) (by omega) (h.reads ⟨by omega, hm⟩).series

end

/-! ## Primary expressions -/

/-- Whether a literal other than a word starts with the character. -/
def startsLiteral (c : Char) : Bool := c.isDigit || ['.', '"', '\'', '[', '\x7b'].contains c

/-- The words that start a literal. -/
def literalWords : List String := ["true", "false", "null", "function"]

section

variable {c : Char} {cs rest : List Char} (hc : startsLiteral c = false)
  (hword : ∀ w ∈ literalWords, w.toList ≠ (Scanner.word (c :: cs)).1)

include hc

theorem ne_of_startsLiteral {a : Char} (ha : startsLiteral a = true) : c ≠ a := by
  rintro rfl
  rw [ha] at hc
  cases hc

include hword

theorem literal_fails : Fails Rule.literal (c :: cs) := by
  have hnumber : Scanner.number (c :: cs) = none :=
    Scanner.number_eq_none (Bool.or_eq_false_iff.1 hc).1 (ne_of_startsLiteral hc rfl) cs
  have hstring : Scanner.string (c :: cs) = none :=
    Scanner.string_eq_none (ne_of_startsLiteral hc rfl) (ne_of_startsLiteral hc rfl) cs
  have hboolean : Scanner.keyword ["true", "false"] (c :: cs) = none :=
    Scanner.keyword_eq_none fun w hw => hword w (by revert w; decide)
  have hnull : Scanner.keyword ["null"] (c :: cs) = none :=
    Scanner.keyword_eq_none fun w hw => hword w (by revert w; decide)
  exact .phrase rfl (.alt (.token rfl hnumber) (.alt (.token rfl hstring) (.alt (.token rfl hboolean) (.token rfl hnull))))

/-- No literal starts so, and no function. -/
theorem literals_fail : Fails Rule.literal (c :: cs) ∧ Fails Rule.functionExpr (c :: cs) ∧
    Fails Rule.arrayLit (c :: cs) ∧ Fails Rule.objectLit (c :: cs) := by
  have hfunction : Scanner.keyword ["function"] (c :: cs) = none :=
    Scanner.keyword_eq_none fun w hw => hword w (by revert w; decide)
  exact ⟨literal_fails hc hword, .phrase rfl (.seq_left (.token rfl hfunction)),
    .phrase rfl (.seq_left (.punctuation rfl (ne_of_startsLiteral hc rfl) cs)),
    .phrase rfl (.seq_left (.punctuation rfl (ne_of_startsLiteral hc rfl) cs))⟩

theorem primary_gives {e : Expr} (h : Gives (.alt Rule.identifier Rule.parenExpr) (c :: cs) (Builds e) rest) :
    Gives Rule.primary (c :: cs) (Builds e) rest := by
  obtain ⟨hliteral, hfunction, harray, hobject⟩ := literals_fail hc hword
  exact .wrap rfl (fun _ _ _ _ => rfl) (.right hliteral (.right hfunction (.right harray (.right hobject h))))

theorem primary_fails (h : Fails (.alt Rule.identifier Rule.parenExpr) (c :: cs)) : Fails Rule.primary (c :: cs) := by
  obtain ⟨hliteral, hfunction, harray, hobject⟩ := literals_fail hc hword
  exact .phrase rfl (.alt hliteral (.alt hfunction (.alt harray (.alt hobject h))))

end

/-- An operator before its operand is no primary expression. -/
theorem primary_fails_of_sign {c : Char} (hc : c ∈ ['!', '-', '+']) (cs : List Char) : Fails Rule.primary (c :: cs) := by
  have hsign : startsLiteral c = false ∧ Scanner.isWordStart c = false ∧ c ≠ '(' := by
    simp only [List.mem_cons, List.not_mem_nil, or_false] at hc
    rcases hc with rfl | rfl | rfl <;> decide
  obtain ⟨hliteral, hstart, hparen⟩ := hsign
  have hwords : ∀ w ∈ literalWords, w.toList.head?.any Scanner.isWordStart = true := by decide
  refine primary_fails hliteral (fun w hw => Scanner.word_ne_of_start hstart (hwords w hw)) ?_
  exact .alt (.token rfl (Scanner.identifier_eq_none hstart)) (.phrase rfl (.seq_left (.punctuation rfl hparen cs)))

theorem primary_fails_of_typeof {cs : List Char} (h : (Scanner.word cs).1 = "typeof".toList) : Fails Rule.primary cs := by
  have hidentifier : Scanner.identifier cs = none := by
    have hreserved : Scanner.keyword Scanner.reserved cs = some (Scanner.word cs) := by
      show (if Scanner.reserved.any (·.toList == (Scanner.word cs).1) then some (Scanner.word cs) else none) = _
      rw [h, if_pos (by decide)]
    rw [Scanner.identifier, hreserved]
  cases cs with
  | nil => cases h
  | cons c cs =>
    have hc : c = 't' := by
      simp only [Scanner.word, List.takeWhile_cons] at h
      split at h
      · exact (List.cons.inj h).1
      · cases h
    subst hc
    have hwords : ∀ w ∈ literalWords, w.toList ≠ "typeof".toList := by decide
    refine primary_fails (by decide) (fun w hw => by rw [h]; exact hwords w hw) ?_
    exact .alt (.token rfl hidentifier) (.phrase rfl (.seq_left (.punctuation rfl (by decide) cs)))

/-! ## Calls, updates and parentheses -/

theorem Scanner.symbol_eq_none {s : String} {notBefore : List Char} {a c : Char} (hs : s.toList.head? = some a)
    (hne : c ≠ a) (cs : List Char) : Scanner.symbol s notBefore (c :: cs) = none := by
  unfold Scanner.symbol
  cases hl : s.toList with
  | nil => rw [hl] at hs; cases hs
  | cons b l =>
    rw [hl] at hs
    cases hs
    simp [List.isPrefixOf?, Ne.symm hne]

/-- Where a primary expression is read there is no operator. -/
theorem unaryOp_eq_none {cs : List Char} (h : ¬ Fails Rule.primary cs) : Scanner.unaryOp cs = none := by
  cases cs with
  | nil => rfl
  | cons c cs =>
    have hsign : c ∉ ['!', '-', '+'] := fun hc => h (primary_fails_of_sign hc cs)
    have hne : c ≠ '!' ∧ c ≠ '-' ∧ c ≠ '+' := by simpa using hsign
    have htypeof : Scanner.keyword ["typeof"] (c :: cs) = none := by
      refine Scanner.keyword_eq_none fun w hw heq => h (primary_fails_of_typeof ?_)
      rw [← heq, List.mem_singleton.1 hw]
    refine Scanner.firstOf_eq_none.2 fun scan hscan => ?_
    simp only [List.mem_cons, List.not_mem_nil, or_false] at hscan
    rcases hscan with rfl | rfl | rfl | rfl
    · exact Scanner.symbol_eq_none rfl hne.1 cs
    · exact Scanner.symbol_eq_none rfl hne.2.1 cs
    · exact Scanner.symbol_eq_none rfl hne.2.2 cs
    · exact htypeof

theorem updateOp_eq_none {cs : List Char} (h : ¬ Fails Rule.primary cs) : Scanner.updateOp cs = none := by
  cases cs with
  | nil => rfl
  | cons c cs =>
    have hsign : c ∉ ['!', '-', '+'] := fun hc => h (primary_fails_of_sign hc cs)
    have hne : c ≠ '!' ∧ c ≠ '-' ∧ c ≠ '+' := by simpa using hsign
    refine Scanner.firstOf_eq_none.2 fun scan hscan => ?_
    simp only [List.map_cons, List.map_nil, List.mem_cons, List.not_mem_nil, or_false] at hscan
    rcases hscan with rfl | rfl
    · exact Scanner.symbol_eq_none rfl hne.2.2 cs
    · exact Scanner.symbol_eq_none rfl hne.2.1 cs

/-- An operand without an operator; an operator without an operand is refused like an operator that stands for one. -/
theorem Expr.ofTree_unaryExpr (text : List Char) (start stop : Nat) (t : Tree) :
    (Expr.ofTree text (.phrase .unaryExpr start stop [t])).toOption = (Expr.ofTree text t).toOption := by
  cases t with
  | phrase r start stop parts => rfl
  | token r start stop lexeme => cases r <;> rfl

/-- A condition without the two values of a choice. -/
theorem Expr.ofTree_ternaryExpr (text : List Char) (start stop : Nat) (t : Tree) :
    (Expr.ofTree text (.phrase .ternaryExpr start stop [t])).toOption = (Expr.ofTree text t).toOption := by
  have hchoice : Expr.ofTree text (.phrase .ternaryExpr start stop [t]) =
      Expr.ofTree text t >>= fun a => Expr.ofChoice text (.ofOffsets text start stop) a [] := rfl
  simp only [Expr.ofChoice] at hchoice
  rw [hchoice]
  exact congrArg Except.toOption (bind_pure _)

theorem unaryExpr_of_updateAfter {cs rest : List Char} {e : Expr} (hp : ¬ Fails Rule.primary cs)
    (h : Gives Rule.updateAfter cs (Builds e) rest) : Gives Rule.unaryExpr cs (Builds e) rest := by
  have hunary : Fails (.seq Rule.opUnary Rule.unaryExpr) cs := .seq_left (.token rfl (unaryOp_eq_none hp))
  have hbefore : Fails Rule.updateBefore cs := .phrase rfl (.seq_left (.token rfl (updateOp_eq_none hp)))
  exact .wrap rfl Expr.ofTree_unaryExpr (.right hunary (.right hbefore h))

section

variable {cs rest : List Char} {e : Expr}

/-- A primary expression without accessors. -/
theorem spineAt_of_primary (h : ∀ rest, e.Precedes rest → Gives Rule.primary (cs ++ rest) (Builds e) rest) :
    SpineAt cs e := by
  intro rest hrest
  refine (h rest hrest).series.mono ?_
  rintro ts us ⟨hts, rfl⟩
  exact hts.extends

theorem Ends.precedes (h : Ends 11 rest) : e.Precedes rest := ⟨h.apart, fun hp => absurd hp h.head_ne_point⟩

theorem SpineAt.primary (h : SpineAt cs e) (hrest : e.Precedes rest) : ¬ Fails Rule.primary (cs ++ rest) := by
  intro hfails
  obtain ⟨ts, c, us, d, hc, -⟩ := h rest hrest 0
  rw [hfails 0] at hc
  cases hc

theorem SpineAt.call (h : SpineAt cs e) (hrest : Ends 11 rest) : Gives Rule.callExpr (cs ++ rest) (Builds e) rest := by
  refine (Gives.phrase rfl ((h rest hrest.precedes).gives rfl hrest.accessor_fails)).mono ?_
  rintro _ ⟨start, stop, _, ⟨_, vs, hus, rfl⟩, rfl⟩
  obtain ⟨t, rfl, -⟩ := id hus
  exact ⟨_, rfl, fun text => hus.agrees Expr.ofAccessors_nil text _⟩

/-- What calls and members are made of is read as a unary expression. -/
theorem SpineAt.unary (h : SpineAt cs e) : ReadsAt 9 cs e := by
  intro rest hrest
  have hcall := h.call (hrest.mono (by decide))
  have hnone : Fails Rule.opUpdate (skipped rest) :=
    .token rfl (hrest.none (c := (10, .updateOp)) (by simp [continuations]) (by decide))
  have hafter : Gives Rule.updateAfter (cs ++ rest) (Builds e) rest :=
    .wrap rfl (fun _ _ _ _ => rfl) (hcall.seq_absent hnone)
  exact unaryExpr_of_updateAfter (h.primary (hrest.mono (by decide)).precedes) hafter

/-- In parentheses, what is read at the lowest level is a primary expression. -/
theorem ReadsAt.paren (hstart : Starts cs) (h : ReadsAt 1 cs e) : SpineAt ('(' :: cs ++ [')']) e := by
  refine spineAt_of_primary fun rest _ => ?_
  have hexpr : Gives Rule.expression (cs ++ ')' :: rest) (Builds e) (')' :: rest) :=
    .wrap rfl (fun _ _ _ _ => rfl) (h _ (ends_close (by decide) rest))
  rw [← (hstart.append _).skipped] at hexpr
  have hclose : Gives (.seq Rule.expression (.text ")")) (skipped (cs ++ ')' :: rest)) (Builds e) rest :=
    hexpr.seq_nil (Gives.text ")" rest)
  have hparen : Gives Rule.parenExpr ('(' :: (cs ++ ')' :: rest)) (Builds e) rest :=
    .wrap rfl (fun _ _ _ _ => rfl) ((Gives.text "(" (cs ++ ')' :: rest)).nil_seq hclose)
  have hwords : ∀ w ∈ literalWords, w.toList.head?.any Scanner.isWordStart = true := by decide
  have htext : '(' :: cs ++ [')'] ++ rest = '(' :: (cs ++ ')' :: rest) := by simp
  rw [htext]
  refine primary_gives rfl (fun w hw => Scanner.word_ne_of_start (by decide) (hwords w hw)) (.right ?_ hparen)
  exact .token rfl (Scanner.identifier_eq_none (by decide))

end

end Stepwise
