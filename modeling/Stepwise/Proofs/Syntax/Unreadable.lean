import Stepwise.Proofs.Grammar.Breaking
import Stepwise.Proofs.Syntax.RoundTrip

/-!
# Expressions that cannot be read again

`Expr.render` puts line feeds into string literals, where none may stand, and writes an access by name to a whole number
as in `1.x`, where the point belongs to the number. A text with such a node is broken, and a broken text is not read as
an expression, wherever it breaks.

* **reading**: a script that is one expression is matched by the rule of expression statements up to its end, so it is
  not broken (`Expr.not_broken_of_parse`);
* **writing**: the text of an expression in front of a broken text is broken, and so it is in front of any text if one
  of its nodes is unreadable (`Expr.Breaks`, with one lemma for every form, and `Expr.breaks`).

The texts of all other expressions that are written in full can be matched, and are refused only if an assignment has
lost its target (`Expr.Legible.parse_render`). Together this tells exactly which expressions are read again from their
texts (`Expr.render_readable`).
-/

namespace Stepwise

open Layout (opens)

/-! ## Scripts of one expression -/

/-- A choice between rules finds what one of them finds. -/
theorem Pattern.find_choice {call : Rule → Cursor → Found} {p : Pattern} (hp : p.isChoice = true) {c : Cursor}
    {found : List Tree × Cursor} (h : p.find call c = some found) : ∃ r ∈ p.choices, call r c = some found := by
  induction p with
  | rule r => exact ⟨r, List.mem_singleton_self r, h⟩
  | alt p q ihp ihq =>
    obtain ⟨hpc, hqc⟩ := Bool.and_eq_true_iff.1 hp
    rcases Option.or_eq_some_iff.1 h with h | ⟨-, h⟩
    · obtain ⟨r, hr, hc⟩ := ihp hpc h
      exact ⟨r, List.mem_append_left _ hr, hc⟩
    · obtain ⟨r, hr, hc⟩ := ihq hqc h
      exact ⟨r, List.mem_append_right _ hr, hc⟩
  | _ => cases hp

/-- A repetition of a rule that leaves no tree has ended at once. -/
theorem repeatFind_eq_nil {r : Rule} {fuel : Nat} {c : Cursor} (h : (repeatFind r.find fuel c).1 = []) :
    (repeatFind r.find fuel c).2 = c := by
  cases fuel with
  | zero => rfl
  | succ fuel =>
    rw [repeatFind] at h ⊢
    split at h
    · rfl
    · next found hfound =>
      obtain ⟨ts, d⟩ := found
      obtain ⟨t, rfl, -⟩ := Rule.find_derived hfound
      cases h

/-- A repetition of a rule that gives one tree is one match of the rule. -/
theorem Rule.find_of_star {r : Rule} {c d : Cursor} {t : Tree}
    (h : (Pattern.star (.rule r)).find Rule.find c = some ([t], d)) : r.find c = some ([t], d) := by
  rcases Option.or_eq_some_iff.1 h with h | ⟨-, h⟩
  · obtain ⟨⟨ts, stop⟩, hfirst, heq⟩ := Option.map_eq_some_iff.1 h
    obtain ⟨u, rfl, -⟩ := Rule.find_derived hfirst
    obtain ⟨htrees, hend⟩ := Prod.mk.inj heq
    obtain ⟨hu, hmore⟩ := List.cons.inj htrees
    have hstop : d = stop := hend.symm.trans (repeatFind_eq_nil hmore)
    rw [hstop, ← hu]
    exact hfirst
  · cases h

/-- A script is statements up to the end of the text. -/
theorem program_find {text : List Char} {t : Tree} {c : Cursor} (h : Rule.program.find ⟨0, text⟩ = some ([t], c)) :
    ∃ start stop ts last d, t = .phrase .program start stop (ts ++ [last]) ∧ last.rule = .endOfInput ∧
      (Pattern.star (.rule .statement)).find Rule.find (Cursor.skip ⟨0, text⟩) = some (ts, d) ∧ d.skip.rest = [] := by
  have hempty : (Pattern.text "").find Rule.find ⟨0, text⟩ = some ([], ⟨0, text⟩) := rfl
  rw [Rule.find_eq] at h
  obtain ⟨found, hfound, heq⟩ := Option.map_eq_some_iff.1 h
  cases heq
  obtain ⟨start, hstart, hfound⟩ := Option.bind_eq_some_iff.1 hfound
  cases hempty.symm.trans hstart
  obtain ⟨rest, hrest, rfl⟩ := Option.map_eq_some_iff.1 hfound
  obtain ⟨⟨ts, d⟩, hstatements, hrest⟩ := Option.bind_eq_some_iff.1 hrest
  obtain ⟨⟨us, stop⟩, hlast, rfl⟩ := Option.map_eq_some_iff.1 hrest
  change Rule.endOfInput.find d.skip = some (us, stop) at hlast
  obtain ⟨u, rfl, hrule, -⟩ := Rule.find_derived hlast
  refine ⟨_, _, ts, u, d, rfl, hrule, hstatements, ?_⟩
  rw [Rule.find_eq] at hlast
  obtain ⟨scanned, hscanned, -⟩ := Option.map_eq_some_iff.1 hlast
  cases hend : d.skip.rest with
  | nil => rfl
  | cons x cs => rw [hend] at hscanned; cases hscanned

/-- A statement that is an expression is found by the rule of expression statements. -/
theorem statement_find {text : List Char} {c d : Cursor} {t : Tree} {e : Expr} {s : Span}
    (h : Rule.statement.find c = some ([t], d)) (he : Stmt.ofTree text t = .ok (.expr e s)) :
    ∃ ts, Rule.exprStmt.find c = some (ts, d) := by
  rw [Rule.find_eq] at h
  obtain ⟨⟨ts, stop⟩, hfound, heq⟩ := Option.map_eq_some_iff.1 h
  cases heq
  obtain ⟨r, hr, hcall⟩ := Pattern.find_choice rfl hfound
  obtain ⟨u, rfl, hrule, -⟩ := Rule.find_derived hcall
  have hne : r ≠ .statement := by
    rintro rfl
    exact absurd hr (by decide)
  have hexpr : r = .exprStmt := by
    obtain ⟨_, _, v, _, ⟨heq, hv⟩ | ⟨heq, -⟩⟩ := Stmt.ofTree_eq_expr he
    · cases heq
      obtain ⟨_, _, _, _, ⟨rfl, -⟩ | ⟨rfl, -⟩⟩ := Stmt.ofTree_eq_expr hv
      · exact absurd hrule.symm hne
      · exact hrule.symm
    · cases heq
  exact ⟨[u], hexpr ▸ hcall⟩

/-- A text that is read as an expression is not broken. -/
theorem Expr.not_broken_of_parse {source : String} {e : Expr} (h : Expr.parse source = .ok e) :
    ¬ Broken source.toList := by
  intro hbroken
  obtain ⟨p, hp, he⟩ := ok_of_bind h
  obtain ⟨t, htext, hprogram⟩ := Program.ofChars_eq_ok.1 hp
  obtain ⟨c, hc⟩ := Tree.ofText_eq_ok.1 htext
  obtain ⟨start, stop, ts, last, d, rfl, hlast, hstar, hend⟩ := program_find hc
  obtain ⟨u, s, hparts, hu⟩ := Program.ofTree_single hprogram he
  rw [Tree.parts] at hparts
  have hts : ts = [u] := by
    have hall : ∀ t ∈ ts, t.rule = .statement :=
      (Pattern.find_derives (fun _ _ _ _ => Rule.find_derived) _ _ _ _ hstar).rule_eq (by simp [Pattern.mentioned])
    rw [List.filter_append, List.filter_eq_self.2 (by simpa using hall)] at hparts
    simpa [hlast] using hparts
  obtain ⟨us, hexpr⟩ := statement_find (Rule.find_of_star (hts ▸ hstar)) hu
  exact Rule.find_leaves rfl hbroken.skipped hexpr hend

/-! ## Strings with a line feed -/

namespace Scanner

/-- The body of a literal stops at the first line feed. -/
theorem stringBody_feed {cs : List Char} (h : '\n' ∈ cs) (rest : List Char) :
    ∃ body after, stringBody '"' (escaped cs ++ rest) = (body, '\n' :: after) := by
  induction cs with
  | nil => cases h
  | cons c cs ih =>
    rw [escaped_cons]
    by_cases hfeed : c = '\n'
    · subst hfeed
      exact ⟨[], escaped cs ++ rest, by simp [stringBody]⟩
    · obtain ⟨body, after, hbody⟩ := ih ((List.mem_cons.1 h).resolve_left (Ne.symm hfeed))
      by_cases hesc : c = '\\' ∨ c = '"'
      · exact ⟨'\\' :: c :: body, after, by simp [if_pos hesc, stringBody, hbody]⟩
      · obtain ⟨hslash, hquote⟩ := not_or.1 hesc
        exact ⟨c :: body, after, by simp [stringBody, hslash, hquote, hfeed, hbody]⟩

theorem string_eq_none_of_feed {v : String} (h : '\n' ∈ v.toList) (rest : List Char) :
    string (stringLiteral v ++ rest) = none := by
  obtain ⟨body, after, hbody⟩ := stringBody_feed h ('"' :: rest)
  simp [stringLiteral_eq, string, hbody]

end Scanner

/-! ## Unreadable nodes -/

/-- One of the nodes of the expression is unreadable. -/
def Expr.HasUnreadable (depth : Nat) (e : Expr) : Prop := SomeExpr (·.isUnreadable = true) (e.visits depth)

namespace Expr.HasUnreadable

variable {depth : Nat} {e : Expr} {l : List Expr}

/-- An unreadable node of an expression with the parts `l` is the expression itself or stands in one of them. -/
theorem self_or_part (h : e.HasUnreadable depth) (hl : e.parts = l.map .expr) :
    e.isUnreadable = true ∨ ∃ c ∈ l, c.HasUnreadable depth := by
  have he : ∀ fn, e ≠ .function fn := by
    rintro fn rfl
    cases l <;> cases hl
  refine ((SomeExpr.iff_parts he).1 h).imp_right ?_
  rintro ⟨c, hc, hunreadable⟩
  rw [hl] at hc
  obtain ⟨_, hmem, heq⟩ := List.mem_map.1 hc
  cases heq
  exact ⟨c, hmem, hunreadable⟩

theorem part (h : e.HasUnreadable depth) (hself : e.isUnreadable = false) (hl : e.parts = l.map .expr) :
    ∃ c ∈ l, c.HasUnreadable depth :=
  (h.self_or_part hl).resolve_left (by simp [hself])

end Expr.HasUnreadable

theorem Expr.not_hasUnreadable {depth : Nat} {e : Expr} (hself : e.isUnreadable = false) (hl : e.parts = []) :
    ¬ e.HasUnreadable depth := by
  intro h
  obtain ⟨c, hc, -⟩ := h.part (l := []) hself hl
  cases hc

/-! ## Texts before a broken one -/

/-- Operators, brackets and blanks between which no comment starts, also not with what follows. -/
def isClear : List Char → Bool
  | [] => true
  | c :: cs => isDelimiter c && (c != '/' || cs.head?.any fun d => d != '/' && d != '*') && isClear cs

namespace Broken

variable {rest : List Char}

theorem delimiters {l : List Char} (hl : isClear l = true) (h : Broken rest) : Broken (l ++ rest) := by
  induction l with
  | nil => exact h
  | cons c l ih =>
    simp only [isClear, Bool.and_eq_true, Bool.or_eq_true] at hl
    obtain ⟨⟨hc, hslash⟩, hl⟩ := hl
    refine .delimiter hc ?_ (ih hl)
    rcases hslash with hslash | hnext
    · exact opens_of_ne_slash (by simpa using hslash) _
    · cases l with
      | nil => cases hnext
      | cons d l =>
        obtain ⟨hd, hd'⟩ : d ≠ '/' ∧ d ≠ '*' := by simpa using hnext
        unfold opens
        split
        · next heq => cases heq; exact absurd rfl hd
        · next heq => cases heq; exact absurd rfl hd'
        · rfl

theorem cons {c : Char} (hc : isClear [c] = true) (h : Broken rest) : Broken (c :: rest) := h.delimiters hc

theorem wordBefore {w : List Char} (hw : Scanner.IsWord w) (hrest : Apart rest) (h : Broken rest) :
    Broken (w ++ rest) := by
  have hword := Scanner.word_append_apart hw.2 hrest
  cases w with
  | nil => cases hw.1
  | cons c w =>
    rw [List.cons_append] at hword ⊢
    refine .word hw.1 ?_
    rw [hword]
    exact h

theorem stringBefore {v : String} (hv : '\n' ∉ v.toList) (h : Broken rest) : Broken (stringLiteral v ++ rest) :=
  .string (Scanner.string_stringLiteral hv rest) h

end Broken

/-! ## Texts of expressions -/

/-- The text may follow that of the expression: a point only where this needs no parentheses, and no signed power. -/
structure Expr.Meets (e : Expr) (rest : List Char) : Prop where
  apart : Apart rest
  point : rest.head? = some '.' → 11 ≤ e.precedence ∧ e.isDigits = false
  signed : Scanner.isSigned rest = false

theorem Expr.Meets.precedes {e : Expr} {rest : List Char} (h : e.Meets rest) : e.Precedes rest :=
  ⟨h.apart, fun hpoint => (h.point hpoint).2⟩

/-- What follows an operator expression follows its last operand. -/
theorem Expr.Meets.last {e last : Expr} {rest : List Char} (h : e.Meets rest) (hp : e.precedence < 11) : last.Meets rest :=
  ⟨h.apart, fun hpoint => absurd (h.point hpoint).1 (Nat.not_le.2 hp), h.signed⟩

theorem Expr.meets_nil {e : Expr} : e.Meets [] := ⟨rfl, (fun h => by cases h), rfl⟩

/-- What stands behind an operand, but for a point and the signs of an update. -/
def separators : List Char := [' ', ')', ']', ',', '[', '(']

theorem Expr.meets_cons {e : Expr} {c : Char} (hc : c ∈ separators) (cs : List Char) : e.Meets (c :: cs) := by
  simp only [separators, List.mem_cons, List.not_mem_nil, or_false] at hc
  rcases hc with rfl | rfl | rfl | rfl | rfl | rfl <;> cases cs <;> exact ⟨rfl, (fun h => by cases h), rfl⟩

theorem Expr.meets_update {e : Expr} (op : UpdateOp) (rest : List Char) : e.Meets (op.symbol.toList ++ rest) := by
  cases op <;> exact ⟨rfl, (fun h => by cases h), rfl⟩

/-- The text of the expression is broken before a broken text, and before any other one if a node is unreadable. -/
def Expr.Breaks (depth : Nat) (e : Expr) : Prop :=
  ∀ rest, e.Meets rest → Broken rest ∨ e.HasUnreadable depth → Broken (e.chars ++ rest)

section

variable {depth : Nat} {rest : List Char}

theorem Expr.Breaks.operand {e : Expr} (he : e.Breaks depth) (level : Nat) (hrest : level ≤ e.precedence → e.Meets rest)
    (h : Broken rest ∨ e.HasUnreadable depth) : Broken (e.operand level ++ rest) := by
  by_cases hlt : e.precedence < level
  · have hclose := he (')' :: rest) (meets_cons (by decide) rest) (h.imp_left (.cons rfl))
    have htext : e.operand level ++ rest = '(' :: (e.chars ++ ')' :: rest) := by simp [operand_of_lt hlt]
    rw [htext]
    exact .cons rfl hclose
  · rw [operand_of_le (Nat.not_lt.1 hlt)]
    exact he rest (hrest (Nat.not_lt.1 hlt)) h

/-- Two expressions and what stands between them. -/
theorem Expr.Breaks.joined {left right : Expr} (hl : left.Breaks depth) (hr : right.Breaks depth) {c : Char}
    {sep : List Char} (hc : c ∈ separators) (hsep : isClear (c :: sep) = true) (a b : Nat) (hrest : right.Meets rest)
    (h : Broken rest ∨ left.HasUnreadable depth ∨ right.HasUnreadable depth) :
    Broken (left.operand a ++ (c :: sep ++ (right.operand b ++ rest))) := by
  have hright : Broken rest ∨ right.HasUnreadable depth → Broken (c :: sep ++ (right.operand b ++ rest)) :=
    fun h => .delimiters hsep (hr.operand b (fun _ => hrest) h)
  refine hl.operand a (fun _ => meets_cons hc _) ?_
  rcases h with h | h | h
  · exact .inl (hright (.inl h))
  · exact .inr h
  · exact .inl (hright (.inr h))

/-- An argument before further ones. -/
theorem Expr.Breaks.argument {a : Expr} {args : List Expr} (ha : a.Breaks depth)
    (hmore : Broken rest ∨ (∃ a ∈ args, a.HasUnreadable depth) → Broken (moreChars args ++ ')' :: rest))
    (h : Broken rest ∨ (∃ b ∈ a :: args, b.HasUnreadable depth)) :
    Broken (a.chars ++ (moreChars args ++ ')' :: rest)) := by
  refine ha _ (by cases args <;> exact meets_cons (by decide) _) ?_
  rw [List.exists_mem_cons_iff] at h
  rcases h with h | h | h
  · exact .inl (hmore (.inl h))
  · exact .inr h
  · exact .inl (hmore (.inr h))

theorem Expr.Breaks.more {args : List Expr} (hargs : ∀ a ∈ args, a.Breaks depth)
    (h : Broken rest ∨ (∃ a ∈ args, a.HasUnreadable depth)) : Broken (moreChars args ++ ')' :: rest) := by
  induction args with
  | nil =>
    have hrest : Broken rest := by simpa using h
    exact hrest.cons rfl
  | cons a args ih =>
    obtain ⟨ha, hargs⟩ := List.forall_mem_cons.1 hargs
    have htext : moreChars (a :: args) ++ ')' :: rest = ',' :: ' ' :: (a.chars ++ (moreChars args ++ ')' :: rest)) := by
      simp [moreChars]
    rw [htext]
    exact .cons rfl (.cons rfl (ha.argument (ih hargs) h))

/-- Arguments and the parenthesis behind them. -/
theorem Expr.Breaks.arguments {args : List Expr} (hargs : ∀ a ∈ args, a.Breaks depth)
    (h : Broken rest ∨ (∃ a ∈ args, a.HasUnreadable depth)) :
    Broken (commaSeparated (Expr.listChars args) ++ ')' :: rest) := by
  cases args with
  | nil =>
    have hrest : Broken rest := by simpa using h
    exact hrest.cons rfl
  | cons a args =>
    obtain ⟨ha, hargs⟩ := List.forall_mem_cons.1 hargs
    rw [commaSeparated_cons, List.append_assoc]
    exact ha.argument (Breaks.more hargs) h

end

/-! ### Numbers -/

/-- The number is written with digits, and a point takes nothing of it away. -/
theorem ReadsBack.head_isDigit {v : Float} (h : ReadsBack v) : ∃ c cs, (numberText v).toList = c :: cs ∧ c.isDigit = true := by
  have hscan := h.1
  have hpoint := numberText_head_ne_point v
  cases htext : (numberText v).toList with
  | nil => rw [htext] at hscan; cases hscan
  | cons c cs =>
    rw [htext] at hscan hpoint
    refine ⟨c, cs, rfl, (Scanner.number_head hscan).resolve_right ?_⟩
    rintro rfl
    exact hpoint rfl

theorem Broken.numberBefore {v : Float} {s : Span} {rest : List Char} (hv : ReadsBack v)
    (hrest : (Expr.num v s).Precedes rest) (h : Broken rest) : Broken ((numberText v).toList ++ rest) := by
  have hscan := Scanner.number_append hv.1 hrest.apart hrest.point
  obtain ⟨c, cs, htext, hc⟩ := hv.head_isDigit
  rw [htext] at hscan ⊢
  exact .number hc hscan h

/-- A number of digits alone swallows the point of an access by name. -/
theorem Broken.accessBefore {v : Float} {name rest : List Char} (hv : ReadsBack v)
    (hdigits : (numberText v).toList.all Char.isDigit = true) (hname : Scanner.IsWord name) (hrest : Apart rest)
    (hsigned : Scanner.isSigned rest = false) (h : Broken rest ∨ Scanner.isPower name = false) :
    Broken ((numberText v).toList ++ '.' :: (name ++ rest)) := by
  obtain ⟨c, cs, htext, hc⟩ := hv.head_isDigit
  have hhead := hname.not_digit rest
  have hscan := Scanner.number_digits_point hv.ne_nil hdigits hhead
  rw [htext] at hscan ⊢
  cases hpower : Scanner.isPower name with
  | true =>
    rw [Scanner.exponent_of_isPower hpower hrest] at hscan
    exact .number hc hscan (h.resolve_right (by simp [hpower]))
  | false => exact .joined hc hscan (Scanner.exponent_of_not_isPower hname hpower hrest hsigned)

/-! ### Operators -/

theorem BinaryOp.isClear (op : BinaryOp) : isClear (' ' :: (op.symbol.toList ++ [' '])) = true := by
  cases op <;> rfl

theorem LogicalOp.isClear (op : LogicalOp) : isClear (' ' :: (op.symbol.toList ++ [' '])) = true := by
  cases op <;> rfl

theorem AssignOp.isClear (op : AssignOp) : isClear (' ' :: (op.symbol.toList ++ [' '])) = true := by
  cases op <;> rfl

theorem UpdateOp.isClear (op : UpdateOp) : isClear op.symbol.toList = true := by
  cases op <;> rfl

theorem Broken.unaryBefore (op : UnaryOp) {operand rest : List Char} (h : Broken (operand ++ rest)) :
    Broken (op.before operand ++ rest) := by
  obtain ⟨gap, heq, hgap⟩ := op.before_eq operand
  have hoperand : Broken (gap ++ (operand ++ rest)) := by
    rcases hgap with rfl | ⟨rfl, -⟩
    · exact h.cons rfl
    · exact h
  rw [heq, List.append_assoc, List.append_assoc]
  cases op with
  | not | neg | plus => exact hoperand.cons rfl
  | typeOf => exact .wordBefore (w := "typeof".toList) (by decide) rfl (hoperand.cons rfl)

namespace Expr.Breaks

variable {depth : Nat} {s : Span}

/-- Names and literals that are words. -/
theorem word {e : Expr} (he : Scanner.IsWord e.chars) (hself : e.isUnreadable = false) (hl : e.parts = []) :
    e.Breaks depth :=
  fun _ hrest h => .wordBefore he hrest.apart (h.resolve_right (not_hasUnreadable hself hl))

/-- Two operands and the operator that joins them. -/
theorem join {n : Nat} {symbol : List Char} {node : Expr → Expr → Span → Expr} (hj : Joins n symbol node)
    (hclear : isClear (' ' :: (symbol ++ [' '])) = true) {left right : Expr}
    (hself : (node left right s).isUnreadable = false) (hparts : (node left right s).parts = [.expr left, .expr right])
    (hl : left.Breaks depth) (hr : right.Breaks depth) : (node left right s).Breaks depth := by
  intro rest hrest h
  have htext : (node left right s).chars ++ rest =
      left.operand n ++ (' ' :: (symbol ++ [' ']) ++ (right.operand (n + 1) ++ rest)) := by
    simp [hj.chars]
  have hlevel : (node left right s).precedence < 11 := by
    rw [hj.precedence]
    exact Nat.lt_of_le_of_lt hj.chain.high (by decide)
  have hunreadable : Broken rest ∨ left.HasUnreadable depth ∨ right.HasUnreadable depth :=
    h.imp_right fun h => by simpa using h.part (l := [left, right]) hself hparts
  rw [htext]
  exact hl.joined hr (by decide) hclear _ _ (hrest.last hlevel) hunreadable

theorem binary {op : BinaryOp} {left right : Expr} (hl : left.Breaks depth) (hr : right.Breaks depth) :
    (Expr.binary op left right s).Breaks depth :=
  join op.joins op.isClear rfl rfl hl hr

theorem logical {op : LogicalOp} {left right : Expr} (hl : left.Breaks depth) (hr : right.Breaks depth) :
    (Expr.logical op left right s).Breaks depth :=
  join op.joins op.isClear rfl rfl hl hr

theorem assign {op : AssignOp} {target value : Expr} (ht : target.Breaks depth) (hv : value.Breaks depth) :
    (Expr.assign op target value s).Breaks depth := by
  intro rest hrest h
  have htext : (Expr.assign op target value s).chars ++ rest =
      target.operand 0 ++ (' ' :: (op.symbol.toList ++ [' ']) ++ (value.operand 0 ++ rest)) := by
    simp [Expr.chars, operand_of_le (Nat.zero_le _)]
  have hparts : Broken rest ∨ target.HasUnreadable depth ∨ value.HasUnreadable depth :=
    h.imp_right fun h => by simpa using h.part (l := [target, value]) rfl rfl
  rw [htext]
  exact ht.joined hv (by decide) op.isClear _ _ (hrest.last (show 1 < 11 by decide)) hparts

theorem ternary {condition consequent alternate : Expr} (hc : condition.Breaks depth) (hu : consequent.Breaks depth)
    (hv : alternate.Breaks depth) : (Expr.ternary condition consequent alternate s).Breaks depth := by
  intro rest hrest h
  have htext : (Expr.ternary condition consequent alternate s).chars ++ rest = condition.operand 3 ++
      (" ? ".toList ++ (consequent.operand 0 ++ (" : ".toList ++ (alternate.operand 0 ++ rest)))) := by
    simp [Expr.chars, Expr.operand, parenthesized]
  have hchoice (h : Broken rest ∨ consequent.HasUnreadable depth ∨ alternate.HasUnreadable depth) :
      Broken (" ? ".toList ++ (consequent.operand 0 ++ (" : ".toList ++ (alternate.operand 0 ++ rest)))) :=
    .delimiters (by decide) (hu.joined hv (by decide) (by decide) 0 0 (hrest.last (show 2 < 11 by decide)) h)
  rw [htext]
  refine hc.operand 3 (fun _ => meets_cons (by decide) _) ?_
  have hparts : Broken rest ∨ condition.HasUnreadable depth ∨ consequent.HasUnreadable depth ∨
      alternate.HasUnreadable depth :=
    h.imp_right fun h => by simpa using h.part (l := [condition, consequent, alternate]) rfl rfl
  rcases hparts with h | h | h | h
  · exact .inl (hchoice (.inl h))
  · exact .inr h
  · exact .inl (hchoice (.inr (.inl h)))
  · exact .inl (hchoice (.inr (.inr h)))

theorem unary {op : UnaryOp} {arg : Expr} (ha : arg.Breaks depth) : (Expr.unary op arg s).Breaks depth := by
  intro rest hrest h
  have hparts : Broken rest ∨ arg.HasUnreadable depth :=
    h.imp_right fun h => by simpa using h.part (l := [arg]) rfl rfl
  exact .unaryBefore op (ha.operand 9 (fun _ => hrest.last (show 9 < 11 by decide)) hparts)

theorem update {op : UpdateOp} {before : Bool} {arg : Expr} (ha : arg.Breaks depth) :
    (Expr.update op before arg s).Breaks depth := by
  intro rest hrest h
  have hparts : Broken rest ∨ arg.HasUnreadable depth :=
    h.imp_right fun h => by simpa using h.part (l := [arg]) rfl rfl
  cases before with
  | true =>
    show Broken (op.symbol.toList ++ arg.operand 11 ++ rest)
    rw [List.append_assoc]
    exact .delimiters op.isClear (ha.operand 11 (fun _ => hrest.last (show 10 < 11 by decide)) hparts)
  | false =>
    show Broken (arg.operand 11 ++ op.symbol.toList ++ rest)
    rw [List.append_assoc]
    exact ha.operand 11 (fun _ => meets_update op rest) (hparts.imp_left (.delimiters op.isClear))

theorem computed {object key : Expr} (ho : object.Breaks depth) (hk : key.Breaks depth) :
    (Expr.member object (.computed key) s).Breaks depth := by
  intro rest hrest h
  have htext : (Expr.member object (.computed key) s).chars ++ rest =
      object.operand 11 ++ (['['] ++ (key.operand 0 ++ ']' :: rest)) := by
    simp [Expr.chars, MemberKey.chars, Expr.operand, parenthesized]
  have hself : (Expr.member object (.computed key) s).isUnreadable = false := by cases object <;> rfl
  have hparts : Broken rest ∨ object.HasUnreadable depth ∨ key.HasUnreadable depth :=
    h.imp_right fun h => by simpa using h.part (l := [object, key]) hself rfl
  rw [htext]
  exact ho.joined hk (by decide) rfl 11 0 (meets_cons (by decide) rest) (hparts.imp_left (.cons rfl))

theorem call {callee : Expr} {args : List Expr} (hc : callee.Breaks depth) (hargs : ∀ a ∈ args, a.Breaks depth) :
    (Expr.call callee args s).Breaks depth := by
  intro rest hrest h
  have htext : (Expr.call callee args s).chars ++ rest =
      callee.operand 11 ++ '(' :: (commaSeparated (Expr.listChars args) ++ ')' :: rest) := by
    simp [Expr.chars, Expr.operand]
  have hlist (h : Broken rest ∨ (∃ a ∈ args, a.HasUnreadable depth)) :
      Broken ('(' :: (commaSeparated (Expr.listChars args) ++ ')' :: rest)) := .cons rfl (arguments hargs h)
  rw [htext]
  refine hc.operand 11 (fun _ => meets_cons (by decide) _) ?_
  have hparts : Broken rest ∨ callee.HasUnreadable depth ∨ ∃ a ∈ args, a.HasUnreadable depth :=
    h.imp_right fun h => by simpa using h.part (l := callee :: args) rfl rfl
  rcases hparts with h | h | h
  · exact .inl (hlist (.inl h))
  · exact .inr h
  · exact .inl (hlist (.inr h))

/-- An access by name, where a number of digits alone swallows the point. -/
theorem fixed {object : Expr} {name : String} (ho : object.Breaks depth) (hname : Scanner.IsWord name.toList)
    (hp : object.Proper) (hc : object.isComplete = true) : (Expr.member object (.fixed name) s).Breaks depth := by
  intro rest hrest h
  have htext : (Expr.member object (.fixed name) s).chars ++ rest =
      object.operand 11 ++ '.' :: (name.toList ++ rest) := by
    simp [Expr.chars, MemberKey.chars, Expr.operand]
  have hparts : Broken rest ∨ (Expr.member object (.fixed name) s).isUnreadable = true ∨ object.HasUnreadable depth :=
    h.imp_right fun h => by simpa using h.self_or_part (l := [object]) rfl
  rw [htext]
  cases hdigits : object.isDigits with
  | false =>
    refine ho.operand 11 (fun hle => ⟨rfl, fun _ => ⟨hle, hdigits⟩, Scanner.isSigned_point _⟩) ?_
    rcases hparts with h | h | h
    · exact .inl (.point (hname.not_digit rest) (h.wordBefore hname hrest.apart))
    · obtain ⟨v, t, rfl, hwhole, hlt, -⟩ := isUnreadable_fixed h
      rw [isDigits_num hp hc, hwhole, decide_eq_true hlt] at hdigits
      cases hdigits
    · exact .inr h
  | true =>
    cases object with
    | num v t =>
      refine .accessBefore (readsBack_of_proper hp hc) hdigits hname hrest.apart hrest.signed ?_
      rcases hparts with h | h | h
      · exact .inl h
      · obtain ⟨_, _, -, -, -, hpower⟩ := isUnreadable_fixed h
        exact .inr hpower
      · exact absurd h (not_hasUnreadable rfl rfl)
    | _ => cases hdigits

end Expr.Breaks

/-! ### All forms -/

/-- The texts of proper expressions break at unreadable nodes. -/
theorem Expr.breaks {depth : Nat} {e : Expr} (hp : e.Proper)
    (hc : EveryExpr (·.isComplete = true) (e.visits depth)) : e.Breaks depth := by
  refine hp.induction (motive := Breaks depth) (fun fn hfn => Bool.false_ne_true hfn) (fun e hp hc hparts => ?_) hc
  cases e with
  | bool v s =>
    have hword : Scanner.IsWord (Expr.bool v s).chars := by
      cases v
      · exact show Scanner.IsWord "false".toList by decide
      · exact show Scanner.IsWord "true".toList by decide
    exact .word hword rfl rfl
  | num v s =>
    intro rest hrest h
    exact .numberBefore (readsBack_of_proper hp hc.self) hrest.precedes (h.resolve_right (not_hasUnreadable rfl rfl))
  | str v s =>
    intro rest hrest h
    by_cases hv : '\n' ∈ v.toList
    · exact .unclosed (Scanner.string_eq_none_of_feed hv rest)
    · have hself : (Expr.str v s).isUnreadable = false := by simp [isUnreadable, hv]
      exact (h.resolve_right (not_hasUnreadable hself rfl)).stringBefore hv
  | null s =>
    exact .word (show Scanner.IsWord "null".toList by decide) rfl rfl
  | ident name s => exact .word hp.1 rfl rfl
  | member object key s =>
    have ho : object.Breaks depth := hparts object (by simp [parts])
    cases key with
    | fixed name => exact ho.fixed hp.2 hp.1 (hc.part (c := object) (by simp [parts])).self
    | computed key => exact ho.computed (hparts key (by simp [parts, MemberKey.expr?]))
  | call callee args s => exact .call (hparts callee (by simp [parts])) fun a ha => hparts a (by simp [parts, ha])
  | binary op left right s => exact .binary (hparts left (by simp [parts])) (hparts right (by simp [parts]))
  | logical op left right s => exact .logical (hparts left (by simp [parts])) (hparts right (by simp [parts]))
  | unary op arg s => exact .unary (hparts arg (by simp [parts]))
  | update op before arg s => exact .update (hparts arg (by simp [parts]))
  | assign op target value s => exact .assign (hparts target (by simp [parts])) (hparts value (by simp [parts]))
  | ternary condition consequent alternate s =>
    exact .ternary (hparts condition (by simp [parts])) (hparts consequent (by simp [parts]))
      (hparts alternate (by simp [parts]))
  | function fn => cases hc.self
  | unsupported kind s => cases hc.self

/-! ## Reading the text of an expression -/

/-- The text of an expression with an unreadable node is not read. -/
theorem Expr.parse_error_of_hasUnreadable {e : Expr} (hp : e.Proper)
    (hc : EveryExpr (·.isComplete = true) (e.visits 0)) (h : e.HasUnreadable 0) :
    ∃ fault, Expr.parse e.render = .error fault := by
  have hbroken := Expr.breaks hp hc [] meets_nil (.inr h)
  rw [List.append_nil] at hbroken
  cases hparse : Expr.parse e.render with
  | error fault => exact ⟨fault, rfl⟩
  | ok e' =>
    refine absurd ?_ (Expr.not_broken_of_parse hparse)
    rw [render, String.toList_ofList]
    exact hbroken

/-- **The texts that can be read again**: an expression that was read from a source and whose text is not cut is read
again from its text if none of its nodes is unreadable or loses its target, and it is not if one of them is or does. -/
theorem Expr.render_readable {source : String} {e : Expr} (h : Expr.parse source = .ok e)
    (hcomplete : ∀ d n, ⟨.expr d, n⟩ ∈ e.visits 0 → d.isComplete = true) :
    ((∀ d n, ⟨.expr d, n⟩ ∈ e.visits 0 → d.isUnreadable = false ∧ d.losesTarget = false) →
      ∃ e', Expr.parse e.render = .ok e') ∧
    ((∃ d n, ⟨.expr d, n⟩ ∈ e.visits 0 ∧ (d.isUnreadable = true ∨ d.losesTarget = true)) →
      ∃ fault, Expr.parse e.render = .error fault) := by
  have hp := Expr.parse_proper h
  constructor
  · intro hnodes
    have hplain : EveryExpr Expr.Plain (e.visits 0) := fun d n hd => ⟨hcomplete d n hd, (hnodes d n hd).1⟩
    have hagrees := (Expr.legible hp hplain).parse_render
    cases hread : e.reread with
    | none =>
      obtain ⟨d, n, hd, hloses⟩ := (Expr.reread_eq_none_iff hp hplain).1 hread
      rw [(hnodes d n hd).2] at hloses
      cases hloses
    | some first =>
      rw [hread] at hagrees
      obtain ⟨e', he', -⟩ := hagrees.exists_ok
      exact ⟨e', he'⟩
  · rintro ⟨d, n, hd, hnode⟩
    by_cases hunreadable : e.HasUnreadable 0
    · exact Expr.parse_error_of_hasUnreadable hp hcomplete hunreadable
    · have hnone : ∀ d n, ⟨.expr d, n⟩ ∈ e.visits 0 → ¬ d.isUnreadable = true := fun d n hd hu =>
        hunreadable ⟨d, n, hd, hu⟩
      have hplain : EveryExpr Expr.Plain (e.visits 0) := fun d n hd =>
        ⟨hcomplete d n hd, Bool.eq_false_iff.2 (hnone d n hd)⟩
      have hagrees := (Expr.legible hp hplain).parse_render
      rw [(Expr.reread_eq_none_iff hp hplain).2 ⟨d, n, hd, hnode.resolve_left (hnone d n hd)⟩] at hagrees
      exact hagrees.exists_error

def Node.isComplete : Node → Bool
  | .stmt _ => true
  | .expr e => e.isComplete

/-- Whether the node keeps the text around it from being read again. -/
def Node.isLost : Node → Bool
  | .stmt _ => false
  | .expr e => e.isUnreadable || e.losesTarget

theorem Expr.complete_of_all {e : Expr} (h : (e.visits 0).all (·.node.isComplete) = true) :
    ∀ d n, ⟨.expr d, n⟩ ∈ e.visits 0 → d.isComplete = true :=
  fun _ _ hd => List.all_eq_true.1 h _ hd

theorem render_readable_nested :
    (∃ e, Expr.parse "f(1.5.x, 'a\"')[1 .e5] + - -1e21.z" = .ok e ∧
      (∀ d n, ⟨.expr d, n⟩ ∈ e.visits 0 → d.isComplete = true) ∧ ∃ e', Expr.parse e.render = .ok e') ∧
    (∃ e, Expr.parse "f(1.5.x, 'a\"')[1 .y] + - -1e21.z" = .ok e ∧
      (∀ d n, ⟨.expr d, n⟩ ∈ e.visits 0 → d.isComplete = true) ∧ ∃ fault, Expr.parse e.render = .error fault) ∧
    ∃ e, Expr.parse "f(1 .e5 = 2)" = .ok e ∧
      (∀ d n, ⟨.expr d, n⟩ ∈ e.visits 0 → d.isComplete = true) ∧ ∃ fault, Expr.parse e.render = .error fault := by
  have hread {source : String} (hall : (Expr.parse source).toOption.any (fun e =>
      (e.visits 0).all (·.node.isComplete) && (e.visits 0).all (! ·.node.isLost)) = true) :
      ∃ e, Expr.parse source = .ok e ∧ (∀ d n, ⟨.expr d, n⟩ ∈ e.visits 0 → d.isComplete = true) ∧
        ∃ e', Expr.parse e.render = .ok e' := by
    cases h : Expr.parse source with
    | error fault => rw [h] at hall; cases hall
    | ok e =>
      rw [h] at hall
      obtain ⟨hall, hkept⟩ := Bool.and_eq_true_iff.1 hall
      have hcomplete := Expr.complete_of_all hall
      refine ⟨e, rfl, hcomplete, (Expr.render_readable h hcomplete).1 fun d n hd => ?_⟩
      have hnode := List.all_eq_true.1 hkept _ hd
      simpa [Node.isLost] using hnode
  have hlost {source : String} (hall : (Expr.parse source).toOption.any (fun e =>
      (e.visits 0).all (·.node.isComplete) && (e.visits 0).any (·.node.isLost)) = true) :
      ∃ e, Expr.parse source = .ok e ∧ (∀ d n, ⟨.expr d, n⟩ ∈ e.visits 0 → d.isComplete = true) ∧
        ∃ fault, Expr.parse e.render = .error fault := by
    cases h : Expr.parse source with
    | error fault => rw [h] at hall; cases hall
    | ok e =>
      rw [h] at hall
      obtain ⟨hall, hlost⟩ := Bool.and_eq_true_iff.1 hall
      have hcomplete := Expr.complete_of_all hall
      refine ⟨e, rfl, hcomplete, (Expr.render_readable h hcomplete).2 ?_⟩
      obtain ⟨⟨node, n⟩, hmem, hnode⟩ := List.any_eq_true.1 hlost
      cases node with
      | stmt s => cases hnode
      | expr d => exact ⟨d, n, hmem, Bool.or_eq_true_iff.1 hnode⟩
  exact ⟨hread (by decide +kernel), hlost (by decide +kernel), hlost (by decide +kernel)⟩

/-- The text of a string with a line feed is no expression. -/
theorem render_lineFeed_unreadable : ∃ e, Expr.parse "'\\n'" = .ok e ∧
    (∀ d n, ⟨.expr d, n⟩ ∈ e.visits 0 → d.isComplete = true) ∧ ∀ e', Expr.parse e.render ≠ .ok e' := by
  have hall : (Expr.parse "'\\n'").toOption.any (fun e =>
      (e.visits 0).all (·.node.isComplete) && ! (Expr.parse e.render).toOption.isSome) = true := by decide +kernel
  cases h : Expr.parse "'\\n'" with
  | error fault => rw [h] at hall; cases hall
  | ok e =>
    rw [h] at hall
    obtain ⟨hall, hnone⟩ := Bool.and_eq_true_iff.1 hall
    refine ⟨e, rfl, Expr.complete_of_all hall, fun e' he' => ?_⟩
    rw [he'] at hnone
    cases hnone

end Stepwise
