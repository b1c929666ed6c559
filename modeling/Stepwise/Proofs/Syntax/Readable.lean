import Stepwise.Proofs.Syntax.Levels

/-!
# Legible expressions are read back

The text of a legible expression is matched at the level of its precedence, and the match builds what the expression is
read as (`Expr.Legible.readable`). The proof goes through the forms of expressions; each is read at its own level, from
where it climbs down to the lowest level, and parentheses lead up again for the operands of the next form.
-/

namespace Stepwise

open Pattern (Gives Fails Series)

/-! ## Readable expressions -/

/-- The text is no left side of an assignment. -/
def NotTarget (cs : List Char) : Prop := ∀ rest, Ends 10 rest → Fails Rule.assignExpr (cs ++ rest)

/-- The text of the expression is read at every level up to its precedence. -/
structure Expr.Readable (e : Expr) : Prop where
  starts : Starts e.chars
  whole : ReadsAt 1 e.chars e
  chain : ∀ n, IsChain n → n ≤ e.precedence → SeriesAt n e.chars e
  unary : 9 ≤ e.precedence → ReadsAt 9 e.chars e
  spine : 11 ≤ e.precedence → SpineAt e.chars e
  target : 2 ≤ e.precedence → NotTarget e.chars

theorem SpineAt.notTarget {cs : List Char} {e : Expr} (h : SpineAt cs e) : NotTarget cs := by
  intro rest hrest
  have hassign : Fails Rule.assignOp (skipped rest) :=
    .token rfl (hrest.none (c := (10, .assignOp)) (by simp [continuations]) (by decide))
  exact .phrase rfl (.seq_right (h.call (hrest.mono (by decide))) (.seq_left hassign))

theorem notTarget_of_primary {cs : List Char} (h : ∀ rest, Fails Rule.primary (cs ++ rest)) : NotTarget cs :=
  fun rest _ => .phrase rfl (.seq_left (.phrase rfl (.seq_left (h rest))))

theorem NotTarget.append {cs tail : List Char} (h : NotTarget cs) (ht : ∀ rest, Ends 10 (tail ++ rest)) :
    NotTarget (cs ++ tail) := by
  intro rest _
  rw [List.append_assoc]
  exact h _ (ht rest)

namespace Expr.Readable

/-! ### Operands -/

section

variable {e : Expr} (h : e.Readable)

include h

theorem operand_starts (n : Nat) : Starts (e.operand n) := by
  by_cases hlt : e.precedence < n
  · rw [operand_of_lt hlt]
    rfl
  · rw [operand_of_le (Nat.not_lt.1 hlt)]
    exact h.starts

theorem operand_spine : SpineAt (e.operand 11) e := by
  by_cases hlt : e.precedence < 11
  · rw [operand_of_lt hlt]
    exact h.whole.paren h.starts
  · rw [operand_of_le (Nat.not_lt.1 hlt)]
    exact h.spine (Nat.not_lt.1 hlt)

theorem operand_unary : ReadsAt 9 (e.operand 9) e := by
  by_cases hlt : e.precedence < 9
  · rw [operand_of_lt hlt]
    exact (h.whole.paren h.starts).unary
  · rw [operand_of_le (Nat.not_lt.1 hlt)]
    exact h.unary (Nat.not_lt.1 hlt)

theorem operand_series {n : Nat} (hn : IsChain n) : SeriesAt n (e.operand n) e := by
  by_cases hlt : e.precedence < n
  · rw [operand_of_lt hlt]
    exact SeriesAt.lower (Nat.le_refl 8) hn.low hn.high (h.whole.paren h.starts).unary.series
  · rw [operand_of_le (Nat.not_lt.1 hlt)]
    exact h.chain n hn (Nat.not_lt.1 hlt)

theorem operand_reads {n : Nat} (hlow : 3 ≤ n) (hhigh : n ≤ 9) : ReadsAt n (e.operand n) e := by
  by_cases hn : n = 9
  · rw [hn]
    exact h.operand_unary
  · have hchain : IsChain n := ⟨hlow, by omega⟩
    exact (h.operand_series hchain).reads hchain

theorem operand_target {n : Nat} (hn : 2 ≤ n) : NotTarget (e.operand n) := by
  by_cases hlt : e.precedence < n
  · rw [operand_of_lt hlt]
    exact (h.whole.paren h.starts).notTarget
  · rw [operand_of_le (Nat.not_lt.1 hlt)]
    exact h.target (by omega)

end

/-! ### From the own level of an expression -/

section

variable {e : Expr} (hl : e.Legible) (ht : NotTarget e.chars)

include hl ht

theorem whole_of_ternary (h : ∀ rest, Ends 1 rest → Gives Rule.ternaryExpr (e.chars ++ rest) (Builds e) rest) :
    ReadsAt 1 e.chars e := by
  intro rest hrest
  have harrow := hl.arrow_fails (hrest.mono (by decide) : Ends 11 rest).calm
  exact .wrap rfl (fun _ _ _ _ => rfl) (.right harrow (.right (ht rest (hrest.mono (by decide))) (h rest hrest)))

theorem whole_of_series (h : SeriesAt 3 e.chars e) : ReadsAt 1 e.chars e := by
  refine whole_of_ternary hl ht fun rest hrest => ?_
  have hor := h.reads ⟨by decide, by decide⟩ rest (hrest.mono (by decide))
  have hnone : Scanner.plain ["?"] (skipped rest) = none :=
    Scanner.firstOf_eq_none.2 fun scan hscan => by
      rw [List.mem_singleton.1 hscan]
      exact hrest.none (c := (2, .symbol "?" [])) (by simp [continuations]) (by decide)
  have hquestion : Fails (.all (.text "?") [Rule.assignment, .text ":", Rule.assignment]) (skipped rest) :=
    .seq_left (.of_plain hnone (by decide))
  exact .wrap rfl Expr.ofTree_ternaryExpr (hor.seq_absent hquestion)

theorem of_series (hn : IsChain e.precedence) (h : SeriesAt e.precedence e.chars e) : e.Readable where
  starts := hl.starts
  whole := whole_of_series hl ht (h.lower hn.high (by decide) hn.low)
  chain n hn' hle := h.lower hn.high hn'.low hle
  unary hle := absurd hn.high (by omega)
  spine hle := absurd hn.high (by omega)
  target _ := ht

theorem of_unary (hp : e.precedence = 9 ∨ e.precedence = 10) (h : ReadsAt 9 e.chars e) : e.Readable where
  starts := hl.starts
  whole := whole_of_series hl ht (h.series.lower (by decide) (by decide) (by decide))
  chain n hn hle := h.series.lower (by decide) hn.low hn.high
  unary _ := h
  spine hle := absurd hp (by omega)
  target _ := ht

end

theorem of_whole {e : Expr} (hl : e.Legible) (hp : e.precedence < 3) (ht : 2 ≤ e.precedence → NotTarget e.chars)
    (h : ReadsAt 1 e.chars e) : e.Readable where
  starts := hl.starts
  whole := h
  chain n hn hle := absurd hn.low (by omega)
  unary hle := absurd hp (by omega)
  spine hle := absurd hp (by omega)
  target := ht

theorem of_spine {e : Expr} (hl : e.Legible) (h : SpineAt e.chars e) : e.Readable where
  starts := hl.starts
  whole := whole_of_series hl h.notTarget (h.unary.series.lower (by decide) (by decide) (by decide))
  chain n hn hle := h.unary.series.lower (by decide) hn.low hn.high
  unary _ := h.unary
  spine _ := h
  target _ := h.notTarget

end Expr.Readable

/-! ## Literals and names -/

section

variable {cs rest : List Char} {e : Expr} {s : Span}

theorem primary_of_literal (h : Gives Rule.literal cs (Builds e) rest) : Gives Rule.primary cs (Builds e) rest :=
  .wrap rfl (fun _ _ _ _ => rfl) (.left h)

theorem spineAt_num {v : Float} (hv : ReadsBack v) : SpineAt (numberText v).toList (.num v s) := by
  refine spineAt_of_primary fun rest hrest => primary_of_literal (.wrap rfl (fun _ _ _ _ => rfl) (.left ?_))
  refine .leaf rfl (Scanner.number_append hv.1 hrest.apart hrest.point) fun span => ?_
  simp only [Expr.ofToken, hv.2]
  exact .ok rfl

/-- Digits, a point and a power of ten are read as a number. -/
theorem spineAt_power {v : Float} {t : Span} {name : String} (hv : ReadsBack v)
    (hdigits : (Expr.num v t).isDigits = true) (hname : Scanner.IsWord name.toList)
    (hpower : Scanner.isPower name.toList = true) :
    SpineAt ((numberText v).toList ++ '.' :: name.toList) (.member (.num v t) (.fixed name) s) := by
  refine spineAt_of_primary fun rest hrest => primary_of_literal (.wrap rfl (fun _ _ _ _ => rfl) (.left ?_))
  rw [List.append_assoc]
  refine .leaf rfl (Scanner.number_power hv.ne_nil hdigits hname hpower hrest.apart) fun span => ?_
  rw [Expr.reread, if_pos hdigits, Expr.chars, Expr.ofToken]
  cases readDecimal? ((numberText v).toList ++ '.' :: name.toList) with
  | none => exact .error _
  | some w => exact .ok rfl

theorem spineAt_str {v : String} (hv : '\n' ∉ v.toList) : SpineAt (stringLiteral v) (.str v s) := by
  refine spineAt_of_primary fun rest hrest => primary_of_literal (.wrap rfl (fun _ _ _ _ => rfl) ?_)
  refine .right (.token rfl (Scanner.number_eq_none (by decide) (by decide) _)) (.left ?_)
  refine .leaf rfl (Scanner.string_stringLiteral hv rest) fun span => ?_
  simp only [Expr.ofToken, Scanner.body?_stringLiteral, Scanner.unescape_escaped, String.ofList_toList]
  exact .ok rfl

theorem spineAt_bool (v : Bool) : SpineAt (Expr.bool v s).chars (.bool v s) := by
  refine spineAt_of_primary fun rest hrest => primary_of_literal (.wrap rfl (fun _ _ _ _ => rfl) ?_)
  have hscan : Scanner.keyword ["true", "false"] ((Expr.bool v s).chars ++ rest) = some ((Expr.bool v s).chars, rest) := by
    have hwords : "true".toList.all Scanner.isWordChar ∧ "false".toList.all Scanner.isWordChar := by decide
    cases v
    · exact Scanner.keyword_append hwords.2 hrest.apart
    · exact Scanner.keyword_append hwords.1 hrest.apart
  have hnumber : Scanner.number ((Expr.bool v s).chars ++ rest) = none := by
    cases v <;> exact Scanner.number_eq_none (by decide) (by decide) _
  have hstring : Scanner.string ((Expr.bool v s).chars ++ rest) = none := by
    cases v <;> exact Scanner.string_eq_none (by decide) (by decide) _
  refine .right (.token rfl hnumber) (.right (.token rfl hstring) (.left (.leaf rfl hscan fun span => ?_)))
  cases v <;> exact .ok rfl

theorem spineAt_null : SpineAt (Expr.null s).chars (.null s) := by
  refine spineAt_of_primary fun rest hrest => primary_of_literal (.wrap rfl (fun _ _ _ _ => rfl) ?_)
  have hword : "null".toList.all Scanner.isWordChar = true := by decide
  have hscan : Scanner.keyword ["null"] ("null".toList ++ rest) = some ("null".toList, rest) :=
    Scanner.keyword_append hword hrest.apart
  have hboolean : Scanner.keyword ["true", "false"] ("null".toList ++ rest) = none :=
    Scanner.keyword_append hword hrest.apart
  refine .right (.token rfl (Scanner.number_eq_none (by decide) (by decide) _)) ?_
  refine .right (.token rfl (Scanner.string_eq_none (by decide) (by decide) _)) ?_
  exact .right (.token rfl hboolean) (.leaf rfl hscan fun span => .ok rfl)

theorem startsLiteral_of_start {c : Char} (h : Scanner.isWordStart c = true) : startsLiteral c = false := by
  have hdigit : c.isDigit = false := by
    apply Bool.eq_false_iff.2
    intro hc
    rw [isWordStart_of_isDigit hc] at h
    cases h
  have hne : ∀ a : Char, Scanner.isWordStart a = false → c ≠ a := by
    rintro a ha rfl
    rw [ha] at h
    cases h
  simp [startsLiteral, hdigit, hne '.' (by decide), hne '"' (by decide), hne '\'' (by decide), hne '[' (by decide),
    hne '\x7b' (by decide)]

theorem spineAt_ident {name : String} (h : Scanner.IsIdentifier name.toList) : SpineAt name.toList (.ident name s) := by
  refine spineAt_of_primary fun rest hrest => ?_
  have hscan := Scanner.identifier_append h hrest.apart
  have hword : ∀ w ∈ literalWords, w.toList ≠ (Scanner.word (name.toList ++ rest)).1 := by
    intro w hw heq
    rw [Scanner.word_append_apart h.1.2 hrest.apart] at heq
    have hreserved : ∀ w ∈ literalWords, w ∈ Scanner.reserved := by decide
    exact h.ne (hreserved w hw) heq
  cases hname : name.toList with
  | nil => rw [hname] at h; cases h.1.1
  | cons c cs =>
    rw [hname] at h hscan hword
    refine primary_gives (startsLiteral_of_start h.1.1) hword (.left (.leaf rfl hscan fun span => ?_))
    rw [Expr.ofToken, ← hname, String.ofList_toList]
    exact .ok rfl

end

/-! ## Members and calls -/

section

variable {cs tail : List Char} {e e' : Expr} {s : Span}

/-- An accessor after a primary expression with its accessors. -/
theorem SpineAt.access (h : SpineAt cs e) (hjoin : ∀ rest, e.Precedes (tail ++ rest))
    (hskip : ∀ rest, skipped (tail ++ rest) = tail ++ rest)
    (haccess : ∀ rest, Apart rest →
      Gives Rule.accessor (tail ++ rest) (fun vs => Extension.Leads Expr.ofAccessors e vs e') rest) :
    SpineAt (cs ++ tail) e' := by
  intro rest hrest
  have hmore := haccess rest hrest.apart
  rw [← hskip] at hmore
  rw [List.append_assoc]
  refine ((h _ (hjoin rest)).snoc hmore).mono ?_
  rintro ts _ ⟨us, vs, hus, hvs, rfl⟩
  exact hus.snoc hvs

theorem spineAt_fixed {object : Expr} {name : String} (ho : object.Readable) (hpoint : object.isDigits = false)
    (hname : Scanner.IsWord name.toList) :
    SpineAt (object.operand 11 ++ '.' :: name.toList) (.member object (.fixed name) s) := by
  refine ho.operand_spine.access (fun rest => ⟨rfl, fun _ => hpoint⟩) (fun rest => rfl) fun rest hrest => ?_
  have hscan := Gives.token (r := .propertyName) rfl (Scanner.anyWord_append hname hrest)
  rw [← (hname.starts.append rest).skipped] at hscan
  have hstatic : Gives Rule.staticAccess ('.' :: (name.toList ++ rest)) _ rest :=
    .phrase rfl ((Gives.text "." (name.toList ++ rest)).nil_seq hscan)
  have hcall : Fails Rule.callSuffix ('.' :: (name.toList ++ rest)) :=
    .phrase rfl (.seq_left (.punctuation rfl (by decide) _))
  have hcomputed : Fails Rule.computedAccess ('.' :: (name.toList ++ rest)) :=
    .phrase rfl (.seq_left (.punctuation rfl (by decide) _))
  refine (Gives.phrase rfl (.right hcall (.right hcomputed hstatic))).mono ?_
  rintro _ ⟨start, stop, _, ⟨_, _, _, ⟨_, _, rfl⟩, rfl⟩, rfl⟩
  intro text span
  refine ⟨fun a => .ok (.member a (.fixed (String.ofList name.toList)) (a.span.merge (.ofOffsets text start stop))),
    fun a ws => ?_, fun outcome h => ?_⟩
  · rw [List.singleton_append, Expr.ofAccessors]
    rfl
  · rw [Expr.reread, hpoint]
    exact h.map fun a b hab => by simp [hab, String.ofList_toList]

theorem spineAt_computed {object key : Expr} (ho : object.Readable) (hk : key.Readable) :
    SpineAt (object.operand 11 ++ ('[' :: key.chars ++ [']'])) (.member object (.computed key) s) := by
  refine ho.operand_spine.access (fun rest => ⟨rfl, fun h => absurd h (by simp)⟩) (fun rest => rfl) fun rest hrest => ?_
  have htext : '[' :: key.chars ++ [']'] ++ rest = '[' :: (key.chars ++ ']' :: rest) := by simp
  rw [htext]
  have hkey : Gives Rule.expression (key.chars ++ ']' :: rest) (Builds key) (']' :: rest) :=
    .wrap rfl (fun _ _ _ _ => rfl) (hk.whole _ (ends_close (by decide) rest))
  rw [← (hk.starts.append _).skipped] at hkey
  have hcomputed : Gives Rule.computedAccess ('[' :: (key.chars ++ ']' :: rest)) _ rest :=
    .phrase rfl ((Gives.text "[" (key.chars ++ ']' :: rest)).nil_seq (hkey.seq_nil (Gives.text "]" rest)))
  have hcall : Fails Rule.callSuffix ('[' :: (key.chars ++ ']' :: rest)) :=
    .phrase rfl (.seq_left (.punctuation rfl (by decide) _))
  refine (Gives.phrase rfl (.right hcall (.left hcomputed))).mono ?_
  rintro _ ⟨start, stop, _, ⟨_, _, _, ⟨t, rfl, ht⟩, rfl⟩, rfl⟩
  intro text span
  refine ⟨fun a => Expr.ofTree text t >>= fun index =>
      .ok (.member a (.computed index) (a.span.merge (.ofOffsets text start stop))), fun a ws => ?_, fun outcome h => ?_⟩
  · rw [List.singleton_append, Expr.ofAccessors, bind_assoc]
    rfl
  · rw [Expr.reread]
    exact h.bind fun a b hab => (ht text).map fun c d hcd => by simp [hab, hcd]

end

/-! ### Arguments -/

/-- The texts of further arguments, each after a comma. -/
def moreChars (args : List Expr) : List Char := args.flatMap fun a => ',' :: ' ' :: a.chars

theorem commaSeparated_cons (a : Expr) (args : List Expr) :
    commaSeparated (Expr.listChars (a :: args)) = a.chars ++ moreChars args := by
  induction args generalizing a with
  | nil => simp [commaSeparated, Expr.listChars, moreChars]
  | cons b args ih =>
    have hrest := ih b
    simp only [commaSeparated, Expr.listChars, List.intercalate_cons_cons] at hrest ⊢
    rw [hrest]
    simp [moreChars]

/-- An expression starts with the parameters of an arrow function, with an operator or with a primary expression. -/
theorem assignment_fails {cs : List Char} (harrow : Fails Rule.arrowFunction cs) (hoperator : Fails Rule.opUnary cs)
    (hupdate : Fails Rule.opUpdate cs) (hprimary : Fails Rule.primary cs) : Fails Rule.assignment cs := by
  have hcall : Fails Rule.callExpr cs := .phrase rfl (.seq_left hprimary)
  have hunary : Fails Rule.unaryExpr cs :=
    .phrase rfl (.alt (.seq_left hoperator) (.alt (.phrase rfl (.seq_left hupdate)) (.phrase rfl (.seq_left hcall))))
  have hchain : ∀ n, n ≤ 6 → Fails (levelRule (9 - n)) cs := by
    intro n hn
    induction n with
    | zero => exact hunary
    | succ n ih =>
      have hlevel : IsChain (9 - (n + 1)) := ⟨by omega, by omega⟩
      have hsucc : 9 - (n + 1) + 1 = 9 - n := by omega
      refine .phrase hlevel.definition (.seq_left ?_)
      rw [hsucc]
      exact ih (by omega)
  have hassign : Fails Rule.assignExpr cs := .phrase rfl (.seq_left hcall)
  exact .phrase rfl (.alt harrow (.alt hassign (.phrase rfl (.seq_left (hchain 6 (by decide))))))

/-- No expression starts with a closing parenthesis. -/
theorem assignment_fails_close (rest : List Char) : Fails Rule.assignment (')' :: rest) := by
  have hwords : ∀ w ∈ literalWords, w.toList.head?.any Scanner.isWordStart = true := by decide
  have hidentifier : Fails Rule.identifier (')' :: rest) := .token rfl (Scanner.identifier_eq_none (by decide))
  have hparen : Fails (.text "(") (')' :: rest) := .punctuation rfl (by decide) rest
  refine assignment_fails ?_ (.token rfl rfl) (.token rfl rfl) ?_
  · exact .phrase rfl (.seq_left (.phrase rfl (.alt hidentifier (.seq_left hparen))))
  · exact primary_fails rfl (fun w hw => Scanner.word_ne_of_start (by decide) (hwords w hw))
      (.alt hidentifier (.phrase rfl (.seq_left hparen)))

theorem Expr.ofTrees_append (text : List Char) (us vs : List Tree) :
    Expr.ofTrees text (us ++ vs) =
      Expr.ofTrees text us >>= fun es => Expr.ofTrees text vs >>= fun fs => .ok (es ++ fs) := by
  induction us with
  | nil =>
    rw [List.nil_append, Expr.ofTrees]
    exact (bind_pure _).symm
  | cons t us ih =>
    rw [List.cons_append, Expr.ofTrees, ih, Expr.ofTrees]
    simp only [bind_assoc, pure_bind]
    rfl

theorem Expr.rereads_append (es fs : List Expr) :
    Expr.rereads (es ++ fs) = (Expr.rereads es).bind fun es => (Expr.rereads fs).map (es ++ ·) := by
  induction es with
  | nil =>
    rw [List.nil_append, Expr.rereads]
    cases Expr.rereads fs <;> rfl
  | cons e es ih =>
    rw [List.cons_append, Expr.rereads, ih, Expr.rereads]
    cases e.reread <;> cases Expr.rereads es <;> cases Expr.rereads fs <;> rfl

/-- A tree and further ones that are turned into what the expressions are read as. -/
def BuildsAll (es : List Expr) (ts us : List Tree) : Prop :=
  ∀ text, Agrees Expr.shapes (Expr.rereads es) (Expr.ofTrees text (ts ++ us))

theorem Builds.all {e : Expr} {ts : List Tree} (h : Builds e ts) : BuildsAll [e] ts [] := by
  obtain ⟨t, rfl, ht⟩ := h
  intro text
  rw [List.append_nil, Expr.ofTrees, Expr.rereads]
  exact (ht text).bind fun a b hab => .ok (by simp [hab])

theorem BuildsAll.snoc {e : Expr} {es : List Expr} {ts us vs : List Tree} (h : BuildsAll es ts us) (he : Builds e vs) :
    BuildsAll (es ++ [e]) ts (us ++ vs) := by
  intro text
  have hlast := he.all text
  rw [List.append_nil] at hlast
  rw [← List.append_assoc, Expr.ofTrees_append, Expr.rereads_append]
  exact (h text).bind fun a b hab => hlast.map fun c d hcd => by rw [Expr.shapes_append, Expr.shapes_append, hab, hcd]

theorem ends_moreChars (args : List Expr) (rest : List Char) : Ends 1 (moreChars args ++ ')' :: rest) := by
  cases args with
  | nil => exact ends_close (by decide) rest
  | cons a args => exact ends_close (by decide) _

/-- The text starts with arguments that are read as the expressions; more may follow before `rest`. -/
def ArgsRead (cs : List Char) (es : List Expr) (rest : List Char) : Prop :=
  Series Rule.assignment (.seq (.text ",") Rule.assignment) cs (BuildsAll es) rest

theorem ArgsRead.snoc {cs rest : List Char} {es : List Expr} {a : Expr} (ha : a.Readable) (hrest : Ends 1 rest)
    (h : ArgsRead cs es (',' :: ' ' :: (a.chars ++ rest))) : ArgsRead cs (es ++ [a]) rest := by
  have hread := ha.whole rest hrest
  rw [← (ha.starts.append rest).skipped] at hread
  have hnext : Gives (.seq (.text ",") Rule.assignment) (skipped (',' :: ' ' :: (a.chars ++ rest))) (Builds a) rest :=
    (Gives.text "," (' ' :: (a.chars ++ rest))).nil_seq hread
  refine (Series.snoc h hnext).mono ?_
  rintro ts _ ⟨us, vs, hus, hvs, rfl⟩
  exact hus.snoc hvs

/-- Arguments are read one after the other. -/
theorem ArgsRead.more {cs rest : List Char} (args : List Expr) (hargs : ∀ a ∈ args, a.Readable) {es : List Expr}
    (h : ArgsRead cs es (moreChars args ++ ')' :: rest)) : ArgsRead cs (es ++ args) (')' :: rest) := by
  induction args generalizing es with
  | nil =>
    rw [List.append_nil]
    exact h
  | cons a args ih =>
    have htext : moreChars (a :: args) ++ ')' :: rest = ',' :: ' ' :: (a.chars ++ (moreChars args ++ ')' :: rest)) := by
      simp [moreChars]
    rw [htext] at h
    have hmore := ih (fun b hb => hargs b (List.mem_cons_of_mem _ hb))
      (h.snoc (hargs a (List.mem_cons_self ..)) (ends_moreChars args rest))
    rwa [List.append_assoc] at hmore

theorem argList_gives {a : Expr} {args : List Expr} (hargs : ∀ b ∈ a :: args, b.Readable) (rest : List Char) :
    Gives Rule.argList (a.chars ++ (moreChars args ++ ')' :: rest))
      (fun ts => ∃ start stop us, BuildsAll (a :: args) us [] ∧ ts = [.phrase .argList start stop us]) (')' :: rest) := by
  have ha := (hargs a (List.mem_cons_self ..)).whole _ (ends_moreChars args rest)
  have hfirst : ArgsRead (a.chars ++ (moreChars args ++ ')' :: rest)) [a] (moreChars args ++ ')' :: rest) := by
    refine ha.series.mono ?_
    rintro ts _ ⟨hts, rfl⟩
    exact hts.all
  have hall := hfirst.more args fun b hb => hargs b (List.mem_cons_of_mem _ hb)
  have hend : Fails (.seq (.text ",") Rule.assignment) (skipped (')' :: rest)) :=
    .seq_left (.punctuation rfl (by decide) rest)
  refine (Gives.phrase rfl (Series.gives rfl hall hend)).mono ?_
  rintro _ ⟨start, stop, _, ⟨us, vs, hus, rfl⟩, rfl⟩
  exact ⟨start, stop, us ++ vs, fun text => by rw [List.append_nil]; exact hus text, rfl⟩

theorem spineAt_call {callee : Expr} {args : List Expr} {s : Span} (hc : callee.Readable)
    (hargs : ∀ a ∈ args, a.Readable) :
    SpineAt (callee.operand 11 ++ ('(' :: commaSeparated (Expr.listChars args) ++ [')'])) (.call callee args s) := by
  refine hc.operand_spine.access (fun rest => ⟨rfl, fun h => absurd h (by simp)⟩) (fun rest => rfl) fun rest hrest => ?_
  cases args with
  | nil =>
    have hnone : Fails Rule.argList (skipped (')' :: rest)) := .phrase rfl (.seq_left (assignment_fails_close rest))
    have hsuffix : Gives Rule.callSuffix ('(' :: ')' :: rest) _ rest :=
      .phrase rfl ((Gives.text "(" (')' :: rest)).nil_seq ((Gives.absent hnone).seq_nil (Gives.text ")" rest)))
    refine (Gives.phrase rfl (.left hsuffix)).mono ?_
    rintro _ ⟨start, stop, _, ⟨_, _, _, rfl, rfl⟩, rfl⟩
    intro text span
    refine ⟨fun a => .ok (.call a [] (a.span.merge (.ofOffsets text start stop))), fun a ws => ?_, fun outcome h => ?_⟩
    · rw [List.singleton_append, Expr.ofAccessors]
      rfl
    · rw [Expr.reread, Expr.rereads]
      exact h.bind fun a b hab => .ok (by simp [hab])
  | cons b args =>
    have htext : '(' :: commaSeparated (Expr.listChars (b :: args)) ++ [')'] ++ rest =
        '(' :: (b.chars ++ (moreChars args ++ ')' :: rest)) := by
      rw [commaSeparated_cons]
      simp
    rw [htext]
    have hlist := argList_gives hargs rest
    rw [← ((hargs b (List.mem_cons_self ..)).starts.append _).skipped] at hlist
    have hsuffix : Gives Rule.callSuffix ('(' :: (b.chars ++ (moreChars args ++ ')' :: rest))) _ rest :=
      .phrase rfl ((Gives.text "(" (b.chars ++ (moreChars args ++ ')' :: rest))).nil_seq
        (hlist.present.seq_nil (Gives.text ")" rest)))
    refine (Gives.phrase rfl (.left hsuffix)).mono ?_
    rintro _ ⟨start, stop, _, ⟨_, _, _, ⟨_, _, us, hus, rfl⟩, rfl⟩, rfl⟩
    intro text span
    have hlist := hus text
    rw [List.append_nil] at hlist
    refine ⟨fun a => Expr.ofTrees text us >>= fun args => .ok (.call a args (a.span.merge (.ofOffsets text start stop))),
      fun a ws => ?_, fun outcome h => ?_⟩
    · rw [List.singleton_append, Expr.ofAccessors, bind_assoc]
      rfl
    · rw [Expr.reread]
      exact h.bind fun a b hab => hlist.map fun c d hcd => by simp [hab, hcd]

/-! ## Operators -/

/-- The symbol joins operands of level `n + 1` to an expression of level `n`, which `node` makes. -/
structure Joins (n : Nat) (symbol : List Char) (node : Expr → Expr → Span → Expr) : Prop where
  chain : IsChain n
  ends : ∀ cs, Ends (n + 1) (' ' :: symbol ++ ' ' :: cs)
  skipped : ∀ cs, skipped (' ' :: symbol ++ ' ' :: cs) = symbol ++ ' ' :: cs
  scan : ∀ cs, operatorScan n (symbol ++ ' ' :: cs) = some (symbol, ' ' :: cs)
  join : ∀ start stop left right, Expr.join? (.token (operatorRule n) start stop symbol) left right =
    some (node left right (left.span.merge right.span))
  shape : ∀ left right s, (node left right s).shape = node left.shape right.shape .zero
  reread : ∀ left right s, (node left right s).reread =
    left.reread.bind fun left => right.reread.map fun right => node left right s
  precedence : ∀ left right s, (node left right s).precedence = n
  chars : ∀ left right s, (node left right s).chars =
    left.operand n ++ ' ' :: symbol ++ ' ' :: right.operand (n + 1)

theorem BinaryOp.joins (op : BinaryOp) : Joins op.precedence op.symbol.toList (.binary op) := by
  cases op <;> exact ⟨⟨by decide, by decide⟩, BinaryOp.ends _, fun _ => rfl, fun _ => rfl, fun _ _ _ _ => rfl,
    fun _ _ _ => rfl, fun _ _ _ => rfl, fun _ _ _ => rfl, fun _ _ _ => rfl⟩

theorem LogicalOp.joins (op : LogicalOp) : Joins op.precedence op.symbol.toList (.logical op) := by
  cases op <;> exact ⟨⟨by decide, by decide⟩, LogicalOp.ends _, fun _ => rfl, fun _ => rfl, fun _ _ _ _ => rfl,
    fun _ _ _ => rfl, fun _ _ _ => rfl, fun _ _ _ => rfl, fun _ _ _ => rfl⟩

section

variable {n : Nat} {symbol : List Char} {node : Expr → Expr → Span → Expr} {left right : Expr}
  (hj : Joins n symbol node) (hl : left.Readable)

include hj hl

theorem Joins.series (hr : right.Readable) (s : Span) :
    SeriesAt n (left.operand n ++ (' ' :: symbol ++ ' ' :: right.operand (n + 1))) (node left right s) := by
  intro rest hrest
  have hleft := hl.operand_series hj.chain _ (hj.ends (right.operand (n + 1) ++ rest))
  have hright := hr.operand_reads (Nat.le_succ_of_le hj.chain.low) (Nat.succ_le_succ hj.chain.high) rest hrest
  rw [← ((hr.operand_starts (n + 1)).append rest).skipped] at hright
  have hmore : Gives (.seq (operatorRule n) (levelRule (n + 1))) (symbol ++ ' ' :: (right.operand (n + 1) ++ rest)) _ rest :=
    (Gives.token (operatorRule_definition n) (hj.scan _)).seq hright
  rw [← hj.skipped] at hmore
  have htext : left.operand n ++ (' ' :: symbol ++ ' ' :: right.operand (n + 1)) ++ rest =
      left.operand n ++ (' ' :: symbol ++ ' ' :: (right.operand (n + 1) ++ rest)) := by simp
  rw [htext]
  refine (hleft.snoc hmore).mono ?_
  rintro ts _ ⟨us, _, hus, ⟨_, _, ⟨start, stop, rfl⟩, ⟨t, rfl, ht⟩, rfl⟩, rfl⟩
  refine hus.snoc fun text span => ?_
  refine ⟨fun a => Expr.ofTree text t >>= fun b => .ok (node a b (a.span.merge b.span)), fun a ws => ?_,
    fun outcome h => ?_⟩
  · rw [List.append_assoc, List.singleton_append, List.singleton_append, Expr.ofChain, bind_assoc]
    exact congrArg (Expr.ofTree text t >>= ·) (funext fun b => by rw [hj.join]; rfl)
  · rw [hj.reread]
    exact h.bind fun a b hab => (ht text).map fun c d hcd => by rw [hj.shape, hj.shape, hab, hcd]

theorem Joins.notTarget : NotTarget (left.operand n ++ (' ' :: symbol ++ ' ' :: right.operand (n + 1))) := by
  refine (hl.operand_target (Nat.le_of_succ_le hj.chain.low)).append fun rest => ?_
  have htext : ' ' :: symbol ++ ' ' :: right.operand (n + 1) ++ rest =
      ' ' :: symbol ++ ' ' :: (right.operand (n + 1) ++ rest) := by simp
  rw [htext]
  exact (hj.ends _).mono (Nat.le_succ_of_le (Nat.succ_le_succ hj.chain.high))

theorem Joins.readable (hr : right.Readable) {s : Span} (h : (node left right s).Legible) :
    (node left right s).Readable := by
  have hp := hj.precedence left right s
  have htext := hj.chars left right s
  rw [List.append_assoc] at htext
  refine .of_series h ?_ (hp ▸ hj.chain) ?_
  · rw [htext]
    exact hj.notTarget hl
  · rw [hp, htext]
    exact hj.series hl hr s

end

/-! ### Operators before and after an operand -/

section

variable {first second : Scanner} {cs : List Char}

theorem Scanner.orElse_left {found : List Char × List Char} (h : first cs = some found) :
    Scanner.orElse first second cs = some found := by
  simp only [Scanner.orElse, h]

theorem Scanner.orElse_right (h : first cs = none) : Scanner.orElse first second cs = second cs := by
  simp only [Scanner.orElse, h]

theorem Scanner.symbol_append {s : String} {notBefore : List Char} {c : Char} (hc : c ∉ notBefore) (cs : List Char) :
    Scanner.symbol s notBefore (s.toList ++ c :: cs) = some (s.toList, c :: cs) := by
  simp only [Scanner.symbol, List.isPrefixOf?_eq_some_iff_append_eq.2 rfl, List.head?_cons, if_neg hc]

end

theorem Scanner.unaryOp_eq (cs : List Char) : Scanner.unaryOp cs =
    Scanner.orElse (.symbol "!" ['=']) (.orElse (.symbol "-" ['-']) (.orElse (.symbol "+" ['+'])
      (.orElse (.keyword ["typeof"]) fun _ => none))) cs := rfl

/-- A sign is scanned before what does not make an update of it. -/
theorem Scanner.unaryOp_sign {a c : Char} (ha : a = '-' ∨ a = '+') (hc : c ≠ a) (cs : List Char) :
    Scanner.unaryOp (a :: c :: cs) = some ([a], c :: cs) := by
  rw [Scanner.unaryOp_eq]
  rcases ha with rfl | rfl
  · have hneg : Scanner.symbol "-" ['-'] ('-' :: c :: cs) = some (['-'], c :: cs) :=
      Scanner.symbol_append (by simpa using hc) cs
    rw [Scanner.orElse_right (Scanner.symbol_eq_none rfl (by decide) _), Scanner.orElse_left hneg]
  · have hplus : Scanner.symbol "+" ['+'] ('+' :: c :: cs) = some (['+'], c :: cs) :=
      Scanner.symbol_append (by simpa using hc) cs
    rw [Scanner.orElse_right (Scanner.symbol_eq_none rfl (by decide) _),
      Scanner.orElse_right (Scanner.symbol_eq_none rfl (by decide) _), Scanner.orElse_left hplus]

theorem Scanner.unaryOp_not {c : Char} (hc : c ≠ '=') (cs : List Char) :
    Scanner.unaryOp ('!' :: c :: cs) = some (['!'], c :: cs) := by
  have hnot : Scanner.symbol "!" ['='] ('!' :: c :: cs) = some (['!'], c :: cs) :=
    Scanner.symbol_append (by simpa using hc) cs
  rw [Scanner.unaryOp_eq, Scanner.orElse_left hnot]

theorem Scanner.unaryOp_typeof {rest : List Char} (hrest : Apart rest) :
    Scanner.unaryOp ("typeof".toList ++ rest) = some ("typeof".toList, rest) := by
  have hscan : Scanner.keyword ["typeof"] ("typeof".toList ++ rest) = some ("typeof".toList, rest) :=
    Scanner.keyword_append (by decide) hrest
  have hnot : Scanner.symbol "!" ['='] ("typeof".toList ++ rest) = none := rfl
  have hneg : Scanner.symbol "-" ['-'] ("typeof".toList ++ rest) = none := rfl
  have hplus : Scanner.symbol "+" ['+'] ("typeof".toList ++ rest) = none := rfl
  rw [Scanner.unaryOp_eq, Scanner.orElse_right hnot, Scanner.orElse_right hneg, Scanner.orElse_right hplus,
    Scanner.orElse_left hscan]

/-- The operator is scanned before its operand. -/
theorem UnaryOp.scan (op : UnaryOp) {operand : List Char} (h : Starts operand) (rest : List Char) :
    ∃ lexeme after, Scanner.unaryOp (op.before operand ++ rest) = some (lexeme, after) ∧
      skipped after = operand ++ rest ∧ UnaryOp.ofSymbol (String.ofList lexeme) = op := by
  have hskip := (h.append rest).skipped
  obtain ⟨gap, hbefore, hgap⟩ := op.before_eq operand
  rw [hbefore]
  cases operand with
  | nil => cases h
  | cons c cs =>
    -- the character after the operator
    have hnext : ∃ a after, gap ++ c :: cs ++ rest = a :: after ∧ skipped (a :: after) = c :: cs ++ rest ∧
        a ≠ '=' ∧ (op = .neg → a ≠ '-') ∧ (op = .plus → a ≠ '+') := by
      rcases hgap with rfl | ⟨rfl, hneg, hplus⟩
      · exact ⟨' ', _, rfl, hskip, by decide, fun _ => by decide, fun _ => by decide⟩
      · refine ⟨c, _, rfl, hskip, ?_, fun hop hc => hneg ⟨hop, by rw [hc]; rfl⟩, fun hop hc => hplus ⟨hop, by rw [hc]; rfl⟩⟩
        rintro rfl
        exact absurd (show startsExpr '=' = true from h) (by decide)
    obtain ⟨a, after, htext, hafter, hnot, hneg, hplus⟩ := hnext
    rw [List.append_assoc, htext]
    cases op with
    | not => exact ⟨_, _, Scanner.unaryOp_not hnot after, hafter, rfl⟩
    | neg => exact ⟨_, _, Scanner.unaryOp_sign (.inl rfl) (hneg rfl) after, hafter, rfl⟩
    | plus => exact ⟨_, _, Scanner.unaryOp_sign (.inr rfl) (hplus rfl) after, hafter, rfl⟩
    | typeOf => exact ⟨_, ' ' :: a :: after, Scanner.unaryOp_typeof rfl, hafter, rfl⟩

theorem readsAt_unary {arg : Expr} {s : Span} (op : UnaryOp) (ha : arg.Readable) :
    ReadsAt 9 (op.before (arg.operand 9)) (.unary op arg s) := by
  intro rest hrest
  obtain ⟨lexeme, after, hscan, hafter, hop⟩ := op.scan (ha.operand_starts 9) rest
  have harg := ha.operand_unary rest hrest
  rw [← hafter] at harg
  have hpair : Gives (.seq Rule.opUnary Rule.unaryExpr) (op.before (arg.operand 9) ++ rest) _ rest :=
    (Gives.token rfl hscan).seq harg
  refine (Gives.phrase rfl hpair.left).mono ?_
  rintro _ ⟨start, stop, _, ⟨_, _, ⟨_, _, rfl⟩, ⟨t, rfl, ht⟩, rfl⟩, rfl⟩
  subst hop
  refine ⟨_, rfl, fun text => ?_⟩
  rw [Expr.reread]
  exact (ht text).map fun a b hab => by simp [hab]

theorem notTarget_unary {arg : Expr} (op : UnaryOp) (ha : arg.Readable) : NotTarget (op.before (arg.operand 9)) := by
  refine notTarget_of_primary fun rest => Classical.byContradiction fun hp => ?_
  obtain ⟨lexeme, after, hscan, -⟩ := op.scan (ha.operand_starts 9) rest
  rw [unaryOp_eq_none hp] at hscan
  cases hscan

theorem UpdateOp.scan (op : UpdateOp) (rest : List Char) :
    Scanner.updateOp (op.symbol.toList ++ rest) = some (op.symbol.toList, rest) := by
  cases op <;> cases rest <;> rfl

theorem UpdateOp.skipped_symbol (op : UpdateOp) (rest : List Char) :
    skipped (op.symbol.toList ++ rest) = op.symbol.toList ++ rest := by
  cases op <;> rfl

theorem agrees_update {arg : Expr} {s span : Span} {outcome : Except BuildError Expr} (op : UpdateOp) (before : Bool)
    (h : Agrees Expr.shape arg.reread outcome) : Agrees Expr.shape (Expr.update op before arg s).reread
      (outcome >>= fun arg => .ok (.update op before arg span)) := by
  rw [Expr.reread]
  exact h.map fun a b hab => by simp [hab]

section

variable {arg : Expr} {s : Span} (op : UpdateOp) (ha : arg.Readable)

include ha

theorem readsAt_updateBefore : ReadsAt 9 (op.symbol.toList ++ arg.operand 11) (.update op true arg s) := by
  intro rest hrest
  rw [List.append_assoc]
  have hunary : Scanner.unaryOp (op.symbol.toList ++ (arg.operand 11 ++ rest)) = none := by
    cases op <;> rfl
  have harg := ha.operand_spine.unary rest hrest
  rw [← ((ha.operand_starts 11).append rest).skipped] at harg
  have hbefore : Gives Rule.updateBefore (op.symbol.toList ++ (arg.operand 11 ++ rest))
      (Builds (.update op true arg s)) rest := by
    refine (Gives.phrase rfl ((Gives.token rfl (op.scan _)).seq harg)).mono ?_
    rintro _ ⟨start, stop, _, ⟨_, _, ⟨_, _, rfl⟩, ⟨t, rfl, ht⟩, rfl⟩, rfl⟩
    refine ⟨_, rfl, fun text => ?_⟩
    cases op <;> exact agrees_update _ true (ht text)
  exact .wrap rfl Expr.ofTree_unaryExpr (.right (.seq_left (.token rfl hunary)) (.left hbefore))

theorem readsAt_updateAfter : ReadsAt 9 (arg.operand 11 ++ op.symbol.toList) (.update op false arg s) := by
  intro rest hrest
  rw [List.append_assoc]
  have hends := op.ends rest
  have hcall := ha.operand_spine.call hends
  have hupdate : Gives Rule.opUpdate (op.symbol.toList ++ rest) _ rest := .token rfl (op.scan rest)
  rw [← op.skipped_symbol] at hupdate
  refine unaryExpr_of_updateAfter (ha.operand_spine.primary hends.precedes) ?_
  refine (Gives.phrase rfl (hcall.seq hupdate.present)).mono ?_
  rintro _ ⟨start, stop, _, ⟨_, _, ⟨t, rfl, ht⟩, ⟨_, _, rfl⟩, rfl⟩, rfl⟩
  refine ⟨_, rfl, fun text => ?_⟩
  cases op <;> exact agrees_update _ false (ht text)

theorem notTarget_updateAfter : NotTarget (arg.operand 11 ++ op.symbol.toList) := by
  intro rest _
  rw [List.append_assoc]
  have hassign : Fails Rule.assignOp (skipped (op.symbol.toList ++ rest)) := by
    rw [op.skipped_symbol]
    cases op <;> exact .token rfl rfl
  exact .phrase rfl (.seq_right (ha.operand_spine.call (op.ends rest)) (.seq_left hassign))

end

theorem notTarget_updateBefore (op : UpdateOp) (cs : List Char) : NotTarget (op.symbol.toList ++ cs) := by
  refine notTarget_of_primary fun rest => ?_
  cases op <;> exact primary_fails_of_sign (by decide) _

/-! ## Assignments and choices -/

/-- An assignment of trees is refused if the target is not read as one. -/
theorem builds_assign {op : AssignOp} {target value : Expr} {s : Span} {start stop start' stop' : Nat} {t v : Tree}
    (ht : Builds target [t]) (hv : Builds value [v]) :
    Builds (.assign op target value s)
      [.phrase .assignExpr start stop [t, .token .assignOp start' stop' op.symbol.toList, v]] := by
  obtain ⟨_, heq, ht⟩ := ht
  cases heq
  obtain ⟨_, heq, hv⟩ := hv
  cases heq
  refine ⟨_, rfl, fun text => ?_⟩
  have hop : AssignOp.ofSymbol? (String.ofList op.symbol.toList) = some op := by cases op <;> decide
  rw [Expr.reread]
  refine (ht text).bind fun a b hab => ?_
  have htarget : a.isTarget = b.isTarget := by rw [← a.isTarget_shape, hab, b.isTarget_shape]
  rw [htarget]
  cases b.isTarget with
  | false => exact .error _
  | true =>
    have hvalue : Agrees Expr.shape (value.reread.map fun value => .assign op b value s)
        (Expr.ofTree text v >>= fun value => .ok (.assign op a value (.ofOffsets text start stop))) :=
      (hv text).map fun c d hcd => by simp [hab, hcd]
    simp only [Expr.ofAssigned, Tree.lexeme, hop]
    exact hvalue

theorem readsAt_assign {op : AssignOp} {target value : Expr} {s : Span} (hl : (Expr.assign op target value s).Legible)
    (htarget : target.isTarget) (ht : target.Readable) (hv : value.Readable) :
    ReadsAt 1 (Expr.assign op target value s).chars (.assign op target value s) := by
  intro rest hrest
  have harrow := hl.arrow_fails (hrest.mono (by decide) : Ends 11 rest).calm
  have htext : (Expr.assign op target value s).chars ++ rest =
      target.operand 11 ++ (' ' :: op.symbol.toList ++ ' ' :: (value.chars ++ rest)) := by
    rw [Expr.operand_of_target htarget (Nat.le_refl 11), Expr.chars]
    simp
  have hcall := ht.operand_spine.call (op.ends (value.chars ++ rest))
  have hscan : Scanner.assignOp (skipped (' ' :: op.symbol.toList ++ ' ' :: (value.chars ++ rest))) =
      some (op.symbol.toList, ' ' :: (value.chars ++ rest)) := by
    cases op <;> rfl
  have hvalue := hv.whole rest hrest
  rw [← (hv.starts.append rest).skipped] at hvalue
  have hassign := Gives.phrase (r := .assignExpr) rfl (hcall.seq ((Gives.token rfl hscan).seq hvalue))
  rw [htext] at harrow ⊢
  refine .wrap rfl (fun _ _ _ _ => rfl) (.right harrow (.left (hassign.mono ?_)))
  rintro _ ⟨start, stop, _, ⟨_, _, hus, ⟨_, _, ⟨_, _, rfl⟩, hvs, rfl⟩, rfl⟩, rfl⟩
  obtain ⟨t, rfl, -⟩ := id hus
  obtain ⟨v, rfl, -⟩ := id hvs
  exact builds_assign hus hvs

theorem builds_ternary {condition consequent alternate : Expr} {s : Span} {start stop : Nat} {t u v : Tree}
    (ht : Builds condition [t]) (hu : Builds consequent [u]) (hv : Builds alternate [v]) :
    Builds (.ternary condition consequent alternate s) [.phrase .ternaryExpr start stop [t, u, v]] := by
  obtain ⟨_, heq, ht⟩ := ht
  cases heq
  obtain ⟨_, heq, hu⟩ := hu
  cases heq
  obtain ⟨_, heq, hv⟩ := hv
  cases heq
  refine ⟨_, rfl, fun text => ?_⟩
  rw [Expr.reread]
  exact (ht text).bind fun a a' ha => (hu text).bind fun b b' hb => (hv text).map fun c c' hc => by
    simp [ha, hb, hc]

section

variable {condition consequent alternate : Expr} {s : Span} (hc : condition.Readable)

include hc

theorem ternary_gives (hu : consequent.Readable) (hv : alternate.Readable) {rest : List Char} (hrest : Ends 1 rest) :
    Gives Rule.ternaryExpr (condition.operand 3 ++ (" ? ".toList ++ (consequent.chars ++ (" : ".toList ++
      (alternate.chars ++ rest))))) (Builds (.ternary condition consequent alternate s)) rest := by
  have hcondition := hc.operand_reads (by decide) (by decide) _
    (ends_question (consequent.chars ++ (" : ".toList ++ (alternate.chars ++ rest))))
  have hconsequent := hu.whole _ (ends_colon (alternate.chars ++ rest))
  have halternate := hv.whole rest hrest
  rw [← (hu.starts.append _).skipped] at hconsequent
  rw [← (hv.starts.append _).skipped] at halternate
  have hcolon : Gives (.seq (.text ":") Rule.assignment) (skipped (" : ".toList ++ (alternate.chars ++ rest)))
      (Builds alternate) rest :=
    (Gives.text ":" (' ' :: (alternate.chars ++ rest))).nil_seq halternate
  have hquestion : Gives (.all (.text "?") [Rule.assignment, .text ":", Rule.assignment])
      (skipped (" ? ".toList ++ (consequent.chars ++ (" : ".toList ++ (alternate.chars ++ rest))))) _ rest :=
    (Gives.text "?" (' ' :: (consequent.chars ++ (" : ".toList ++ (alternate.chars ++ rest))))).nil_seq
      (hconsequent.seq hcolon)
  refine (Gives.phrase rfl (hcondition.seq hquestion.present)).mono ?_
  rintro _ ⟨start, stop, _, ⟨_, _, hts, ⟨_, _, hus, hvs, rfl⟩, rfl⟩, rfl⟩
  obtain ⟨t, rfl, -⟩ := id hts
  obtain ⟨u, rfl, -⟩ := id hus
  obtain ⟨v, rfl, -⟩ := id hvs
  exact builds_ternary hts hus hvs

theorem notTarget_ternary (cs : List Char) : NotTarget (condition.operand 3 ++ (" ? ".toList ++ cs)) := by
  refine (hc.operand_target (by decide)).append fun rest => ?_
  rw [List.append_assoc]
  exact (ends_question _).mono (by decide)

end

/-! ## All forms -/

/-- The text of a legible expression is read at every level up to its precedence. -/
theorem Expr.Legible.readable {e : Expr} (h : e.Legible) : e.Readable := by
  induction h with
  | bool v s => exact .of_spine (.bool v s) (spineAt_bool v)
  | num hv => exact .of_spine (.num hv) (spineAt_num hv)
  | str hv => exact .of_spine (.str hv) (spineAt_str hv)
  | null s => exact .of_spine (.null s) spineAt_null
  | ident hname => exact .of_spine (.ident hname) (spineAt_ident hname)
  | @fixed object name s ho hpower hname ih =>
    refine .of_spine (.fixed ho hpower hname) ?_
    cases hdigits : object.isDigits with
    | false => exact spineAt_fixed ih hdigits hname
    | true =>
      cases ho with
      | num hv => exact spineAt_power hv hdigits hname (hpower hdigits)
      | _ => cases hdigits
  | computed ho hk iho ihk => exact .of_spine (.computed ho hk) (spineAt_computed iho ihk)
  | @call callee args s hc hargs ihc ihargs =>
    refine .of_spine (.call hc hargs) ?_
    rw [Expr.chars, List.append_assoc]
    exact spineAt_call ihc ihargs
  | @binary op left right s hl hr ihl ihr => exact op.joins.readable ihl ihr (.binary hl hr)
  | @logical op left right s hl hr ihl ihr => exact op.joins.readable ihl ihr (.logical hl hr)
  | @unary op arg s ha iha => exact .of_unary (.unary ha) (notTarget_unary op iha) (.inl rfl) (readsAt_unary op iha)
  | @update op before arg s ha iha =>
    cases before with
    | true => exact .of_unary (.update ha) (notTarget_updateBefore op _) (.inr rfl) (readsAt_updateBefore op iha)
    | false => exact .of_unary (.update ha) (notTarget_updateAfter op iha) (.inr rfl) (readsAt_updateAfter op iha)
  | @assign op target value s htarget ht hv iht ihv =>
    have hl : (Expr.assign op target value s).Legible := .assign htarget ht hv
    exact .of_whole hl (show 1 < 3 by decide) (fun h => absurd h (show ¬ 2 ≤ 1 by decide))
      (readsAt_assign hl htarget iht ihv)
  | @ternary condition consequent alternate s hc hu hv ihc ihu ihv =>
    have hl : (Expr.ternary condition consequent alternate s).Legible := .ternary hc hu hv
    have htext : (Expr.ternary condition consequent alternate s).chars =
        condition.operand 3 ++ (" ? ".toList ++ (consequent.chars ++ (" : ".toList ++ alternate.chars))) := by
      rw [Expr.chars]
      simp only [List.append_assoc]
      rfl
    have ht : NotTarget (Expr.ternary condition consequent alternate s).chars := by
      rw [htext]
      exact notTarget_ternary ihc _
    refine .of_whole hl (show 2 < 3 by decide) (fun _ => ht) (Expr.Readable.whole_of_ternary hl ht fun rest hrest => ?_)
    rw [htext]
    simp only [List.append_assoc]
    exact ternary_gives ihc ihu ihv hrest

end Stepwise
