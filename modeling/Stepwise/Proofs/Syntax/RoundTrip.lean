import Stepwise.Proofs.Syntax.Readable

/-!
# Rendering is a right inverse of reading

A text that the grammar matches as one statement is read as that statement, or refused with it
(`Program.parse_of_gives`). The text of a legible expression is such a text, and the statement is what the expression is
read as (`Expr.Legible.parse_render`). An expression that was read from some source and is written in full is legible and
read as itself, so that `Expr.parse_render_of_parse` holds: rendering it and reading the text again gives the expression,
up to spans.
-/

namespace Stepwise

open Pattern (Gives Fails)

/-! ## Scripts of one statement -/

/-- The source is a script of one statement, which has `P`. -/
def Program.IsSingle (source : String) (P : Stmt → Prop) : Prop :=
  ∃ s covered span, Program.parse source = .ok ⟨.block [s] covered, span⟩ ∧ P s

theorem Program.IsSingle.mono {source : String} {P Q : Stmt → Prop} (h : Program.IsSingle source P)
    (hPQ : ∀ s, P s → Q s) : Program.IsSingle source Q := by
  obtain ⟨s, covered, span, hs, hP⟩ := h
  exact ⟨s, covered, span, hs, hPQ s hP⟩

/-- A single tree of a statement; what it is turned into in any text has `P`. -/
def FormsStatement (P : Except BuildError Stmt → Prop) (ts : List Tree) : Prop :=
  ∃ t, ts = [t] ∧ t.rule = .statement ∧ ∀ text, P (Stmt.ofTree text t)

/-- There is a statement, and it has `P`. -/
def Succeeds (P : Stmt → Prop) (outcome : Except BuildError Stmt) : Prop := ∃ s, outcome = .ok s ∧ P s

/-- The script of one statement. -/
def Program.ofStmt (span : Span) (s : Stmt) : Program := ⟨.block [s] (s.span.merge s.span), span⟩

theorem FormsStatement.program {P : Except BuildError Stmt → Prop} {ts : List Tree} (h : FormsStatement P ts)
    (text : List Char) (start stop start' stop' : Nat) (lexeme : List Char) : ∃ outcome, P outcome ∧
      Program.ofTree text (.phrase .program start stop (ts ++ [.token .endOfInput start' stop' lexeme])) =
        outcome >>= fun s => .ok (.ofStmt (.ofOffsets text start stop) s) := by
  obtain ⟨t, rfl, hrule, ht⟩ := h
  have hfilter : ([t] ++ [Tree.token .endOfInput start' stop' lexeme]).filter (·.rule = .statement) = [t] := by
    rw [List.singleton_append, List.filter_cons_of_pos (by simp [hrule]),
      List.filter_cons_of_neg (by simp [Tree.rule]), List.filter_nil]
  refine ⟨Stmt.ofTree text t, ht text, ?_⟩
  rw [Program.ofTree, Tree.parts, hfilter, Stmt.ofTrees, Stmt.ofTrees]
  cases Stmt.ofTree text t <;> rfl

/-- A text that is one statement, with no layout before it, is read as that statement or refused with it. -/
theorem Program.parse_of_gives {source : String} {P : Except BuildError Stmt → Prop} (hstarts : Starts source.toList)
    (h : Gives Rule.statement source.toList (FormsStatement P) []) : ∃ outcome span, P outcome ∧
      Program.parse source = (outcome >>= fun s => .ok (.ofStmt span s)).mapError .build := by
  rw [← hstarts.skipped] at h
  have hend : Gives Rule.endOfInput (skipped []) _ [] := .token rfl rfl
  have hall := Gives.phrase (r := .program) rfl
    ((Gives.text "" source.toList).nil_seq ((h.once rfl (.nil rfl)).seq hend))
  obtain ⟨_, c, hfind, ⟨start, stop, _, ⟨us, _, hus, ⟨start', stop', rfl⟩, rfl⟩, rfl⟩, -⟩ := hall 0
  obtain ⟨outcome, hP, hprogram⟩ := hus.program source.toList start stop start' stop' []
  refine ⟨outcome, .ofOffsets source.toList start stop, hP, ?_⟩
  rw [← hprogram]
  exact Program.ofChars_of_tree (Tree.ofText_eq_ok.2 ⟨c, hfind⟩)

theorem Program.isSingle_of_gives {source : String} {P : Stmt → Prop} (hstarts : Starts source.toList)
    (h : Gives Rule.statement source.toList (FormsStatement (Succeeds P)) []) : Program.IsSingle source P := by
  obtain ⟨_, span, ⟨s, rfl, hP⟩, hparse⟩ := Program.parse_of_gives hstarts h
  exact ⟨s, _, span, hparse, hP⟩

/-! ## Statements that are expressions -/

/-- The words that start a statement, but for those that start a declaration. -/
def controlWords : List String := ["function", "if", "for", "while", "break", "continue", "return"]

/-- No statement but an expression starts as the text does. -/
structure OnlyExpr (cs : List Char) : Prop where
  function : Fails Rule.functionDecl cs
  declare : Fails Rule.declareStmt cs
  condition : Fails Rule.ifStmt cs
  forLoop : Fails Rule.forStmt cs
  whileLoop : Fails Rule.whileStmt cs
  leave : Fails Rule.breakStmt cs
  skip : Fails Rule.continueStmt cs
  ret : Fails Rule.returnStmt cs
  block : Fails Rule.block cs
  empty : Fails Rule.emptyStmt cs

namespace OnlyExpr

variable {cs rest : List Char} {P : List Tree → Prop}

theorem of_keywords (hcontrol : ∀ w ∈ controlWords, Scanner.keyword [w] cs = none)
    (hdeclaration : Fails Rule.declaration cs) (hbrace : Fails (.text "\x7b") cs) (hsemicolon : Fails (.text ";") cs) :
    OnlyExpr cs where
  function := .phrase rfl (.seq_left (.token rfl (hcontrol "function" (by decide))))
  declare := .phrase rfl (.seq_left hdeclaration)
  condition := .phrase rfl (.seq_left (.token rfl (hcontrol "if" (by decide))))
  forLoop := .phrase rfl (.seq_left (.token rfl (hcontrol "for" (by decide))))
  whileLoop := .phrase rfl (.seq_left (.token rfl (hcontrol "while" (by decide))))
  leave := .phrase rfl (.seq_left (.token rfl (hcontrol "break" (by decide))))
  skip := .phrase rfl (.seq_left (.token rfl (hcontrol "continue" (by decide))))
  ret := .phrase rfl (.seq_left (.token rfl (hcontrol "return" (by decide))))
  block := .phrase rfl (.seq_left hbrace)
  empty := .phrase rfl hsemicolon

theorem gives (h : OnlyExpr cs) (hexpr : Gives Rule.exprStmt cs P rest) : Gives Rule.statement cs
    (fun ts => ∃ start stop us, P us ∧ ts = [.phrase .statement start stop us]) rest :=
  .phrase rfl (.right h.function (.right h.declare (.right h.condition (.right h.forLoop (.right h.whileLoop
    (.right h.leave (.right h.skip (.right h.ret (.right h.block (.right h.empty hexpr))))))))))

theorem fails (h : OnlyExpr cs) (hexpr : Fails Rule.exprStmt cs) : Fails Rule.statement cs :=
  .phrase rfl (.alt h.function (.alt h.declare (.alt h.condition (.alt h.forLoop (.alt h.whileLoop
    (.alt h.leave (.alt h.skip (.alt h.ret (.alt h.block (.alt h.empty hexpr))))))))))

end OnlyExpr

/-- The statement is the expression, up to spans. -/
def Stmt.IsExpr (e : Expr) (s : Stmt) : Prop := ∃ e' span, s = .expr e' span ∧ e'.shape = e.shape

/-- The statement is what the expression is read as, if that is anything. -/
def Expr.IsRead (e : Expr) (outcome : Except BuildError Stmt) : Prop :=
  ∃ inner span, Agrees Expr.shape e.reread inner ∧ outcome = inner >>= fun e' => .ok (.expr e' span)

section

variable {e : Expr} (h : e.Legible)

include h

/-- No keyword of a statement starts the text. -/
theorem Expr.Legible.chars_keyword_eq_none {words : List String} (hwords : ∀ w ∈ words, w ∈ statementWords) :
    Scanner.keyword words e.chars = none := by
  have hnone : Scanner.keyword words (e.chars ++ []) = none := h.keyword_eq_none hwords rfl
  rwa [List.append_nil] at hnone

theorem exprStmt_gives : Gives Rule.exprStmt e.chars (fun ts => ∃ start stop us, Builds e us ∧
    ts = [.phrase .exprStmt start stop us]) [] := by
  have hread := h.readable.whole [] ends_nil
  rw [List.append_nil] at hread
  have hexpr : Gives Rule.expression e.chars (Builds e) [] := .wrap rfl (fun _ _ _ _ => rfl) hread
  exact .phrase rfl (hexpr.seq_absent (.nil rfl))

theorem statement_gives : Gives Rule.statement e.chars (FormsStatement e.IsRead) [] := by
  have honly : OnlyExpr e.chars := by
    have hcontrol : ∀ w ∈ controlWords, w ∈ statementWords := by decide
    refine .of_keywords (fun w hw => ?_) ?_ (h.starts.text_fails rfl rfl) (h.starts.text_fails rfl rfl)
    · exact h.chars_keyword_eq_none fun v hv => hcontrol v (List.mem_singleton.1 hv ▸ hw)
    · exact .phrase rfl (.seq_left (.token rfl (h.chars_keyword_eq_none (by decide))))
  refine (honly.gives (exprStmt_gives h)).mono ?_
  rintro _ ⟨start, stop, _, ⟨start', stop', _, ⟨t, rfl, ht⟩, rfl⟩, rfl⟩
  exact ⟨_, rfl, rfl, fun text => ⟨Expr.ofTree text t, .ofOffsets text start' stop', ht text, rfl⟩⟩

/-- The text of a legible expression is a script of what it is read as. -/
theorem Expr.Legible.parse_statement : ∃ outcome span, e.IsRead outcome ∧
    Program.parse e.render = (outcome >>= fun s => .ok (.ofStmt span s)).mapError .build := by
  have htext : e.render.toList = e.chars := String.toList_ofList
  refine Program.parse_of_gives ?_ ?_
  · rw [htext]
    exact h.starts
  · rw [htext]
    exact statement_gives h

theorem Expr.Legible.isSingle (hself : e.reread = some e) : Program.IsSingle e.render (Stmt.IsExpr e) := by
  obtain ⟨_, span, ⟨inner, span', hagrees, rfl⟩, hparse⟩ := h.parse_statement
  rw [hself] at hagrees
  obtain ⟨e', rfl, hshape⟩ := hagrees.exists_ok
  exact ⟨_, _, span, hparse, e', span', rfl, hshape⟩

/-- What the text of a legible expression is read as, or that it is refused. -/
theorem Expr.Legible.parse_render : Agrees Expr.shape e.reread (Expr.parse e.render) := by
  obtain ⟨_, span, ⟨inner, span', hagrees, rfl⟩, hparse⟩ := h.parse_statement
  rw [Expr.parse, hparse]
  cases inner with
  | error fault => exact hagrees
  | ok e' => exact hagrees

end

/-! ## Expressions that were read -/

/-- **Rendering is a right inverse of reading, up to spans**: an expression that was read from a source and is written
in full is read again from its text. -/
theorem Expr.parse_render_of_parse {source : String} {e : Expr} (h : Expr.parse source = .ok e)
    (hwritable : ∀ d n, ⟨.expr d, n⟩ ∈ e.visits 0 → d.isWritable = true) :
    ∃ e', Expr.parse e.render = .ok e' ∧ e'.shape = e.shape := by
  have hp := Expr.parse_proper h
  have hlegible : e.Legible := Expr.legible hp fun d n hd => plain_of_isWritable (hwritable d n hd)
  have hagrees := hlegible.parse_render
  rw [Expr.reread_of_writable hp hwritable] at hagrees
  exact hagrees.exists_ok

/-- An assignment whose two sides nest operators of most levels. -/
def nestedSource : String :=
  "o.f(1.5.toFixed, \"a\\\"b\")[i + 1] = - -x * (y - (z - 1)) < 2 ? typeof !w && (p || q) : (k = a++) + ++b"

def Node.isWritable : Node → Bool
  | .stmt _ => true
  | .expr e => e.isWritable

theorem parse_render_of_parse_nestedSource : ∃ e, Expr.parse nestedSource = .ok e ∧
    (∀ d n, ⟨.expr d, n⟩ ∈ e.visits 0 → d.isWritable = true) ∧
    ∃ e', Expr.parse e.render = .ok e' ∧ e'.shape = e.shape := by
  have hall : (Expr.parse nestedSource).toOption.any (fun e => (e.visits 0).all (·.node.isWritable)) = true := by
    decide +kernel
  cases h : Expr.parse nestedSource with
  | error e => rw [h] at hall; cases hall
  | ok e =>
    rw [h] at hall
    have hwritable : ∀ d n, ⟨.expr d, n⟩ ∈ e.visits 0 → d.isWritable = true :=
      fun d n hd => List.all_eq_true.1 hall _ hd
    exact ⟨e, rfl, hwritable, Expr.parse_render_of_parse h hwritable⟩

end Stepwise
