import Stepwise.Proofs.Grammar.Numerals
import Stepwise.Proofs.Grammar.Parts
import Stepwise.Proofs.Syntax.Proper

/-!
# What the builder refuses

A text that follows the grammar is refused for two reasons only: a constant without an initializer, and an assignment to
what is neither a name nor a member. No other fault arises: on every derived tree the builder finds the parts that it
looks for (`Tree.Derived.builds`). The induction is over the tree, with one lemma for each builder that takes several
trees. So reading a text gives a script, or a place where it leaves the grammar, or one of the two refusals
(`Program.parse_outcome`).
-/

namespace Stepwise

/-! ## Results without internal errors -/

/-- Whether the fault is one of a text that follows the grammar. -/
def BuildError.isRefusal : BuildError → Bool
  | missingInitializer .. | invalidTarget _ => true
  | _ => false

/-- The result is no internal error. -/
def Regular {α : Type} (x : Except BuildError α) : Prop := ∀ fault, x = .error fault → fault.isRefusal = true

namespace Regular

variable {α β : Type}

theorem ok (a : α) : Regular (.ok a) := nofun

theorem refusal {fault : BuildError} (h : fault.isRefusal = true) : Regular (.error fault : Except BuildError α) := by
  intro _ heq
  cases heq
  exact h

theorem bind {x : Except BuildError α} {f : α → Except BuildError β} (hx : Regular x)
    (hf : ∀ a, x = .ok a → Regular (f a)) : Regular (x >>= f) := by
  cases x with
  | error e => exact fun fault h => hx fault (congrArg Except.error (Except.error.inj h))
  | ok a => exact hf a rfl

end Regular

/-! ## Rules -/

/-- Whether trees of a rule are read as expressions. -/
def Rule.isExpression : Rule → Bool
  | identifier | number | string | boolean | nullLit | expression | assignment | assignExpr | arrowFunction
  | ternaryExpr | logicalOrExpr | logicalAndExpr | equalityExpr | comparisonExpr | additiveExpr | multiplicativeExpr
  | unaryExpr | updateBefore | updateAfter | callExpr | primary | literal | parenExpr | functionExpr | arrayLit
  | objectLit => true
  | _ => false

/-- Whether trees of a rule are read as statements. -/
def Rule.isStatement : Rule → Bool
  | statement | functionDecl | declareStmt | ifStmt | forStmt | whileStmt | breakStmt | continueStmt | returnStmt | block
  | emptyStmt | exprStmt => true
  | _ => false

/-- The operators that join operands. -/
def Rule.joining : List Rule := [.opOr, .opAnd, .opEquality, .opComparison, .opAdditive, .opMultiplicative]

/-! ## Tokens -/

theorem Expr.ofToken_regular {r : Rule} {start stop : Nat} {l : List Char} {span : Span}
    (ht : Tree.Derived (.token r start stop l)) (hr : r.isExpression) : Regular (Expr.ofToken r l span) := by
  obtain ⟨scan, cs, rest, hdef, hs⟩ := ht.lexeme
  have hmem : r ∈ [.identifier, .number, .string, .boolean, .nullLit] := by
    cases r <;> first | decide | exact absurd hr (by decide) | exact nomatch hdef
  simp only [List.mem_cons, List.not_mem_nil, or_false] at hmem
  rcases hmem with rfl | rfl | rfl | rfl | rfl
  · exact .ok _
  · cases hdef
    obtain ⟨v, hv⟩ := readDecimal?_number hs
    rw [Expr.ofToken, hv]
    exact .ok _
  · cases hdef
    obtain ⟨body, hbody⟩ := Scanner.body?_string hs
    rw [Expr.ofToken, hbody]
    exact .ok _
  · exact .ok _
  · exact .ok _

theorem VarKind.ofKeyword?_derived {t : Tree} (ht : t.Derived) (hr : t.rule = .varKind) :
    ∃ kind, VarKind.ofKeyword? t.lexeme = some kind := by
  have hmem := ht.lexeme_mem (by rw [hr]; rfl) (Scanner.yields_keyword ["const", "let", "var"])
  have hall : ∀ w ∈ ["const", "let", "var"], (VarKind.ofKeyword? w).isSome := by decide
  exact Option.isSome_iff_exists.1 (hall _ hmem)

theorem AssignOp.ofSymbol?_derived {t : Tree} (ht : t.Derived) (hr : t.rule = .assignOp) :
    ∃ op, AssignOp.ofSymbol? t.lexeme = some op := by
  have hmem := ht.lexeme_mem (by rw [hr]; rfl) ((Scanner.yields_plain _).orElse (Scanner.yields_symbol _ _))
  have hall : ∀ w ∈ ["+=", "-=", "*=", "/="] ++ ["="], (AssignOp.ofSymbol? w).isSome := by decide
  exact Option.isSome_iff_exists.1 (hall _ hmem)

theorem BinaryOp.ofSymbol?_of_mem {s : String} (h : s ∈ BinaryOp.all.map BinaryOp.symbol) :
    ∃ op, BinaryOp.ofSymbol? s = some op := by
  have hall : ∀ w ∈ BinaryOp.all.map BinaryOp.symbol, (BinaryOp.ofSymbol? w).isSome := by decide
  exact Option.isSome_iff_exists.1 (hall s h)

/-- Operands are joined by every operator of the grammar. -/
theorem Expr.join?_derived {op : Tree} (ht : op.Derived) (hr : op.rule ∈ Rule.joining) (left right : Expr) :
    ∃ e, Expr.join? op left right = some e := by
  have hsymbol {scan : Scanner} {symbols : List String} (hdef : op.rule.definition = .token scan)
      (hs : scan.Yields symbols) (hall : symbols ⊆ BinaryOp.all.map BinaryOp.symbol) :
      ∃ b, BinaryOp.ofSymbol? op.lexeme = some b := BinaryOp.ofSymbol?_of_mem (hall (ht.lexeme_mem hdef hs))
  unfold Expr.join?
  simp only [Rule.joining, List.mem_cons, List.not_mem_nil, or_false] at hr
  rcases hr with hr | hr | hr | hr | hr | hr
  · exact ⟨_, by rw [hr]⟩
  · exact ⟨_, by rw [hr]⟩
  · obtain ⟨b, hb⟩ := hsymbol (by rw [hr]; rfl) (Scanner.yields_plain _) (by decide)
    exact ⟨.binary b left right (left.span.merge right.span), by rw [hr, hb]; rfl⟩
  · obtain ⟨b, hb⟩ := hsymbol (by rw [hr]; rfl) (Scanner.yields_plain _) (by decide)
    exact ⟨.binary b left right (left.span.merge right.span), by rw [hr, hb]; rfl⟩
  · obtain ⟨b, hb⟩ := hsymbol (by rw [hr]; rfl) ((Scanner.yields_symbol _ _).orElse (Scanner.yields_symbol _ _)) (by decide)
    exact ⟨.binary b left right (left.span.merge right.span), by rw [hr, hb]; rfl⟩
  · obtain ⟨b, hb⟩ := hsymbol (by rw [hr]; rfl) Scanner.yields_multiplicativeOp (by decide)
    exact ⟨.binary b left right (left.span.merge right.span), by rw [hr, hb]; rfl⟩

section

variable {text : List Char}

variable (text) in
/-- A derived tree that is read without an internal error, as an expression or as a statement by its rule. -/
structure Tree.Builds (t : Tree) : Prop where
  derived : t.Derived
  expr : t.rule.isExpression → Regular (Expr.ofTree text t)
  stmt : t.rule.isStatement → Regular (Stmt.ofTree text t)

variable (text) in
/-- Trees that are read without an internal error, with all trees inside. -/
abbrev AllBuild (ts : List Tree) : Prop := ∀ t ∈ ts, t.Everywhere (Tree.Builds text)

/-! ## Expressions -/

theorem Expr.ofTrees_regular {ts : List Tree} (hts : AllBuild text ts) (hr : ∀ t ∈ ts, t.rule.isExpression) :
    Regular (Expr.ofTrees text ts) := by
  induction ts with
  | nil => exact .ok _
  | cons t ts ih =>
    obtain ⟨ht, hts⟩ := List.forall_mem_cons.1 hts
    obtain ⟨hrt, hrts⟩ := List.forall_mem_cons.1 hr
    exact .bind (ht.here.expr hrt) fun e _ => .bind (ih hts hrts) fun es _ => .ok _

theorem Expr.ofChain_regular {operand operator : Rule} {ts : List Tree} (h : Chained operand operator ts)
    (ho : operand.isExpression) (hop : operator ∈ Rule.joining) (hts : AllBuild text ts) (span : Span) (left : Expr) :
    Regular (Expr.ofChain text span left ts) := by
  induction h generalizing left with
  | nil => exact .ok _
  | @cons op t rest hopr ht _ ih =>
    have htree := (hts t (by simp)).here.expr (ht ▸ ho)
    refine .bind htree fun right _ => ?_
    obtain ⟨e, he⟩ := Expr.join?_derived (hts op (by simp)).here.derived (hopr ▸ hop) left right
    rw [he]
    exact ih (fun u hu => hts u (by simp [hu])) e

/-- A phrase with the pattern of its rule. -/
theorem Tree.Builds.phrase {t : Tree} {r : Rule} {p : Pattern} (h : t.Everywhere (Tree.Builds text)) (hr : t.rule = r)
    (hdef : r.definition = .phrase p) :
    ∃ start stop parts, t = .phrase r start stop parts ∧ p.Derives parts ∧ AllBuild text parts := by
  subst hr
  obtain ⟨start, stop, parts, ht, hp⟩ := h.here.derived.eq_phrase hdef
  refine ⟨start, stop, parts, ht, hp, ?_⟩
  rw [ht] at h
  exact h.parts

theorem Expr.ofAccessors_regular {ts : List Tree} (hts : AllBuild text ts) (hr : ∀ t ∈ ts, t.rule = .accessor)
    (span : Span) (first : Expr) : Regular (Expr.ofAccessors text span first ts) := by
  induction ts generalizing first with
  | nil => exact .ok _
  | cons t ts ih =>
    obtain ⟨ht, hts⟩ := List.forall_mem_cons.1 hts
    obtain ⟨hrt, hrts⟩ := List.forall_mem_cons.1 hr
    have hrest := ih hts hrts
    obtain ⟨start, stop, _, rfl, hp, hparts⟩ := Tree.Builds.phrase ht hrt rfl
    obtain ⟨u, rfl, hu⟩ := hp.of_choice rfl
    have hsuffix := hparts u (by simp)
    have hu : u.rule = .callSuffix ∨ u.rule = .computedAccess ∨ u.rule = .staticAccess := by
      simpa [Pattern.choices, Pattern.any] using hu
    rcases hu with hu | hu | hu
    · obtain ⟨_, _, args, rfl, hargs, hall⟩ := Tree.Builds.phrase hsuffix hu rfl
      rcases hargs.of_parens.of_opt_rule with rfl | ⟨list, rfl, hlist⟩
      · exact hrest _
      · obtain ⟨_, _, items, rfl, hitems, hall⟩ := Tree.Builds.phrase (hall list (by simp)) hlist rfl
        have hexpr : ∀ t ∈ items, t.rule.isExpression := fun t ht => by rw [hitems.of_commaList t ht]; rfl
        exact .bind (Expr.ofTrees_regular hall hexpr) fun es _ => hrest _
    · obtain ⟨_, _, _, rfl, hindex, hall⟩ := Tree.Builds.phrase hsuffix hu rfl
      obtain ⟨index, rfl, hi⟩ := hindex.behind_text.before_text.of_rule
      exact .bind ((hall index (by simp)).here.expr (by rw [hi]; rfl)) fun i _ => hrest _
    · obtain ⟨_, _, _, rfl, hname, hall⟩ := Tree.Builds.phrase hsuffix hu rfl
      obtain ⟨name, rfl, -⟩ := hname.behind_text.of_rule
      exact hrest _

/-! ## Functions -/

/-- The parts of a function: a keyword, what stands for its name, its parameters if there are any, and a block. -/
theorem function_parts {q : Pattern} {parts : List Tree}
    (h : (Pattern.all (.rule .kwFunction) [q, .parens (.opt (.rule .paramList)), .rule .block]).Derives parts) :
    ∃ kw names params block, parts = kw :: (names ++ (params ++ [block])) ∧ kw.rule = .kwFunction ∧ q.Derives names ∧
      (Pattern.opt (.rule .paramList)).Derives params ∧ block.rule = .block := by
  obtain ⟨kw, _, hparts, hkw, h⟩ := h.of_rule_seq
  obtain ⟨names, _, rfl, hnames, h⟩ := h.of_seq
  obtain ⟨params, _, rfl, hparams, h⟩ := h.of_seq
  obtain ⟨block, rfl, hblock⟩ := h.of_rule
  exact ⟨kw, names, params, block, hparts, hkw, hnames, hparams.of_parens, hblock⟩

theorem Stmt.ofTrees_regular {ts : List Tree} (hts : AllBuild text ts) (hr : ∀ t ∈ ts, t.rule.isStatement) :
    Regular (Stmt.ofTrees text ts) := by
  induction ts with
  | nil => exact .ok _
  | cons t ts ih =>
    obtain ⟨ht, hts⟩ := List.forall_mem_cons.1 hts
    obtain ⟨hrt, hrts⟩ := List.forall_mem_cons.1 hr
    exact .bind (ht.here.stmt hrt) fun s _ => .bind (ih hts hrts) fun ss _ => .ok _

/-- The statements of a block. -/
theorem Stmt.ofTrees_block {parts : List Tree} (hparts : AllBuild text parts)
    (hp : (Pattern.braces (.star (.rule .statement))).Derives parts) : Regular (Stmt.ofTrees text parts) := by
  have hstatements := hp.behind_text.before_text.rule_eq (List.Subset.refl _)
  exact Stmt.ofTrees_regular hparts fun t ht => by rw [hstatements t ht]; rfl

/-- What is there, or comes with one of the trees, is still to come if the first tree is not the one. -/
theorem coming_of_ne {α : Type} {there : Option α} {r : Rule} {t : Tree} {ts : List Tree}
    (h : there.isSome ∨ ∃ u ∈ t :: ts, u.rule = r) (hne : t.rule ≠ r) : there.isSome ∨ ∃ u ∈ ts, u.rule = r := by
  rcases h with h | ⟨u, hu, hur⟩
  · exact .inl h
  · rcases List.mem_cons.1 hu with rfl | hu
    · exact absurd hur hne
    · exact .inr ⟨u, hu, hur⟩

theorem FunctionDef.ofParts_regular {ts : List Tree} (hts : AllBuild text ts)
    (hr : ∀ t ∈ ts, t.rule ∈ [.kwFunction, .identifier, .paramList, .block]) (span : Span) {anonymous : Bool}
    {name : Option String} {params : List String} {body : Option Stmt}
    (hn : anonymous = false → name.isSome ∨ ∃ t ∈ ts, t.rule = .identifier)
    (hb : body.isSome ∨ ∃ t ∈ ts, t.rule = .block) :
    Regular (FunctionDef.ofParts text span anonymous name params body ts) := by
  induction ts generalizing name params body with
  | nil =>
    obtain ⟨b, rfl⟩ : ∃ b, body = some b := Option.isSome_iff_exists.1 (by simpa using hb)
    rw [FunctionDef.ofParts, if_neg]
    · exact .ok _
    · cases anonymous with
      | true => simp
      | false =>
        have hname : name.isSome := by simpa using hn rfl
        simp [Option.isSome_iff_ne_none.1 hname]
  | cons t ts ih =>
    obtain ⟨ht, hmore⟩ := List.forall_mem_cons.1 hts
    obtain ⟨hrt, hrts⟩ := List.forall_mem_cons.1 hr
    simp only [List.mem_cons, List.not_mem_nil, or_false] at hrt
    rcases hrt with hrt | hrt | hrt | hrt
    · have hname (ha : anonymous = false) := coming_of_ne (hn ha) (by rw [hrt]; decide)
      have hbody := coming_of_ne hb (by rw [hrt]; decide)
      rw [FunctionDef.ofParts_of_isKeyword (by rw [hrt]; rfl)]
      exact ih hmore hrts hname hbody
    · have hbody := coming_of_ne hb (by rw [hrt]; decide)
      obtain ⟨_, _, _, _, _, htok, -⟩ := ht.here.derived.eq_token (by rw [hrt]; rfl)
      rw [htok, hrt]
      exact ih hmore hrts (fun _ => .inl rfl) hbody
    · have hname (ha : anonymous = false) := coming_of_ne (hn ha) (by rw [hrt]; decide)
      have hbody := coming_of_ne hb (by rw [hrt]; decide)
      obtain ⟨_, _, _, rfl, -, -⟩ := Tree.Builds.phrase ht hrt rfl
      exact ih hmore hrts hname hbody
    · have hname (ha : anonymous = false) := coming_of_ne (hn ha) (by rw [hrt]; decide)
      obtain ⟨_, _, parts, rfl, hp, hparts⟩ := Tree.Builds.phrase ht hrt rfl
      exact .bind (Stmt.ofTrees_block hparts hp) fun ss _ => ih hmore hrts hname (.inl rfl)

/-- The parts of a function give a function. -/
theorem FunctionDef.ofParts_parts {q : Pattern} {parts : List Tree} (hparts : AllBuild text parts)
    (h : (Pattern.all (.rule .kwFunction) [q, .parens (.opt (.rule .paramList)), .rule .block]).Derives parts)
    (hq : q.mentioned ⊆ [.identifier]) {anonymous : Bool} (hn : anonymous = false → q = .rule .identifier) (span : Span) :
    Regular (FunctionDef.ofParts text span anonymous none [] none parts) := by
  obtain ⟨kw, names, params, block, rfl, hkw, hnames, hparams, hblock⟩ := function_parts h
  have hparam : ∀ t ∈ params, t.rule = .paramList := hparams.rule_eq (List.Subset.refl _)
  refine FunctionDef.ofParts_regular hparts (fun t ht => ?_) span (fun ha => ?_) (.inr ⟨block, by simp, hblock⟩)
  case refine_2 =>
    rw [hn ha] at hnames
    obtain ⟨name, rfl, hname⟩ := hnames.of_rule
    exact .inr ⟨name, by simp, hname⟩
  simp only [List.mem_cons, List.mem_append, List.not_mem_nil, or_false] at ht
  rcases ht with rfl | ht | ht | rfl
  · simp [hkw]
  · simp [hnames.rule_eq hq t ht]
  · simp [hparam t ht]
  · simp [hblock]

/-! ## Declarations -/

theorem Declarator.ofTrees_regular {ts : List Tree} (hts : AllBuild text ts) (hr : ∀ t ∈ ts, t.rule = .declarator)
    (kind : VarKind) : Regular (Declarator.ofTrees text kind ts) := by
  induction ts with
  | nil => exact .ok _
  | cons t ts ih =>
    obtain ⟨ht, hmore⟩ := List.forall_mem_cons.1 hts
    obtain ⟨hrt, hrts⟩ := List.forall_mem_cons.1 hr
    obtain ⟨start, stop, _, rfl, hp, hparts⟩ := Tree.Builds.phrase ht hrt rfl
    obtain ⟨name, _, rfl, -, hinit⟩ := hp.of_rule_seq
    rcases hinit.of_opt with rfl | hinit
    · rw [Declarator.ofTrees]
      dsimp only
      split
      · exact .refusal rfl
      · exact .bind (ih hmore hrts) fun ds _ => .ok _
    · obtain ⟨init, rfl, hi⟩ := hinit.behind_text.of_rule
      have hexpr := (hparts init (by simp)).here.expr (by rw [hi]; rfl)
      exact .bind hexpr fun e _ => .bind (ih hmore hrts) fun ds _ => .ok _

/-- The parts of a declaration give its kind and its entries. -/
theorem declaration_parts {t : Tree} (ht : t.Everywhere (Tree.Builds text)) (hr : t.rule = .declaration) :
    ∃ start stop parts, t = .phrase .declaration start stop parts ∧
      ∀ span, Regular (Declarator.ofParts text span parts) := by
  obtain ⟨start, stop, _, rfl, hp, hparts⟩ := Tree.Builds.phrase ht hr rfl
  obtain ⟨word, entries, rfl, hword, hentries⟩ := hp.of_rule_seq
  obtain ⟨hw, hes⟩ := List.forall_mem_cons.1 hparts
  obtain ⟨kind, hkind⟩ := VarKind.ofKeyword?_derived hw.here.derived hword
  refine ⟨start, stop, word :: entries, rfl, fun span => ?_⟩
  rw [Declarator.ofParts, hkind]
  exact .bind (Declarator.ofTrees_regular hes hentries.of_commaList kind) fun _ _ => .ok _

/-! ## Loops -/

theorem ForInit.ofParts_regular {parts : List Tree} (hparts : AllBuild text parts)
    (hp : (Pattern.alt (.rule .declaration) (.rule .expression)).Derives parts) (span : Span) :
    Regular (ForInit.ofParts text span parts) := by
  rcases hp.of_alt with hp | hp
  · obtain ⟨d, rfl, hd⟩ := hp.of_rule
    obtain ⟨_, _, _, rfl, hentries⟩ := declaration_parts (hparts d (by simp)) hd
    exact .bind (hentries _) fun _ _ => .ok _
  · obtain ⟨e, rfl, he⟩ := hp.of_rule
    have hexpr := (hparts e (by simp)).here.expr (by rw [he]; rfl)
    obtain ⟨_, _, _, rfl, -, -⟩ := Tree.Builds.phrase (hparts e (by simp)) he rfl
    exact .bind hexpr fun _ _ => .ok _

/-- A test or an update of a loop. -/
theorem Expr.ofFirst_regular {parts : List Tree} (hparts : AllBuild text parts)
    (hp : (Pattern.rule .expression).Derives parts) (part : Constituent) (span : Span) :
    Regular (Expr.ofFirst text part span parts) := by
  obtain ⟨e, rfl, he⟩ := hp.of_rule
  exact (hparts e (by simp)).here.expr (by rw [he]; rfl)

/-- The header of a loop and its body. -/
theorem Stmt.ofForParts_regular {ts : List Tree} {last : Tree} (hts : AllBuild text ts)
    (hr : ∀ t ∈ ts, t.rule ∈ [.kwFor, .forInit, .forTest, .forUpdate]) (hlast : last.Everywhere (Tree.Builds text))
    (hb : last.rule = .statement) (span : Span) {init : Option ForInit} {test update : Option Expr} {body : Option Stmt} :
    Regular (Stmt.ofForParts text span init test update body (ts ++ [last])) := by
  induction ts generalizing init test update with
  | nil =>
    have hstmt := hlast.here.stmt (by rw [hb]; rfl)
    obtain ⟨_, _, _, rfl, -, -⟩ := Tree.Builds.phrase hlast hb rfl
    exact .bind hstmt fun s _ => .ok _
  | cons t ts ih =>
    obtain ⟨ht, hmore⟩ := List.forall_mem_cons.1 hts
    obtain ⟨hrt, hrts⟩ := List.forall_mem_cons.1 hr
    simp only [List.mem_cons, List.not_mem_nil, or_false] at hrt
    rcases hrt with hrt | hrt | hrt | hrt
    · rw [List.cons_append, Stmt.ofForParts_of_isKeyword (by rw [hrt]; rfl)]
      exact ih hmore hrts
    · obtain ⟨_, _, _, rfl, hp, hparts⟩ := Tree.Builds.phrase ht hrt rfl
      exact .bind (ForInit.ofParts_regular hparts hp _) fun _ _ => ih hmore hrts
    · obtain ⟨_, _, _, rfl, hp, hparts⟩ := Tree.Builds.phrase ht hrt rfl
      exact .bind (Expr.ofFirst_regular hparts hp _ _) fun _ _ => ih hmore hrts
    · obtain ⟨_, _, _, rfl, hp, hparts⟩ := Tree.Builds.phrase ht hrt rfl
      exact .bind (Expr.ofFirst_regular hparts hp _ _) fun _ _ => ih hmore hrts

theorem Stmt.ofForParts_forStmt {start stop : Nat} {parts : List Tree}
    (ht : Tree.Derived (.phrase .forStmt start stop parts)) (hparts : AllBuild text parts) (span : Span) :
    Regular (Stmt.ofForParts text span none none none none parts) := by
  obtain ⟨kw, inits, tests, updates, body, rfl, hkw, hinits, htests, hupdates, hbody⟩ := forStmt_parts ht
  have hrules {r : Rule} {ts : List Tree} (h : (Pattern.opt (.rule r)).Derives ts) : ∀ t ∈ ts, t.rule = r :=
    h.rule_eq (List.Subset.refl _)
  have hlist : kw :: (inits ++ (tests ++ (updates ++ [body]))) = kw :: (inits ++ (tests ++ updates)) ++ [body] := by
    simp
  rw [hlist] at hparts ⊢
  obtain ⟨hheader, hlast⟩ := List.forall_mem_append.1 hparts
  refine Stmt.ofForParts_regular hheader (fun t ht => ?_) (hlast body (by simp)) hbody span
  simp only [List.mem_cons, List.mem_append] at ht
  rcases ht with rfl | ht | ht | ht
  · simp [hkw]
  · simp [hrules hinits t ht]
  · simp [hrules htests t ht]
  · simp [hrules hupdates t ht]

/-! ## Phrases -/

/-- A choice between rules of expressions. -/
theorem Expr.ofTree_choice {p : Pattern} {parts : List Tree} (hparts : AllBuild text parts) (hp : p.Derives parts)
    (hchoice : p.isChoice) (hall : p.choices.all Rule.isExpression) : ∃ t, parts = [t] ∧ Regular (Expr.ofTree text t) := by
  obtain ⟨t, rfl, ht⟩ := hp.of_choice hchoice
  exact ⟨t, rfl, (hparts t (by simp)).here.expr (List.all_eq_true.1 hall _ ht)⟩

/-- Operands and operators of one level. -/
theorem Expr.ofTree_chain {operand operator : Rule} {parts : List Tree} (hparts : AllBuild text parts)
    (hp : (Pattern.chain operand operator).Derives parts) (ho : operand.isExpression) (hop : operator ∈ Rule.joining)
    (span : Span) : ∃ t rest, parts = t :: rest ∧ Regular (do Expr.ofChain text span (← Expr.ofTree text t) rest) := by
  obtain ⟨t, rest, rfl, ht, hrest⟩ := hp.of_chain
  obtain ⟨hfirst, hmore⟩ := List.forall_mem_cons.1 hparts
  exact ⟨t, rest, rfl, .bind (hfirst.here.expr (ht ▸ ho)) fun left _ => Expr.ofChain_regular hrest ho hop hmore span left⟩

theorem Expr.ofPhrase_regular {r : Rule} {p : Pattern} {parts : List Tree} (hr : r.isExpression) (hf : r ≠ .functionExpr)
    (hdef : r.definition = .phrase p) (hp : p.Derives parts) (hparts : AllBuild text parts) (span : Span) :
    Regular (Expr.ofPhrase text r span parts) := by
  have hexpr {t : Tree} {s : Rule} (ht : t ∈ parts) (hs : t.rule = s) (he : s.isExpression) : Regular (Expr.ofTree text t) :=
    (hparts t ht).here.expr (hs ▸ he)
  cases r with
  | expression | assignment | primary | literal =>
    cases hdef
    obtain ⟨t, rfl, ht⟩ := Expr.ofTree_choice hparts hp rfl (by decide)
    exact ht
  | parenExpr =>
    cases hdef
    obtain ⟨t, rfl, ht⟩ := Expr.ofTree_choice hparts hp.of_parens rfl (by decide)
    exact ht
  | assignExpr =>
    cases hdef
    obtain ⟨target, _, rfl, ht, hp⟩ := hp.of_rule_seq
    obtain ⟨op, _, rfl, hop, hp⟩ := hp.of_rule_seq
    obtain ⟨value, rfl, hv⟩ := hp.of_rule
    obtain ⟨b, hb⟩ := AssignOp.ofSymbol?_derived (hparts op (by simp)).here.derived hop
    refine .bind (hexpr (by simp) ht rfl) fun e _ => ?_
    dsimp only
    split
    · exact .refusal rfl
    · rw [Expr.ofAssigned, hb]
      exact .bind (hexpr (by simp) hv rfl) fun v _ => .ok _
  | arrowFunction =>
    cases hdef
    obtain ⟨params, _, rfl, -, hp⟩ := hp.of_rule_seq
    obtain ⟨body, rfl, hb⟩ := hp.behind_text.of_rule
    obtain ⟨_, _, _, rfl, hbody, hbuild⟩ := Tree.Builds.phrase (hparts body (by simp)) hb rfl
    rcases hbody.of_alt with hbody | hbody
    · obtain ⟨block, rfl, hblock⟩ := hbody.of_rule
      obtain ⟨_, _, _, rfl, hstatements, hall⟩ := Tree.Builds.phrase (hbuild block (by simp)) hblock rfl
      exact .bind (Stmt.ofTrees_block hall hstatements) fun ss _ => .ok _
    · obtain ⟨value, rfl, hv⟩ := hbody.of_rule
      have hvalue := (hbuild value (by simp)).here.expr (by rw [hv]; rfl)
      obtain ⟨_, _, _, rfl, -, -⟩ := Tree.Builds.phrase (hbuild value (by simp)) hv rfl
      exact .bind hvalue fun e _ => .ok _
  | ternaryExpr =>
    cases hdef
    obtain ⟨condition, _, rfl, hc, hp⟩ := hp.of_rule_seq
    rcases hp.of_opt with rfl | hp
    · exact .bind (hexpr (by simp) hc rfl) fun _ _ => .ok _
    · obtain ⟨consequent, _, rfl, hq, hp⟩ := hp.behind_text.of_rule_seq
      obtain ⟨alternate, rfl, ha⟩ := hp.behind_text.of_rule
      exact .bind (hexpr (by simp) hc rfl) fun _ _ => .bind (hexpr (by simp) hq rfl) fun _ _ =>
        .bind (hexpr (by simp) ha rfl) fun _ _ => .ok _
  | logicalOrExpr | logicalAndExpr | equalityExpr | comparisonExpr | additiveExpr | multiplicativeExpr =>
    cases hdef
    obtain ⟨t, rest, rfl, h⟩ := Expr.ofTree_chain hparts hp rfl (by decide) span
    exact h
  | unaryExpr =>
    cases hdef
    rcases hp.of_alt with hp | hp
    · obtain ⟨op, _, rfl, hop, hp⟩ := hp.of_rule_seq
      obtain ⟨arg, rfl, ha⟩ := hp.of_rule
      have harg := hexpr (by simp) ha rfl
      obtain ⟨_, _, _, _, _, htok, -⟩ := (hparts op (by simp)).here.derived.eq_token (by rw [hop]; rfl)
      rw [htok, hop]
      exact .bind harg fun _ _ => .ok _
    · rcases hp.of_alt with hp | hp
      · obtain ⟨t, rfl, ht⟩ := hp.of_rule
        have hread := hexpr (by simp) ht rfl
        obtain ⟨_, _, _, rfl, -⟩ := Tree.Builds.phrase (hparts t (by simp)) ht rfl
        exact hread
      · obtain ⟨t, rfl, ht⟩ := hp.of_rule
        have hread := hexpr (by simp) ht rfl
        obtain ⟨_, _, _, rfl, -⟩ := Tree.Builds.phrase (hparts t (by simp)) ht rfl
        exact hread
  | updateBefore =>
    cases hdef
    obtain ⟨op, _, rfl, -, hp⟩ := hp.of_rule_seq
    obtain ⟨arg, rfl, ha⟩ := hp.of_rule
    exact .bind (hexpr (by simp) ha rfl) fun _ _ => .ok _
  | updateAfter =>
    cases hdef
    obtain ⟨arg, _, rfl, ha, hp⟩ := hp.of_rule_seq
    rcases hp.of_opt_rule with rfl | ⟨op, rfl, -⟩
    · exact hexpr (by simp) ha rfl
    · exact .bind (hexpr (by simp) ha rfl) fun _ _ => .ok _
  | callExpr =>
    cases hdef
    obtain ⟨t, accessors, rfl, ht, hp⟩ := hp.of_rule_seq
    have hmore := (List.forall_mem_cons.1 hparts).2
    exact .bind (hexpr (by simp) ht rfl) fun e _ =>
      Expr.ofAccessors_regular hmore (hp.rule_eq (List.Subset.refl _)) span e
  | arrayLit | objectLit => rw [Expr.ofPhrase]; exact .ok _
  | functionExpr => exact absurd rfl hf
  | identifier | number | string | boolean | nullLit => cases hdef
  | _ => cases hr

theorem Stmt.ofPhrase_regular {r : Rule} {p : Pattern} {parts : List Tree} (hr : r.isStatement)
    (hf : r ≠ .functionDecl ∧ r ≠ .forStmt ∧ r ≠ .block) (hdef : r.definition = .phrase p) (hp : p.Derives parts)
    (hparts : AllBuild text parts) (span : Span) : Regular (Stmt.ofPhrase text r span parts) := by
  have hexpr {t : Tree} {s : Rule} (ht : t ∈ parts) (hs : t.rule = s) (he : s.isExpression) : Regular (Expr.ofTree text t) :=
    (hparts t ht).here.expr (hs ▸ he)
  have hstmt {t : Tree} (ht : t ∈ parts) (hs : t.rule = .statement) : Regular (Stmt.ofTree text t) :=
    (hparts t ht).here.stmt (by rw [hs]; rfl)
  cases r with
  | statement =>
    cases hdef
    obtain ⟨t, rfl, ht⟩ := hp.of_choice rfl
    exact (hparts t (by simp)).here.stmt ((List.all_eq_true (p := Rule.isStatement)).1 (by decide) _ ht)
  | declareStmt =>
    cases hdef
    obtain ⟨d, _, rfl, hd, hp⟩ := hp.of_rule_seq
    cases hp.of_opt_text
    obtain ⟨_, _, _, rfl, hentries⟩ := declaration_parts (hparts d (by simp)) hd
    exact .bind (hentries _) fun _ _ => .ok _
  | ifStmt =>
    cases hdef
    obtain ⟨kw, _, rfl, -, hp⟩ := hp.of_rule_seq
    obtain ⟨_, _, rfl, htest, hbranches⟩ := hp.of_seq
    obtain ⟨test, rfl, ht⟩ := htest.of_parens.of_rule
    obtain ⟨thenS, _, rfl, hthen, helse⟩ := hbranches.of_rule_seq
    rcases helse.of_opt_rule with rfl | ⟨clause, rfl, hclause⟩
    · exact .bind (hexpr (by simp) ht rfl) fun _ _ => .bind (hstmt (by simp) hthen) fun _ _ => .ok _
    · have htest := hexpr (by simp) ht rfl
      have hthen := hstmt (by simp) hthen
      obtain ⟨_, _, _, rfl, hp, hall⟩ := Tree.Builds.phrase (hparts clause (by simp)) hclause rfl
      obtain ⟨kw', _, rfl, -, hp⟩ := hp.of_rule_seq
      obtain ⟨elseS, rfl, hs⟩ := hp.of_rule
      have hother := (hall elseS (by simp)).here.stmt (by rw [hs]; rfl)
      exact .bind htest fun _ _ => .bind hthen fun _ _ => .bind hother fun _ _ => .ok _
  | whileStmt | breakStmt | continueStmt | emptyStmt => rw [Stmt.ofPhrase]; exact .ok _
  | returnStmt =>
    cases hdef
    obtain ⟨kw, _, rfl, -, hp⟩ := hp.of_rule_seq
    obtain ⟨values, _, rfl, hvalues, hmark⟩ := hp.of_seq
    cases hmark.of_opt_text
    rcases hvalues.of_opt_rule with rfl | ⟨value, rfl, hv⟩
    · exact .ok _
    · exact .bind (hexpr (by simp) hv rfl) fun _ _ => .ok _
  | exprStmt =>
    cases hdef
    obtain ⟨e, _, rfl, he, hp⟩ := hp.of_rule_seq
    cases hp.of_opt_text
    exact .bind (hexpr (by simp) he rfl) fun _ _ => .ok _
  | functionDecl => exact absurd rfl hf.1
  | forStmt => exact absurd rfl hf.2.1
  | block => exact absurd rfl hf.2.2
  | _ => cases hr

/-! ## Trees -/

theorem Expr.ofTree_regular {r : Rule} {start stop : Nat} {parts : List Tree} (hr : r.isExpression)
    (ht : Tree.Derived (.phrase r start stop parts)) (hparts : AllBuild text parts) :
    Regular (Expr.ofTree text (.phrase r start stop parts)) := by
  obtain ⟨p, hdef, hp⟩ := ht.parts
  by_cases hf : r = .functionExpr
  · subst hf
    cases hdef
    have hfunction : Regular (FunctionDef.ofParts text (.ofOffsets text start stop) true none [] none parts) :=
      FunctionDef.ofParts_parts hparts hp (List.Subset.refl _) (by nofun) _
    exact .bind hfunction fun fn _ => .ok _
  · have hphrase := Expr.ofPhrase_regular hr hf hdef hp hparts (.ofOffsets text start stop)
    unfold Expr.ofTree
    split
    · next heq => cases heq
    · next heq => cases heq; exact absurd rfl hf
    · next heq => cases heq; exact hphrase

theorem Stmt.ofTree_regular {r : Rule} {start stop : Nat} {parts : List Tree} (hr : r.isStatement)
    (ht : Tree.Derived (.phrase r start stop parts)) (hparts : AllBuild text parts) :
    Regular (Stmt.ofTree text (.phrase r start stop parts)) := by
  obtain ⟨p, hdef, hp⟩ := ht.parts
  unfold Stmt.ofTree
  split
  · next heq => cases heq
  · next heq =>
    cases heq
    cases hdef
    -- The grammar asks for the name.
    exact .bind (FunctionDef.ofParts_parts hparts hp (List.Subset.refl _) (fun _ => rfl) _) fun fn _ => .ok _
  · next heq => cases heq; exact Stmt.ofForParts_forStmt ht hparts _
  · next heq =>
    cases heq
    cases hdef
    exact .bind (Stmt.ofTrees_block hparts hp) fun ss _ => .ok _
  · next hfunction hloop hblock heq =>
    cases heq
    exact Stmt.ofPhrase_regular hr ⟨hfunction, hloop, hblock⟩ hdef hp hparts _

/-- **Derived trees** are read without internal errors. -/
theorem Tree.Derived.builds {t : Tree} (ht : t.Derived) : t.Everywhere (Tree.Builds text) := by
  have hall := ht.everywhere
  clear ht
  induction hall with
  | @token r start stop l h =>
    refine .token ⟨h, fun hr => Expr.ofToken_regular h hr, fun hr => ?_⟩
    replace hr : r.isStatement = true := hr
    obtain ⟨scan, cs, rest, hdef, -⟩ := h.lexeme
    cases r <;> first | exact absurd hr (by decide) | exact nomatch hdef
  | @phrase r start stop parts h _ ih =>
    exact .phrase ⟨h, fun hr => Expr.ofTree_regular hr h ih, fun hr => Stmt.ofTree_regular hr h ih⟩ ih

theorem Program.ofTree_regular {t : Tree} (ht : t.Derived) : Regular (Program.ofTree text t) := by
  have hparts : AllBuild text t.parts := ht.builds.inside
  refine .bind (Stmt.ofTrees_regular (fun t ht => hparts t (List.mem_filter.1 ht).1) fun t ht => ?_) fun ss _ => .ok _
  have hstatement : t.rule = .statement := by simpa using (List.mem_filter.1 ht).2
  rw [hstatement]
  rfl

end

/-- Reading a text gives a script, or the text leaves the grammar, or it follows the grammar and is refused: a constant has
no initializer, or the target of an assignment is neither a name nor a member. -/
theorem Program.parse_outcome (source : String) :
    (∃ p, Program.parse source = .ok p) ∨
    (∃ expected position, Program.parse source = .error (.unexpected expected position)) ∨
    (∃ name span, Program.parse source = .error (.build (.missingInitializer name span)) ∧
      (BuildError.missingInitializer name span).message = s!"Missing initializer in const declaration of '{name}'") ∨
    ∃ span, Program.parse source = .error (.build (.invalidTarget span)) ∧
      (BuildError.invalidTarget span).message = "Invalid left-hand side in assignment" := by
  unfold Program.parse Program.ofChars
  cases htree : Tree.ofText source.toList with
  | error a => exact .inr (.inl ⟨_, _, rfl⟩)
  | ok ts =>
    obtain ⟨t, rfl, -, hderived⟩ := Tree.ofText_derived htree
    have hregular : Regular (Program.ofTree source.toList t) := Program.ofTree_regular hderived
    dsimp only [Program.ofTrees]
    cases hp : Program.ofTree source.toList t with
    | ok p => exact .inl ⟨p, rfl⟩
    | error fault =>
      have hrefusal := hregular fault hp
      cases fault with
      | missingInitializer name span => exact .inr (.inr (.inl ⟨name, span, rfl, rfl⟩))
      | invalidTarget span => exact .inr (.inr (.inr ⟨span, rfl, rfl⟩))
      | _ => cases hrefusal

end Stepwise
