import Stepwise.Proofs.Syntax.RoundTrip

/-!
# Words are names or reserved

A word is either reserved or a name (`Scanner.IsWord.isIdentifier_iff`), and the grammar tells the two apart by the whole
word, never by what it starts with:

* by itself a name is an expression (`isSingle_name`), and only a name is read as one (`isIdentifier_of_isSingle`);
* after `let` a name is declared (`isSingle_let`), and a reserved word makes no script (`parse_let_reserved`);
* after a point every word names a member (`isSingle_member`).

`Program.words_read` puts these together.
-/

namespace Stepwise

open Pattern (Gives Fails)

/-- What is no name is reserved. -/
theorem Scanner.IsWord.isIdentifier_iff {w : String} (h : Scanner.IsWord w.toList) :
    Scanner.IsIdentifier w.toList ↔ w ∉ Scanner.reserved := by
  constructor
  · exact fun hname hreserved => hname.ne hreserved rfl
  · intro hfree
    refine ⟨h, ?_⟩
    rw [Bool.not_eq_true', Bool.eq_false_iff]
    intro hany
    obtain ⟨v, hv, heq⟩ := List.any_eq_true.1 hany
    rw [String.toList_inj.1 (eq_of_beq heq)] at hv
    exact hfree hv

/-- The reserved words are tried in order, and the end of the word is looked for after the first that fits. -/
theorem Scanner.IsWord.orderedWord_eq_none_iff {w : String} (h : Scanner.IsWord w.toList) :
    Scanner.orderedWord Scanner.reserved w.toList = none ↔ w ∉ Scanner.reserved := by
  have hscan : Scanner.keyword Scanner.reserved (w.toList ++ []) = _ := Scanner.keyword_append h.2 rfl
  rw [List.append_nil, Scanner.keyword_reserved] at hscan
  rw [hscan, ← h.isIdentifier_iff]
  constructor
  · intro hnone
    exact ⟨h, by simpa using hnone⟩
  · intro hname
    have hany := hname.2
    simpa using hany

/-! ## Statements of one word -/

namespace Stmt

/-- The statement is the expression that reads the name. -/
def IsName (name : String) (s : Stmt) : Prop := ∃ u v, s = .expr (.ident name u) v

/-- The statement declares the name by `let`, without a value, and nothing else. -/
def IsLet (name : String) (s : Stmt) : Prop := ∃ u v, s = .declare .let [.mk name none u] v

/-- The statement is the access by name to a member of a variable. -/
def IsMember (object name : String) (s : Stmt) : Prop := ∃ t u v, s = .expr (.member (.ident object t) (.fixed name) u) v

end Stmt

theorem Expr.shape_eq_ident {e : Expr} {name : String} (h : e.shape = .ident name .zero) : ∃ s, e = .ident name s := by
  cases e with
  | ident name' s => exact ⟨s, by rw [shape] at h; cases h; rfl⟩
  | _ => rw [shape] at h; cases h

theorem Expr.shape_eq_member {e object : Expr} {name : String} (h : e.shape = .member object (.fixed name) .zero) :
    ∃ o s, e = .member o (.fixed name) s ∧ o.shape = object := by
  cases e with
  | member o key s =>
    rw [shape] at h
    cases key with
    | fixed name' => rw [MemberKey.shape] at h; cases h; exact ⟨o, s, rfl, rfl⟩
    | computed e => rw [MemberKey.shape] at h; cases h
  | _ => rw [shape] at h; cases h

/-! ## Names and members -/

theorem isSingle_name {name : String} (h : Scanner.IsIdentifier name.toList) :
    Program.IsSingle name (Stmt.IsName name) := by
  have hlegible : (Expr.ident name .zero).Legible := .ident h
  have hsingle := hlegible.isSingle rfl
  rw [show (Expr.ident name .zero).render = name from String.ofList_toList] at hsingle
  refine hsingle.mono ?_
  rintro _ ⟨e, span, rfl, hshape⟩
  obtain ⟨s, rfl⟩ := Expr.shape_eq_ident hshape
  exact ⟨s, span, rfl⟩

/-- What is read as a name is one. -/
theorem isIdentifier_of_isSingle {source name : String} (h : Program.IsSingle source (Stmt.IsName name)) :
    Scanner.IsIdentifier name.toList := by
  obtain ⟨_, covered, span, hparse, u, v, rfl⟩ := h
  have hexpr : Expr.parse source = .ok (.ident name u) := bind_of_ok hparse
  exact Expr.parse_proper hexpr

theorem isSingle_member {object name : String} (ho : Scanner.IsIdentifier object.toList)
    (h : Scanner.IsWord name.toList) : Program.IsSingle (object ++ "." ++ name) (Stmt.IsMember object name) := by
  have hlegible : (Expr.member (.ident object .zero) (.fixed name) .zero).Legible :=
    .fixed (.ident ho) (fun hdigits => by cases hdigits) h
  have hsingle := hlegible.isSingle rfl
  have htext : (Expr.member (.ident object .zero) (.fixed name) .zero).render = object ++ "." ++ name := by
    apply String.toList_inj.1
    simp [Expr.render, Expr.chars, MemberKey.chars, parenthesized, Expr.precedence]
  rw [htext] at hsingle
  refine hsingle.mono ?_
  rintro _ ⟨e, span, rfl, hshape⟩
  obtain ⟨o, u, rfl, ho⟩ := Expr.shape_eq_member hshape
  obtain ⟨t, rfl⟩ := Expr.shape_eq_ident ho
  exact ⟨t, u, span, rfl⟩

/-! ## Declarations -/

section

variable (cs : List Char)

/-- The word `let` ends before a blank. -/
theorem apart_blank : Apart (' ' :: cs) := rfl

/-- No other keyword is found where `let` stands. -/
theorem let_keyword_eq_none {words : List String} (h : "let" ∉ words) :
    Scanner.keyword words ("let".toList ++ ' ' :: cs) = none := by
  refine Scanner.keyword_eq_none fun w hw heq => ?_
  rw [Scanner.word_append_apart (by decide) (apart_blank cs)] at heq
  rw [String.toList_inj.1 heq] at hw
  exact h hw

theorem let_gives : Gives Rule.varKind ("let".toList ++ ' ' :: cs)
    (fun ts => ∃ start stop, ts = [.token .varKind start stop "let".toList]) (' ' :: cs) := by
  refine .token rfl ?_
  rw [Scanner.keyword_append (by decide) (apart_blank cs), if_pos (by decide)]

/-- No expression starts with `let`. -/
theorem let_assignment_fails : Fails Rule.assignment ("let".toList ++ ' ' :: cs) := by
  have hidentifier : Fails Rule.identifier ("let".toList ++ ' ' :: cs) :=
    .token rfl (Scanner.identifier_reserved (by decide) (apart_blank cs))
  have hparen : Fails (.text "(") ("let".toList ++ ' ' :: cs) := .punctuation rfl (by decide) _
  have hwords : ∀ w ∈ literalWords, w.toList ≠ (Scanner.word ("let".toList ++ ' ' :: cs)).1 := by
    have hother : ∀ w ∈ literalWords, w.toList ≠ "let".toList := by decide
    rwa [Scanner.word_append_apart (by decide) (apart_blank cs)]
  refine assignment_fails ?_ (.token rfl ?_) (.token rfl rfl) ?_
  · exact .phrase rfl (.seq_left (.phrase rfl (.alt hidentifier (.seq_left hparen))))
  · rw [Scanner.unaryOp]
    refine Scanner.firstOf_eq_none.2 fun scan hscan => ?_
    simp only [List.mem_cons, List.not_mem_nil, or_false] at hscan
    rcases hscan with rfl | rfl | rfl | rfl
    · rfl
    · rfl
    · rfl
    · exact let_keyword_eq_none cs (by decide)
  · exact primary_fails rfl hwords (.alt hidentifier (.phrase rfl (.seq_left hparen)))

/-- After `let` there must be an entry. -/
theorem let_statement_fails (h : Fails Rule.declarator (skipped cs)) :
    Fails Rule.statement ("let".toList ++ ' ' :: cs) := by
  have hdeclaration : Fails Rule.declaration ("let".toList ++ ' ' :: cs) := by
    have hskipped : skipped (' ' :: cs) = skipped cs := rfl
    refine .phrase rfl (.seq_right (let_gives cs) (.seq_left ?_))
    rwa [hskipped]
  have hcontrol : ∀ w ∈ controlWords, "let" ∉ [w] := by decide
  have honly : OnlyExpr ("let".toList ++ ' ' :: cs) :=
    .of_keywords (fun w hw => let_keyword_eq_none cs (hcontrol w hw)) hdeclaration (.punctuation rfl (by decide) _)
      (.punctuation rfl (by decide) _)
  exact honly.fails (.phrase rfl (.seq_left (.phrase rfl (let_assignment_fails cs))))

end

/-- A single entry of a declaration, with the name and without a value. -/
def IsEntry (name : String) (ts : List Tree) : Prop :=
  ∃ start stop start' stop', ts = [.phrase .declarator start stop [.token .identifier start' stop' name.toList]]

theorem declarator_gives {name : String} (h : Scanner.IsIdentifier name.toList) :
    Gives Rule.declarator name.toList (IsEntry name) [] := by
  have hscan : Scanner.identifier (name.toList ++ []) = some (name.toList, []) := Scanner.identifier_append h rfl
  rw [List.append_nil] at hscan
  refine (Gives.phrase rfl ((Gives.token rfl hscan).seq_absent (.nil rfl))).mono ?_
  rintro _ ⟨start, stop, _, ⟨start', stop', rfl⟩, rfl⟩
  exact ⟨start, stop, start', stop', rfl⟩

/-- An entry without a value, in a declaration by `let`. -/
theorem IsEntry.ofTrees {name : String} {ts : List Tree} (h : IsEntry name ts) (text : List Char) :
    ∃ span, Declarator.ofTrees text .let ts = .ok [.mk name none span] := by
  obtain ⟨start, stop, start', stop', rfl⟩ := h
  refine ⟨.ofOffsets text start stop, ?_⟩
  show Except.ok [Declarator.mk (String.ofList name.toList) none (.ofOffsets text start stop)] = _
  rw [String.ofList_toList]

theorem let_statement_gives {name : String} (h : Scanner.IsIdentifier name.toList) :
    Gives Rule.statement ("let".toList ++ ' ' :: name.toList) (FormsStatement (Succeeds (Stmt.IsLet name))) [] := by
  have hfunction : Fails Rule.functionDecl ("let".toList ++ ' ' :: name.toList) :=
    .phrase rfl (.seq_left (.token rfl (let_keyword_eq_none _ (by decide))))
  have hentry := declarator_gives h
  rw [← h.1.starts.skipped] at hentry
  have hentries := hentry.series.gives (q := .seq (.text ",") Rule.declarator) rfl (.nil rfl)
  have hdeclaration : Gives Rule.declaration _ _ _ := .phrase rfl ((let_gives name.toList).seq hentries)
  have hdeclare : Gives Rule.declareStmt _ _ _ := .phrase rfl (hdeclaration.seq_absent (.nil rfl))
  refine (Gives.phrase rfl (.right hfunction (.left hdeclare))).mono ?_
  rintro _ ⟨start, stop, _, ⟨start', stop', _, ⟨_, _, _, ⟨_, _, ⟨_, _, rfl⟩, ⟨entries, _, ⟨hentries, rfl⟩, rfl⟩, rfl⟩, rfl⟩,
    rfl⟩, rfl⟩
  refine ⟨_, rfl, rfl, fun text => ?_⟩
  obtain ⟨span, hdecls⟩ := hentries.ofTrees text
  have hparts (covered : Span) (start stop : Nat) : Declarator.ofParts text covered
      ([.token .varKind start stop "let".toList] ++ entries) = .ok (.let, [.mk name none span]) := bind_of_ok hdecls
  rw [List.append_nil]
  exact ⟨_, bind_of_ok (hparts ..), span, .ofOffsets text start' stop', rfl⟩

theorem isSingle_let {name : String} (h : Scanner.IsIdentifier name.toList) :
    Program.IsSingle ("let " ++ name) (Stmt.IsLet name) := by
  have htext : ("let " ++ name).toList = "let".toList ++ ' ' :: name.toList := by simp
  refine Program.isSingle_of_gives ?_ ?_
  · rw [htext]
    rfl
  · rw [htext]
    exact let_statement_gives h

/-! ## What is no script -/

theorem Program.ofChars_unexpected {text : List Char} {a : Attempts} (h : Tree.ofText text = .error a) :
    Program.ofChars text = .error (.unexpected a.expected (.ofOffset text a.offset)) := by
  unfold Program.ofChars
  rw [h]

theorem Program.parse_unexpected {source : String} (h : Fails Rule.program source.toList) :
    ∃ expected position, Program.parse source = .error (.unexpected expected position) := by
  cases htree : Tree.ofText source.toList with
  | ok t =>
    obtain ⟨c, hfind⟩ := Tree.ofText_eq_ok.1 htree
    have hnone : Rule.program.find ⟨0, source.toList⟩ = none := h 0
    rw [hnone] at hfind
    cases hfind
  | error a => exact ⟨_, _, Program.ofChars_unexpected htree⟩

/-- A text that starts with no statement, and with no layout, is no script. -/
theorem program_fails {cs : List Char} (hstarts : Starts cs) (h : Fails Rule.statement cs) : Fails Rule.program cs := by
  have hend : Fails Rule.endOfInput cs := by
    refine .token rfl ?_
    cases cs with
    | nil => cases hstarts
    | cons c cs => rfl
  refine .phrase rfl (.seq_right (Gives.text "" cs) ?_)
  rw [hstarts.skipped]
  refine .seq_right (Gives.never h) ?_
  rwa [hstarts.skipped]

/-- A reserved word is not declared. -/
theorem parse_let_reserved {w : String} (h : w ∈ Scanner.reserved) :
    ∃ expected position, Program.parse ("let " ++ w) = .error (.unexpected expected position) := by
  have htext : ("let " ++ w).toList = "let".toList ++ ' ' :: w.toList := by simp
  have hscan : Scanner.identifier (w.toList ++ []) = none := Scanner.identifier_reserved h rfl
  rw [List.append_nil] at hscan
  have hstarts : ∀ w ∈ Scanner.reserved, Starts w.toList := by decide
  have hentry : Fails Rule.declarator (skipped w.toList) := by
    rw [(hstarts w h).skipped]
    exact .phrase rfl (.seq_left (.token rfl hscan))
  refine Program.parse_unexpected ?_
  rw [htext]
  exact program_fails rfl (let_statement_fails w.toList hentry)

/-! ## Every word -/

/-- **Words are split into names and reserved words exactly.** The rule for reserved words, which tries them in order and
looks ahead for the end of the word, takes no other word. By itself a word is read as the expression of that name, and
after `let` as the declaration of that name alone, if and only if it is not reserved; a reserved word after `let` is
outside the grammar. After a point any word is the name of a member. -/
theorem Program.words_read {w : String} (hw : Scanner.IsWord w.toList) :
    (Scanner.orderedWord Scanner.reserved w.toList = none ↔ w ∉ Scanner.reserved) ∧
    (Program.IsSingle w (Stmt.IsName w) ↔ w ∉ Scanner.reserved) ∧
    (Program.IsSingle ("let " ++ w) (Stmt.IsLet w) ↔ w ∉ Scanner.reserved) ∧
    (w ∈ Scanner.reserved →
      ∃ expected position, Program.parse ("let " ++ w) = .error (.unexpected expected position)) ∧
    ∀ object : String, Scanner.IsIdentifier object.toList →
      Program.IsSingle (object ++ "." ++ w) (Stmt.IsMember object w) := by
  refine ⟨hw.orderedWord_eq_none_iff,
    ⟨fun h => hw.isIdentifier_iff.1 (isIdentifier_of_isSingle h), fun h => isSingle_name (hw.isIdentifier_iff.2 h)⟩,
    ⟨?_, fun h => isSingle_let (hw.isIdentifier_iff.2 h)⟩, parse_let_reserved, fun object ho => isSingle_member ho hw⟩
  rintro ⟨s, covered, span, hparse, -⟩ hreserved
  obtain ⟨expected, position, herror⟩ := parse_let_reserved hreserved
  rw [hparse] at herror
  cases herror

theorem Program.words_read_function :
    (Scanner.IsWord "functional".toList ∧ Scanner.orderedWord Scanner.reserved "functional".toList = none ∧
      Program.IsSingle "functional" (Stmt.IsName "functional") ∧
      Program.IsSingle ("let " ++ "functional") (Stmt.IsLet "functional")) ∧
    Scanner.IsWord "function".toList ∧ ¬ Program.IsSingle "function" (Stmt.IsName "function") ∧
      (∃ expected position, Program.parse ("let " ++ "function") = .error (.unexpected expected position)) ∧
      Program.IsSingle ("a" ++ "." ++ "function") (Stmt.IsMember "a" "function") := by
  obtain ⟨hfree, hname, hlet, -⟩ := Program.words_read (w := "functional") (by decide)
  obtain ⟨-, hname', -, herror, hmember⟩ := Program.words_read (w := "function") (by decide)
  exact ⟨⟨by decide, hfree.2 (by decide), hname.2 (by decide), hlet.2 (by decide)⟩, by decide,
    fun h => hname'.1 h (by decide), herror (by decide), hmember "a" (by decide)⟩

end Stepwise
