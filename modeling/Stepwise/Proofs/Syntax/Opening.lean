import Stepwise.Proofs.Grammar.Outcome
import Stepwise.Proofs.Grammar.Scanning
import Stepwise.Proofs.Syntax.Legible

/-!
# How the texts of expressions open

The grammar tries arrow functions and statements before expressions. Both are told from the first two tokens of a text,
and `Opening` lists the ways in which the text of an expression opens that is more than a name: with a symbol, with a
word that is no name, with a name that something joins, or with a parenthesis before such a text.

* **`Opening.arrow_fails`** and **`Opening.keyword_eq_none`**: no arrow function and no statement opens so.
* **`Expr.Legible.opening`**: the text of every legible expression but a name opens so.
-/

namespace Stepwise

/-! ## Layout and punctuation -/

theorem skipped_cons {c : Char} (hblank : Layout.isBlank c = false) (hslash : c ≠ '/') (cs : List Char) :
    skipped (c :: cs) = c :: cs := by
  simp [skipped, Layout.split, hblank, hslash]

/-- Whether an expression can start with the character. -/
def startsExpr (c : Char) : Bool := Scanner.isWordChar c || ['.', '"', '(', '!', '-', '+'].contains c

/-- The text starts like an expression, so no layout stands before it. -/
def Starts (cs : List Char) : Prop := cs.head?.any startsExpr = true

instance (cs : List Char) : Decidable (Starts cs) := inferInstanceAs (Decidable (_ = _))

theorem Starts.skipped {cs : List Char} (h : Starts cs) : skipped cs = cs := by
  cases cs with
  | nil => cases h
  | cons c cs =>
    have hc : startsExpr c = true := h
    refine skipped_cons (Bool.eq_false_iff.2 ?_) ?_ cs
    · intro hblank
      simp only [Layout.isBlank, Bool.or_eq_true, decide_eq_true_eq] at hblank
      rcases hblank with ((rfl | rfl) | rfl) | rfl <;> exact absurd hc (by decide)
    · rintro rfl
      exact absurd hc (by decide)

theorem Starts.append {cs : List Char} (h : Starts cs) (tail : List Char) : Starts (cs ++ tail) := by
  cases cs with
  | nil => cases h
  | cons c cs => exact h

theorem Pattern.Fails.punctuation {s : String} {a c : Char} (hs : s.toList.head? = some a) (hne : c ≠ a)
    (cs : List Char) : (Pattern.text s).Fails (c :: cs) := by
  apply Pattern.Fails.text
  cases hl : s.toList with
  | nil => rw [hl] at hs; cases hs
  | cons b l =>
    rw [hl] at hs
    cases hs
    simp [List.isPrefixOf?, Ne.symm hne]

/-- Punctuation that starts no expression. -/
theorem Starts.text_fails {cs : List Char} (h : Starts cs) {s : String} {a : Char} (hs : s.toList.head? = some a)
    (ha : startsExpr a = false) : (Pattern.text s).Fails cs := by
  cases cs with
  | nil => cases h
  | cons c cs =>
    refine Pattern.Fails.punctuation hs ?_ cs
    rintro rfl
    exact absurd h (Bool.eq_false_iff.1 ha)

/-! ## Openings -/

/-- What does not continue a word may follow the text. -/
def Parting (tail : List Char) : Prop := ∀ rest, Apart rest → Apart (tail ++ rest)

/-- The text joins the name before it to something larger: it is no arrow, no comma and no end of a list. -/
structure Joint (tail : List Char) : Prop where
  apart : ∀ rest, Apart (tail ++ rest)
  arrow : ∀ rest, "=>".toList.isPrefixOf? (skipped (tail ++ rest)) = none
  comma : ∀ rest, ",".toList.isPrefixOf? (skipped (tail ++ rest)) = none
  close : ∀ rest, ")".toList.isPrefixOf? (skipped (tail ++ rest)) = none

theorem Joint.parting {tail : List Char} (h : Joint tail) : Parting tail := fun rest _ => h.apart rest

theorem Joint.append {tail : List Char} (h : Joint tail) (more : List Char) : Joint (tail ++ more) where
  apart rest := by rw [List.append_assoc]; exact h.apart _
  arrow rest := by rw [List.append_assoc]; exact h.arrow _
  comma rest := by rw [List.append_assoc]; exact h.comma _
  close rest := by rw [List.append_assoc]; exact h.close _

/-- The words that start an expression and are no names. -/
def leadingWords : List String := ["true", "false", "null", "typeof"]

/-- How a text of an expression opens that is more than a name. -/
inductive Opening : List Char → Prop where
  | symbol {c : Char} {cs : List Char} : startsExpr c = true → Scanner.isWordStart c = false → c ≠ '(' →
      Opening (c :: cs)
  | word {w : String} {tail : List Char} : w ∈ leadingWords → Parting tail → Opening (w.toList ++ tail)
  | name {name tail : List Char} : Scanner.IsIdentifier name → Joint tail → Opening (name ++ tail)
  | paren {cs : List Char} : Opening cs → Opening ('(' :: cs)

theorem Opening.append {cs tail : List Char} (h : Opening cs) (ht : Parting tail) : Opening (cs ++ tail) := by
  induction h with
  | symbol hc hword hparen => exact .symbol hc hword hparen
  | word hw htail =>
    rw [List.append_assoc]
    refine .word hw fun rest hrest => ?_
    rw [List.append_assoc]
    exact htail _ (ht rest hrest)
  | name hname hjoint =>
    rw [List.append_assoc]
    exact .name hname (hjoint.append _)
  | paren _ ih => exact .paren ih

theorem Scanner.IsWord.starts {name : List Char} (h : Scanner.IsWord name) : Starts name := by
  have hhead := h.1
  cases name with
  | nil => cases hhead
  | cons c name =>
    show (Scanner.isWordChar c || _) = true
    rw [Scanner.isWordChar_of_start hhead, Bool.true_or]

theorem Opening.starts {cs : List Char} (h : Opening cs) : Starts cs := by
  cases h with
  | symbol hc _ _ => exact hc
  | word hw _ =>
    have hwords : ∀ w ∈ leadingWords, Starts w.toList := by decide
    exact (hwords _ hw).append _
  | name hname _ => exact hname.1.starts.append _
  | paren _ => rfl

/-! ## Arrow functions -/

/-- Neither a word nor an arrow follows. -/
structure Calm (rest : List Char) : Prop where
  apart : Apart rest
  arrow : (Pattern.text "=>").Fails (skipped rest)

theorem Joint.calm {tail : List Char} (h : Joint tail) (rest : List Char) : Calm (tail ++ rest) :=
  ⟨h.apart rest, .text (h.arrow rest)⟩

/-- A text opens with no name, or with a name that something joins. -/
theorem Opening.identifier {cs rest : List Char} (h : Opening cs) (hrest : Apart rest) :
    Scanner.identifier (cs ++ rest) = none ∨
      ∃ name tail, cs = name ++ tail ∧ Scanner.IsIdentifier name ∧ Joint tail := by
  cases h with
  | symbol _ hword _ => exact .inl (Scanner.identifier_eq_none hword)
  | @word w tail hw htail =>
    have hwords : ∀ w ∈ leadingWords, w ∈ Scanner.reserved := by decide
    refine .inl ?_
    rw [List.append_assoc]
    exact Scanner.identifier_reserved (hwords w hw) (htail rest hrest)
  | @name name tail hname hjoint => exact .inr ⟨name, tail, rfl, hname, hjoint⟩
  | paren _ => exact .inl (Scanner.identifier_eq_none (by decide))

open Pattern (Gives Fails)

/-- A parameter list of one name. -/
theorem paramList_gives {name tail rest : List Char} (hname : Scanner.IsIdentifier name) (htail : Joint tail) :
    Gives Rule.paramList (name ++ (tail ++ rest)) (fun _ => True) (tail ++ rest) := by
  have hfirst := Gives.token (r := .identifier) rfl (Scanner.identifier_append hname (htail.apart rest))
  have hend : Fails (.seq (.text ",") Rule.identifier) (skipped (tail ++ rest)) := .seq_left (.text (htail.comma rest))
  exact (Gives.phrase rfl (hfirst.series.gives rfl hend)).mono fun _ _ => trivial

/-- No list of names stands before a closing parenthesis. -/
theorem Opening.list_fails {cs rest : List Char} (h : Opening cs) (hrest : Apart rest) :
    Fails (.seq (.opt Rule.paramList) (.text ")")) (cs ++ rest) := by
  rcases h.identifier hrest with hnone | ⟨name, tail, rfl, hname, htail⟩
  · have hlist : Fails Rule.paramList (cs ++ rest) := .phrase rfl (.seq_left (.token rfl hnone))
    refine .seq_right (.absent hlist) ?_
    rw [(h.starts.append rest).skipped]
    exact (h.starts.append rest).text_fails rfl rfl
  · rw [List.append_assoc]
    exact .seq_right (paramList_gives hname htail).present (.text (htail.close rest))

/-- A name before anything but an arrow. -/
theorem Scanner.IsIdentifier.arrow_fails {name rest : List Char} (h : Scanner.IsIdentifier name) (hrest : Calm rest) :
    Fails Rule.arrowFunction (name ++ rest) := by
  have hname := Gives.token (r := .identifier) rfl (Scanner.identifier_append h hrest.apart)
  exact .phrase rfl (.seq_right (Gives.phrase rfl hname.left) (.seq_left hrest.arrow))

theorem Opening.arrow_fails {cs rest : List Char} (h : Opening cs) (hrest : Calm rest) :
    Fails Rule.arrowFunction (cs ++ rest) := by
  rcases h.identifier hrest.apart with hnone | ⟨name, tail, rfl, hname, htail⟩
  · refine .phrase rfl (.seq_left (.phrase rfl (.alt (.token rfl hnone) ?_)))
    cases h with
    | symbol _ _ hparen => exact .seq_left (.punctuation rfl hparen _)
    | word hw _ =>
      simp only [leadingWords, List.mem_cons, List.not_mem_nil, or_false] at hw
      rcases hw with rfl | rfl | rfl | rfl <;> exact .seq_left (.punctuation rfl (by decide) _)
    | name hname hjoint =>
      rw [List.append_assoc, Scanner.identifier_append hname (hjoint.apart rest)] at hnone
      cases hnone
    | @paren cs hcs =>
      refine .seq_right (Gives.text "(" (cs ++ rest)) ?_
      rw [(hcs.starts.append rest).skipped]
      exact hcs.list_fails hrest.apart
  · rw [List.append_assoc]
    exact hname.arrow_fails (htail.calm rest)

/-! ## Statements -/

/-- The words that start a statement and no expression, and the one that starts both. -/
def statementWords : List String :=
  ["function", "const", "let", "var", "if", "for", "while", "break", "continue", "return"]

section

variable {words : List String} (hwords : ∀ w ∈ words, w ∈ statementWords) {rest : List Char} (hrest : Apart rest)

include hwords hrest

theorem Scanner.IsIdentifier.keyword_eq_none {name : List Char} (h : Scanner.IsIdentifier name) :
    Scanner.keyword words (name ++ rest) = none := by
  refine Scanner.keyword_eq_none fun w hw heq => ?_
  rw [Scanner.word_append_apart h.1.2 hrest] at heq
  have hreserved : ∀ w ∈ statementWords, w ∈ Scanner.reserved := by decide
  exact h.ne (hreserved w (hwords w hw)) heq

theorem Opening.keyword_eq_none {cs : List Char} (h : Opening cs) : Scanner.keyword words (cs ++ rest) = none := by
  have hstart : ∀ w ∈ words, w.toList.head?.any Scanner.isWordStart = true := by
    have hall : ∀ w ∈ statementWords, w.toList.head?.any Scanner.isWordStart = true := by decide
    exact fun w hw => hall w (hwords w hw)
  cases h with
  | symbol _ hword _ => exact Scanner.keyword_eq_none_of_start hword hstart
  | @word v tail hv htail =>
    have hleading : ∀ v ∈ leadingWords, v.toList.all Scanner.isWordChar ∧ ∀ w ∈ statementWords, w.toList ≠ v.toList := by
      decide
    obtain ⟨hall, hne⟩ := hleading v hv
    refine Scanner.keyword_eq_none fun w hw => ?_
    rw [List.append_assoc, Scanner.word_append_apart hall (htail rest hrest)]
    exact hne w (hwords w hw)
  | name hname hjoint =>
    rw [List.append_assoc]
    exact hname.keyword_eq_none hwords (hjoint.apart rest)
  | paren _ => exact Scanner.keyword_eq_none_of_start (by decide) hstart

end

/-! ## Texts of expressions -/

/-- The text of an expression where one that holds together at the given level is wanted. -/
def Expr.operand (e : Expr) (level : Nat) : List Char := parenthesized e.precedence level e.chars

theorem Expr.operand_of_lt {e : Expr} {level : Nat} (h : e.precedence < level) :
    e.operand level = '(' :: e.chars ++ [')'] := if_pos h

theorem Expr.operand_of_le {e : Expr} {level : Nat} (h : level ≤ e.precedence) : e.operand level = e.chars :=
  if_neg (Nat.not_lt.2 h)

/-- What can be assigned to needs no parentheses. -/
theorem Expr.operand_of_target {e : Expr} (h : e.isTarget) {level : Nat} (hlevel : level ≤ 11) :
    e.operand level = e.chars := by
  cases e with
  | ident | member => exact operand_of_le hlevel
  | _ => cases h

/-- A blank stands between two equal signs, and only there. -/
theorem UnaryOp.before_eq (op : UnaryOp) (operand : List Char) :
    ∃ gap, op.before operand = op.chars ++ (gap ++ operand) ∧
      (gap = [' '] ∨ gap = [] ∧ ¬ (op = .neg ∧ operand.head? = some '-') ∧ ¬ (op = .plus ∧ operand.head? = some '+')) := by
  unfold UnaryOp.before
  split
  · exact ⟨[' '], rfl, .inl rfl⟩
  · exact ⟨[' '], rfl, .inl rfl⟩
  · next hneg hplus =>
    refine ⟨[], rfl, .inr ⟨rfl, ?_, ?_⟩⟩
    · rintro ⟨hop, hhead⟩
      obtain ⟨tail, htail⟩ := List.head?_eq_some_iff.1 hhead
      exact hneg tail hop htail
    · rintro ⟨hop, hhead⟩
      obtain ⟨tail, htail⟩ := List.head?_eq_some_iff.1 hhead
      exact hplus tail hop htail

theorem BinaryOp.joint (op : BinaryOp) (cs : List Char) : Joint (' ' :: op.symbol.toList ++ ' ' :: cs) := by
  cases op <;> exact ⟨fun _ => rfl, fun _ => rfl, fun _ => rfl, fun _ => rfl⟩

theorem LogicalOp.joint (op : LogicalOp) (cs : List Char) : Joint (' ' :: op.symbol.toList ++ ' ' :: cs) := by
  cases op <;> exact ⟨fun _ => rfl, fun _ => rfl, fun _ => rfl, fun _ => rfl⟩

theorem AssignOp.joint (op : AssignOp) (cs : List Char) : Joint (' ' :: op.symbol.toList ++ ' ' :: cs) := by
  cases op <;> exact ⟨fun _ => rfl, fun _ => rfl, fun _ => rfl, fun _ => rfl⟩

theorem UpdateOp.joint (op : UpdateOp) : Joint op.symbol.toList := by
  cases op <;> exact ⟨fun _ => rfl, fun _ => rfl, fun _ => rfl, fun _ => rfl⟩

/-- A member access or a call joins what stands before it. -/
theorem joint_access {c : Char} (h : c ∈ ['.', '[', '(']) (cs : List Char) : Joint (c :: cs) := by
  simp only [List.mem_cons, List.not_mem_nil, or_false] at h
  rcases h with rfl | rfl | rfl <;> exact ⟨fun _ => rfl, fun _ => rfl, fun _ => rfl, fun _ => rfl⟩

theorem joint_question (cs : List Char) : Joint (" ? ".toList ++ cs) :=
  ⟨fun _ => rfl, fun _ => rfl, fun _ => rfl, fun _ => rfl⟩

theorem parting_close : Parting [')'] := fun _ _ => rfl

theorem Opening.keyword {w : String} (h : w ∈ leadingWords) : Opening w.toList := by
  rw [← List.append_nil w.toList]
  exact .word h fun _ hrest => hrest

namespace Expr

/-- The left operand of a larger expression opens its text. -/
theorem opening_operand {o : Expr} {level : Nat} {tail : List Char} (hlevel : level ≤ 11) (hl : o.Legible)
    (ho : (∃ name s, o = .ident name s) ∨ Opening o.chars) (ht : Joint tail) : Opening (o.operand level ++ tail) := by
  by_cases hlt : o.precedence < level
  · rw [operand_of_lt hlt]
    rcases ho with ⟨name, s, rfl⟩ | ho
    · exact absurd hlt (Nat.not_lt.2 hlevel)
    · exact (Opening.paren (ho.append parting_close)).append ht.parting
  · rw [operand_of_le (Nat.not_lt.1 hlt)]
    rcases ho with ⟨name, s, rfl⟩ | ho
    · cases hl with
      | ident hname => exact .name hname ht
    · exact ho.append ht.parting

/-- A number opens with a digit or a point. -/
theorem opening_number {v : Float} (h : ReadsBack v) : Opening (numberText v).toList := by
  have hscan := h.1
  cases htext : (numberText v).toList with
  | nil => rw [htext] at hscan; cases hscan
  | cons c cs =>
    rw [htext] at hscan
    rcases Scanner.number_head hscan with hc | rfl
    · refine .symbol ?_ (isWordStart_of_isDigit hc) ?_
      · rw [startsExpr, isWordChar_of_isDigit hc, Bool.true_or]
      · rintro rfl
        exact absurd hc (by decide)
    · exact .symbol (by decide) (by decide) (by decide)

theorem opening_unary (op : UnaryOp) (operand : List Char) : Opening (op.before operand) := by
  obtain ⟨gap, heq, -⟩ := op.before_eq operand
  rw [heq]
  cases op with
  | not | neg | plus => exact .symbol (by decide) (by decide) (by decide)
  | typeOf =>
    show Opening ("typeof".toList ++ ' ' :: (gap ++ operand))
    exact .word (by decide) fun _ _ => rfl

theorem opening_update (op : UpdateOp) (operand : List Char) : Opening (op.symbol.toList ++ operand) := by
  cases op <;> exact .symbol (by decide) (by decide) (by decide)

/-- The text of a legible expression is a name or opens like no arrow function and no statement. -/
theorem Legible.opening {e : Expr} (h : e.Legible) : (∃ name s, e = .ident name s) ∨ Opening e.chars := by
  induction h with
  | bool v s => cases v <;> exact .inr (.keyword (by decide))
  | num hv => exact .inr (opening_number hv)
  | str _ => exact .inr (.symbol (by decide) (by decide) (by decide))
  | null s => exact .inr (.keyword (by decide))
  | @ident name s _ => exact .inl ⟨name, s, rfl⟩
  | fixed ho _ _ ih | computed ho _ ih _ =>
    exact .inr (opening_operand (Nat.le_refl 11) ho ih (joint_access (by decide) _))
  | @call callee args s hc _ ih _ =>
    right
    show Opening (callee.operand 11 ++ '(' :: commaSeparated (Expr.listChars args) ++ [')'])
    rw [List.append_assoc]
    exact opening_operand (Nat.le_refl 11) hc ih (joint_access (by decide) _)
  | @binary op left right s hl _ ih _ =>
    right
    show Opening (left.operand op.precedence ++ ' ' :: op.symbol.toList ++ ' ' :: right.operand (op.precedence + 1))
    rw [List.append_assoc]
    exact opening_operand (by cases op <;> decide) hl ih (op.joint _)
  | @logical op left right s hl _ ih _ =>
    right
    show Opening (left.operand op.precedence ++ ' ' :: op.symbol.toList ++ ' ' :: right.operand (op.precedence + 1))
    rw [List.append_assoc]
    exact opening_operand (by cases op <;> decide) hl ih (op.joint _)
  | unary _ _ => exact .inr (opening_unary ..)
  | @update op before arg s ha ih =>
    right
    cases before with
    | true => exact opening_update op (arg.operand 11)
    | false => exact opening_operand (Nat.le_refl 11) ha ih op.joint
  | @assign op target value s htarget ht _ ih _ =>
    right
    show Opening (target.chars ++ ' ' :: op.symbol.toList ++ ' ' :: value.chars)
    rw [List.append_assoc, ← operand_of_target htarget (Nat.le_refl 11)]
    exact opening_operand (Nat.le_refl 11) ht ih (op.joint _)
  | @ternary condition consequent alternate s hc _ _ ih _ _ =>
    right
    show Opening (condition.operand 3 ++ " ? ".toList ++ consequent.chars ++ " : ".toList ++ alternate.chars)
    simp only [List.append_assoc]
    exact opening_operand (by decide) hc ih (joint_question _)

section

variable {e : Expr} (h : e.Legible)

include h

theorem Legible.starts : Starts e.chars := by
  rcases h.opening with ⟨name, s, rfl⟩ | ho
  · cases h with
    | ident hname => exact hname.1.starts
  · exact ho.starts

theorem Legible.arrow_fails {rest : List Char} (hrest : Calm rest) : Fails Rule.arrowFunction (e.chars ++ rest) := by
  rcases h.opening with ⟨name, s, rfl⟩ | ho
  · cases h with
    | ident hname => exact hname.arrow_fails hrest
  · exact ho.arrow_fails hrest

theorem Legible.keyword_eq_none {words : List String} (hwords : ∀ w ∈ words, w ∈ statementWords) {rest : List Char}
    (hrest : Apart rest) : Scanner.keyword words (e.chars ++ rest) = none := by
  rcases h.opening with ⟨name, s, rfl⟩ | ho
  · cases h with
    | ident hname => exact hname.keyword_eq_none hwords hrest
  · exact ho.keyword_eq_none hwords hrest

end

end Expr

end Stepwise
