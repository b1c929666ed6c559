import Mathlib.Data.List.Forall2
import Stepwise.Proofs.Syntax.Outline
import Stepwise.Syntax.OfTree

/-!
# Shapes of syntax trees

The shape of a syntax tree is the tree without its spans (`Expr.shape`, `Stmt.shape`, `Program.shape`). Two syntax trees
are alike with respect to a relation between spans if they have the same shape and their spans, one by one, are related
(`Alike`).
-/

namespace Stepwise

/-! ## Shapes -/

mutual

/-- The expression with all spans forgotten, those of functions inside of it too. -/
def Expr.shape : Expr → Expr
  | .bool v _ => .bool v .zero
  | .num v _ => .num v .zero
  | .str v _ => .str v .zero
  | .null _ => .null .zero
  | .ident name _ => .ident name .zero
  | .member object key _ => .member object.shape key.shape .zero
  | .call callee args _ => .call callee.shape (Expr.shapes args) .zero
  | .binary op left right _ => .binary op left.shape right.shape .zero
  | .logical op left right _ => .logical op left.shape right.shape .zero
  | .unary op arg _ => .unary op arg.shape .zero
  | .update op before arg _ => .update op before arg.shape .zero
  | .assign op target value _ => .assign op target.shape value.shape .zero
  | .ternary condition consequent alternate _ => .ternary condition.shape consequent.shape alternate.shape .zero
  | .function fn => .function fn.shape
  | .unsupported kind _ => .unsupported kind .zero

def Expr.shapes : List Expr → List Expr
  | [] => []
  | e :: es => e.shape :: Expr.shapes es

def Expr.optionShape : Option Expr → Option Expr
  | none => none
  | some e => some e.shape

def MemberKey.shape : MemberKey → MemberKey
  | .fixed name => .fixed name
  | .computed e => .computed e.shape

def FunctionDef.shape : FunctionDef → FunctionDef
  | .mk name params body arrow _ => .mk name params body.shape arrow .zero

def Declarator.shapes : List Declarator → List Declarator
  | [] => []
  | .mk name init _ :: ds => .mk name (Expr.optionShape init) .zero :: Declarator.shapes ds

def ForInit.optionShape : Option ForInit → Option ForInit
  | none => none
  | some (.declare kind decls _) => some (.declare kind (Declarator.shapes decls) .zero)
  | some (.expr e) => some (.expr e.shape)

/-- The statement with all spans forgotten. -/
def Stmt.shape : Stmt → Stmt
  | .block body _ => .block (Stmt.shapes body) .zero
  | .declare kind decls _ => .declare kind (Declarator.shapes decls) .zero
  | .function fn => .function fn.shape
  | .expr e _ => .expr e.shape .zero
  | .ifElse test thenS elseS _ => .ifElse test.shape thenS.shape (Stmt.optionShape elseS) .zero
  | .for init test update body _ =>
    .for (ForInit.optionShape init) (Expr.optionShape test) (Expr.optionShape update) body.shape .zero
  | .ret value _ => .ret (Expr.optionShape value) .zero
  | .empty _ => .empty .zero
  | .unsupported kind _ => .unsupported kind .zero

def Stmt.shapes : List Stmt → List Stmt
  | [] => []
  | s :: ss => s.shape :: Stmt.shapes ss

def Stmt.optionShape : Option Stmt → Option Stmt
  | none => none
  | some s => some s.shape

end

attribute [simp] Expr.shape Expr.shapes Expr.optionShape MemberKey.shape FunctionDef.shape Declarator.shapes
attribute [simp] ForInit.optionShape Stmt.shape Stmt.shapes Stmt.optionShape

/-- The script with all spans forgotten. -/
def Program.shape (p : Program) : Program := ⟨p.body.shape, .zero⟩

theorem Expr.shapes_append (es fs : List Expr) :
    Expr.shapes (es ++ fs) = Expr.shapes es ++ Expr.shapes fs := by
  induction es with
  | nil => rfl
  | cons e es ih => rw [List.cons_append, shapes, ih, shapes, List.cons_append]

theorem Expr.isTarget_shape (e : Expr) : e.shape.isTarget = e.isTarget := by cases e <;> rfl

/-! ## Related spans -/

/-- The spans of the outlines, one by one, are related. -/
def Outline.Related (R : Span → Span → Prop) (os os' : List Outline) : Prop :=
  List.Forall₂ R (Outline.listSpans os) (Outline.listSpans os')

namespace Outline.Related

variable {R : Span → Span → Prop} {os os' more more' : List Outline} {o o' : Outline} {s s' : Span}

theorem nil : Related R [] [] := List.Forall₂.nil

theorem append (h : Related R os os') (hm : Related R more more') : Related R (os ++ more) (os' ++ more') := by
  have hspans : ∀ l m : List Outline, listSpans (l ++ m) = listSpans l ++ listSpans m := by
    intro l m
    induction l with
    | nil => rfl
    | cons o l ih => rw [List.cons_append, listSpans, ih, listSpans, List.append_assoc]
  unfold Related
  rw [hspans, hspans]
  exact List.rel_append h hm

theorem cons (h : Related R [o] [o']) (hm : Related R more more') : Related R (o :: more) (o' :: more') := h.append hm

theorem node (hs : R s s') (h : Related R os os') : Related R [.node s os] [.node s' os'] := by
  simp only [Related, listSpans, spans, List.append_nil]
  exact .cons hs h

theorem span (h : Related R [o] [o']) : R o.span o'.span := by
  cases o
  cases o'
  cases h with
  | cons hs _ => exact hs

end Outline.Related

/-- Things with the same shape and related spans. -/
structure Alike {α : Type} (R : Span → Span → Prop) (shape : α → α) (outlines : α → List Outline) (a a' : α) : Prop where
  shape : shape a = shape a'
  spans : Outline.Related R (outlines a) (outlines a')

section

variable (R : Span → Span → Prop)

abbrev Expr.Alike : Expr → Expr → Prop := Stepwise.Alike R Expr.shape fun e => [e.outline]

abbrev Expr.ListAlike : List Expr → List Expr → Prop := Stepwise.Alike R Expr.shapes Expr.outlines

abbrev Expr.OptionAlike : Option Expr → Option Expr → Prop := Stepwise.Alike R Expr.optionShape Expr.optionOutlines

abbrev FunctionDef.Alike : FunctionDef → FunctionDef → Prop := Stepwise.Alike R FunctionDef.shape fun fn => [fn.outline]

abbrev Declarator.ListAlike : List Declarator → List Declarator → Prop :=
  Stepwise.Alike R Declarator.shapes Declarator.outlines

abbrev ForInit.OptionAlike : Option ForInit → Option ForInit → Prop :=
  Stepwise.Alike R ForInit.optionShape ForInit.optionOutlines

abbrev Stmt.Alike : Stmt → Stmt → Prop := Stepwise.Alike R Stmt.shape fun s => [s.outline]

abbrev Stmt.ListAlike : List Stmt → List Stmt → Prop := Stepwise.Alike R Stmt.shapes Stmt.outlines

abbrev Stmt.OptionAlike : Option Stmt → Option Stmt → Prop := Stepwise.Alike R Stmt.optionShape Stmt.optionOutlines

end

variable {R : Span → Span → Prop}

theorem Expr.Alike.span {e e' : Expr} (h : e.Alike R e') : R e.span e'.span := by
  have hspan := h.spans.span
  rwa [e.outline_span, e'.outline_span] at hspan

end Stepwise
