import Mathlib.Data.List.Basic
import Stepwise.Check.Visit

/-!
# Walking through a syntax tree

`Node.parts` lists what stands directly inside a node, in source order. A walk meets a node and then walks through its
parts in turn (`Node.visits_eq`), so what carries over from the parts to the node holds of every node
(`Node.walk_induction`, `EveryExpr.induction`). With a node a walk meets all nodes under it (`Node.visits_closed`).
-/

namespace Stepwise

/-- The nodes under a node that lies in `d` functions, the node first. -/
def Node.visits (d : Nat) : Node → List Visit
  | stmt s => s.visits d
  | expr e => e.visits d

/-! ## Parts -/

/-- The expressions that a loop header starts with. -/
def ForInit.exprs : ForInit → List Expr
  | .declare _ decls _ => decls.filterMap Declarator.init?
  | .expr e => [e]

/-- The expression of a computed key. -/
def MemberKey.expr? : MemberKey → Option Expr
  | .fixed _ => none
  | .computed e => some e

def Stmt.parts : Stmt → List Node
  | .block body _ => body.map .stmt
  | .declare _ decls _ => (decls.filterMap Declarator.init?).map .expr
  | .function fn => [.stmt fn.body]
  | .expr e _ => [.expr e]
  | .ifElse test thenS elseS _ => .expr test :: .stmt thenS :: elseS.toList.map .stmt
  | .for init test update body _ =>
    (init.toList.flatMap ForInit.exprs ++ test.toList ++ update.toList).map .expr ++ [.stmt body]
  | .ret value _ => value.toList.map .expr
  | .empty _ => []
  | .unsupported .. => []

def Expr.parts : Expr → List Node
  | .member object key _ => (object :: key.expr?.toList).map .expr
  | .call callee args _ => (callee :: args).map .expr
  | .binary _ left right _ => [.expr left, .expr right]
  | .logical _ left right _ => [.expr left, .expr right]
  | .unary _ arg _ => [.expr arg]
  | .update _ _ arg _ => [.expr arg]
  | .assign _ target value _ => [.expr target, .expr value]
  | .ternary condition consequent alternate _ => [.expr condition, .expr consequent, .expr alternate]
  | .function fn => [.stmt fn.body]
  | .bool .. => []
  | .num .. => []
  | .str .. => []
  | .null _ => []
  | .ident .. => []
  | .unsupported .. => []

namespace Node

/-- The nodes that stand directly inside a node, in source order. -/
def parts : Node → List Node
  | stmt s => s.parts
  | expr e => e.parts

/-- Whether the node is a function, be it a declaration, an expression or an arrow. Its only part is its body. -/
def isFunction : Node → Bool
  | stmt (.function _) => true
  | expr (.function _) => true
  | _ => false

/-- The depth of the parts of a node at depth `d`. -/
def inner (d : Nat) (n : Node) : Nat := if n.isFunction then d + 1 else d

end Node

/-! ## Walks -/

theorem Stmt.listVisits_eq (d : Nat) (body : List Stmt) :
    Stmt.listVisits d body = (body.map Node.stmt).flatMap (Node.visits d) := by
  induction body with
  | nil => rfl
  | cons s body ih =>
    rw [Stmt.listVisits, ih]
    rfl

theorem Expr.listVisits_eq (d : Nat) (es : List Expr) :
    Expr.listVisits d es = (es.map Node.expr).flatMap (Node.visits d) := by
  induction es with
  | nil => rfl
  | cons e es ih =>
    rw [Expr.listVisits, ih]
    rfl

theorem Stmt.optionVisits_eq (d : Nat) (s : Option Stmt) :
    Stmt.optionVisits d s = (s.toList.map Node.stmt).flatMap (Node.visits d) := by
  cases s with
  | none => rfl
  | some s => simp [Stmt.optionVisits, Node.visits]

theorem Expr.optionVisits_eq (d : Nat) (e : Option Expr) :
    Expr.optionVisits d e = (e.toList.map Node.expr).flatMap (Node.visits d) := by
  cases e with
  | none => rfl
  | some e => simp [Expr.optionVisits, Node.visits]

theorem Declarator.listVisits_eq (d : Nat) (decls : List Declarator) :
    Declarator.listVisits d decls = ((decls.filterMap Declarator.init?).map Node.expr).flatMap (Node.visits d) := by
  induction decls with
  | nil => rfl
  | cons decl decls ih =>
    obtain ⟨name, init, span⟩ := decl
    rw [Declarator.listVisits, ih]
    cases init with
    | none => rfl
    | some e => rfl

theorem ForInit.optionVisits_eq (d : Nat) (init : Option ForInit) :
    ForInit.optionVisits d init = ((init.toList.flatMap ForInit.exprs).map Node.expr).flatMap (Node.visits d) := by
  cases init with
  | none => rfl
  | some init =>
    cases init with
    | declare kind decls span => simp [ForInit.optionVisits, ForInit.exprs, Declarator.listVisits_eq]
    | expr e => simp [ForInit.optionVisits, ForInit.exprs, Node.visits]

theorem MemberKey.visits_eq (d : Nat) (key : MemberKey) :
    key.visits d = (key.expr?.toList.map Node.expr).flatMap (Node.visits d) := by
  cases key with
  | fixed name => simp [MemberKey.visits, MemberKey.expr?]
  | computed e => simp [MemberKey.visits, MemberKey.expr?, Node.visits]

theorem FunctionDef.visits_eq (d : Nat) (fn : FunctionDef) : fn.visits d = Node.visits (d + 1) (.stmt fn.body) := by
  cases fn
  rw [FunctionDef.visits]
  rfl

/-- A walk meets the node, and then walks through its parts in turn. -/
theorem Node.visits_eq (d : Nat) (n : Node) : n.visits d = ⟨n, d⟩ :: n.parts.flatMap (Node.visits (n.inner d)) := by
  cases n with
  | stmt s =>
    cases s <;> simp [Node.visits, Stmt.visits, Node.parts, Stmt.parts, Node.inner, Node.isFunction, Stmt.listVisits_eq,
      Stmt.optionVisits_eq, Expr.optionVisits_eq, Declarator.listVisits_eq, ForInit.optionVisits_eq,
      FunctionDef.visits_eq, List.append_assoc]
  | expr e =>
    cases e <;> simp [Node.visits, Expr.visits, Node.parts, Expr.parts, Node.inner, Node.isFunction, Expr.listVisits_eq,
      MemberKey.visits_eq, FunctionDef.visits_eq]

theorem Node.length_visits_part {d : Nat} {n c : Node} (h : c ∈ n.parts) :
    (c.visits (n.inner d)).length < (n.visits d).length := by
  obtain ⟨before, after, hparts⟩ := List.append_of_mem h
  rw [Node.visits_eq d n, hparts]
  simp only [List.flatMap_append, List.flatMap_cons, List.length_cons, List.length_append]
  omega

/-- What holds of a node when it holds of its parts holds of all nodes, at any depth. -/
theorem Node.walk_induction {motive : Nat → Node → Prop}
    (step : ∀ d n, (∀ c ∈ n.parts, motive (n.inner d) c) → motive d n) (d : Nat) (n : Node) : motive d n := by
  -- the walk through a part is shorter than the walk through the node
  induction hk : (n.visits d).length using Nat.strongRecOn generalizing n d with
  | ind k ih => exact step d n fun c hc => ih _ (hk ▸ length_visits_part hc) (n.inner d) c rfl

/-! ## Nodes under a node -/

/-- With a node the list has all nodes under it. -/
def ClosedUnder (nodes : List Visit) : Prop := ∀ x ∈ nodes, x.node.visits x.depth ⊆ nodes

namespace ClosedUnder

theorem nil : ClosedUnder [] := by simp [ClosedUnder]

theorem append {a b : List Visit} (ha : ClosedUnder a) (hb : ClosedUnder b) : ClosedUnder (a ++ b) :=
  List.forall_mem_append.2 ⟨fun x hx => List.subset_append_of_subset_left _ (ha x hx),
    fun x hx => List.subset_append_of_subset_right _ (hb x hx)⟩

theorem flatMap {α : Type} {f : α → List Visit} {l : List α} (h : ∀ a ∈ l, ClosedUnder (f a)) :
    ClosedUnder (l.flatMap f) := by
  induction l with
  | nil => exact .nil
  | cons a l ih => exact (h a List.mem_cons_self).append (ih fun b hb => h b (List.mem_cons_of_mem _ hb))

/-- The list of all nodes under a node. -/
theorem cons {n : Node} {d : Nat} {rest : List Visit} (h : ClosedUnder rest) (hn : n.visits d = ⟨n, d⟩ :: rest) :
    ClosedUnder (⟨n, d⟩ :: rest) :=
  List.forall_mem_cons.2 ⟨by rw [hn]; exact List.Subset.refl _, fun x hx => List.subset_cons_of_subset _ (h x hx)⟩

end ClosedUnder

theorem Node.visits_closed (d : Nat) (n : Node) : ClosedUnder (n.visits d) := by
  refine walk_induction (motive := fun d n => ClosedUnder (n.visits d)) (fun d n hparts => ?_) d n
  rw [visits_eq]
  exact .cons (.flatMap hparts) (visits_eq d n)

/-! ## Conditions on the expressions of a walk -/

/-- All expressions among the nodes satisfy `P`. -/
def EveryExpr (P : Expr → Prop) (visits : List Visit) : Prop := ∀ d n, ⟨.expr d, n⟩ ∈ visits → P d

/-- One of the expressions among the nodes satisfies `P`. -/
def SomeExpr (P : Expr → Prop) (visits : List Visit) : Prop := ∃ d n, ⟨.expr d, n⟩ ∈ visits ∧ P d

/-- The parts of an expression are expressions, but for the body of a function. -/
theorem Expr.part_cases {e : Expr} (he : ∀ fn, e ≠ .function fn) {n : Node} (h : n ∈ e.parts) : ∃ c, n = .expr c := by
  cases e with
  | function fn => exact absurd rfl (he fn)
  | member object key s =>
    obtain ⟨c, -, rfl⟩ := List.mem_map.1 h
    exact ⟨c, rfl⟩
  | call callee args s =>
    obtain ⟨c, -, rfl⟩ := List.mem_map.1 h
    exact ⟨c, rfl⟩
  | binary | logical | unary | update | assign | ternary =>
    simp only [parts, List.mem_cons, List.not_mem_nil, or_false] at h
    grind
  | bool | num | str | null | ident | unsupported => cases h

section

variable {P : Expr → Prop} {e : Expr} {d : Nat}

theorem Expr.inner_eq (he : ∀ fn, e ≠ .function fn) : (Node.expr e).inner d = d := by
  cases e with
  | function fn => exact absurd rfl (he fn)
  | _ => rfl

/-- A walk through an expression meets the expression and walks through its parts. -/
theorem Expr.mem_visits (he : ∀ fn, e ≠ .function fn) {x : Visit} :
    x ∈ e.visits d ↔ x = ⟨.expr e, d⟩ ∨ ∃ c, .expr c ∈ e.parts ∧ x ∈ c.visits d := by
  have hvisits : e.visits d = ⟨.expr e, d⟩ :: e.parts.flatMap (Node.visits ((Node.expr e).inner d)) :=
    Node.visits_eq d (.expr e)
  rw [hvisits, inner_eq he, List.mem_cons, List.mem_flatMap]
  refine or_congr_right ⟨?_, fun ⟨c, hc, hx⟩ => ⟨.expr c, hc, hx⟩⟩
  rintro ⟨n, hn, hx⟩
  obtain ⟨c, rfl⟩ := part_cases he hn
  exact ⟨c, hn, hx⟩

theorem SomeExpr.iff_parts (he : ∀ fn, e ≠ .function fn) :
    SomeExpr P (e.visits d) ↔ P e ∨ ∃ c, .expr c ∈ e.parts ∧ SomeExpr P (c.visits d) := by
  simp only [SomeExpr, Expr.mem_visits he]
  constructor
  · rintro ⟨x, n, heq | ⟨c, hc, hx⟩, hP⟩
    · cases heq
      exact .inl hP
    · exact .inr ⟨c, hc, x, n, hx, hP⟩
  · rintro (hP | ⟨c, hc, x, n, hx, hP⟩)
    · exact ⟨e, d, .inl rfl, hP⟩
    · exact ⟨x, n, .inr ⟨c, hc, hx⟩, hP⟩

theorem EveryExpr.self (h : EveryExpr P (e.visits d)) : P e :=
  h e d (by cases e <;> simp [Expr.visits])

theorem EveryExpr.part (h : EveryExpr P (e.visits d)) {c : Expr} (hc : .expr c ∈ e.parts) :
    EveryExpr P (c.visits d) := by
  have he : ∀ fn, e ≠ .function fn := by
    rintro fn rfl
    simp [Expr.parts] at hc
  exact fun x n hx => h x n ((Expr.mem_visits he).2 (.inr ⟨c, hc, hx⟩))

/-- Expressions without functions, by induction on their parts. -/
theorem EveryExpr.induction {motive : Expr → Prop} (hfn : ∀ fn, ¬ P (.function fn))
    (step : ∀ e, EveryExpr P (e.visits d) → (∀ c, .expr c ∈ e.parts → motive c) → motive e)
    (h : EveryExpr P (e.visits d)) : motive e := by
  refine Node.walk_induction
    (motive := fun k n => k = d → ∀ e, n = .expr e → EveryExpr P (e.visits d) → motive e) ?_ d _ rfl e rfl h
  rintro k _ ih rfl e rfl h
  have he : ∀ fn, e ≠ .function fn := by
    rintro fn rfl
    exact hfn fn h.self
  exact step e h fun c hc => ih (.expr c) hc (Expr.inner_eq he) c rfl (h.part hc)

end

end Stepwise
