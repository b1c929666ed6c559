import Mathlib
import Stepwise.Value.Operators

/-!
# Equality of values

Loose equality converts its operands, each kind of value in its own way; strict equality compares functions by their
trees. Both are symmetric. On doubles this follows from what their equality says of the unpacked numbers
(`beq_comm_float`), and it carries over to number literals inside functions (`FunctionDef.same_comm`) and to the values
that functions of the page are bound to (`Value.optionSame_comm`).

Loose equality is given by a table of kinds. It is the same to convert one operand at a time until both are of one kind,
where the first rule that fits is taken (`Value.looselyEquals_eq_convertedEquals`).

**`Value.equality_laws`**: loose and strict equality are symmetric, strict equality implies loose equality, and what is
loosely equal to `null` or `undefined` is one of the two.
-/

namespace Stepwise

/-! ## Doubles -/

/-- Doubles are equal if neither is a NaN and they are the same or two zeros, which does not depend on their order. -/
theorem beq_comm_float (x y : Float) : (x == y) = (y == x) := by
  rw [Bool.eq_iff_iff]
  show x.toModel.unpack.beq y.toModel.unpack = true ↔ y.toModel.unpack.beq x.toModel.unpack = true
  rw [Float.Model.UnpackedFloat.beq_iff_ne_notANumber_and_eq, Float.Model.UnpackedFloat.beq_iff_ne_notANumber_and_eq]
  tauto

/-- On all other leaves of a tree equality is decided. -/
theorem beq_swap {α : Type} [DecidableEq α] (a b : α) : (a == b) = (b == a) := by
  rw [Bool.eq_iff_iff, beq_iff_eq, beq_iff_eq, eq_comm]

/-! ## Trees -/

mutual

theorem Expr.same_comm : ∀ e d : Expr, e.same d = d.same e
  | .bool v s, d => by cases d <;> simp only [Expr.same, beq_swap v, beq_swap s]
  | .num v s, d => by cases d <;> simp only [Expr.same, beq_comm_float v, beq_swap s]
  | .str v s, d => by cases d <;> simp only [Expr.same, beq_swap v, beq_swap s]
  | .null s, d => by cases d <;> simp only [Expr.same, beq_swap s]
  | .ident n s, d => by cases d <;> simp only [Expr.same, beq_swap n, beq_swap s]
  | .member o k s, d => by
    have ho := o.same_comm
    have hk := k.same_comm
    cases d <;> simp only [Expr.same, ho, hk, beq_swap s]
  | .call c as s, d => by
    have hc := c.same_comm
    have has := Expr.listSame_comm as
    cases d <;> simp only [Expr.same, hc, has, beq_swap s]
  | .binary op a b s, d => by
    have ha := a.same_comm
    have hb := b.same_comm
    cases d <;> simp only [Expr.same, beq_swap op, ha, hb, beq_swap s]
  | .logical op a b s, d => by
    have ha := a.same_comm
    have hb := b.same_comm
    cases d <;> simp only [Expr.same, beq_swap op, ha, hb, beq_swap s]
  | .unary op a s, d => by
    have ha := a.same_comm
    cases d <;> simp only [Expr.same, beq_swap op, ha, beq_swap s]
  | .update op f a s, d => by
    have ha := a.same_comm
    cases d <;> simp only [Expr.same, beq_swap op, beq_swap f, ha, beq_swap s]
  | .assign op a b s, d => by
    have ha := a.same_comm
    have hb := b.same_comm
    cases d <;> simp only [Expr.same, beq_swap op, ha, hb, beq_swap s]
  | .ternary a b c s, d => by
    have ha := a.same_comm
    have hb := b.same_comm
    have hc := c.same_comm
    cases d <;> simp only [Expr.same, ha, hb, hc, beq_swap s]
  | .function f, d => by
    have hf := f.same_comm
    cases d <;> simp only [Expr.same, hf]
  | .unsupported k s, d => by cases d <;> simp only [Expr.same, beq_swap k, beq_swap s]
termination_by structural part => part

theorem Expr.listSame_comm : ∀ es ds : List Expr, Expr.listSame es ds = Expr.listSame ds es
  | [], ds => by cases ds <;> simp only [Expr.listSame, List.isEmpty]
  | e :: es, ds => by
    have he := e.same_comm
    have hes := Expr.listSame_comm es
    cases ds <;> simp only [Expr.listSame, List.isEmpty, he, hes]
termination_by structural part => part

theorem Expr.optionSame_comm : ∀ e d : Option Expr, Expr.optionSame e d = Expr.optionSame d e
  | none, d => by cases d <;> simp only [Expr.optionSame, Option.isNone]
  | some e, d => by
    have he := e.same_comm
    cases d <;> simp only [Expr.optionSame, Option.isNone, he]
termination_by structural part => part

theorem MemberKey.same_comm : ∀ k l : MemberKey, k.same l = l.same k
  | .fixed n, l => by cases l <;> simp only [MemberKey.same, beq_swap n]
  | .computed e, l => by
    have he := e.same_comm
    cases l <;> simp only [MemberKey.same, he]
termination_by structural part => part

theorem FunctionDef.same_comm : ∀ f g : FunctionDef, f.same g = g.same f
  | .mk n ps b a s, g => by
    have hb := b.same_comm
    cases g
    simp only [FunctionDef.same, BEq.comm (a := n), BEq.comm (a := ps), hb, beq_swap a, beq_swap s]
termination_by structural part => part

theorem Declarator.listSame_comm : ∀ ds es : List Declarator, Declarator.listSame ds es = Declarator.listSame es ds
  | [], es => by rcases es with _ | ⟨⟨⟩, _⟩ <;> simp only [Declarator.listSame, List.isEmpty]
  | .mk n i s :: ds, es => by
    have hi := Expr.optionSame_comm i
    have hds := Declarator.listSame_comm ds
    rcases es with _ | ⟨⟨⟩, _⟩ <;>
      simp only [Declarator.listSame, List.isEmpty, beq_swap n, hi, hds, beq_swap s]
termination_by structural part => part

theorem ForInit.optionSame_comm : ∀ i j : Option ForInit, ForInit.optionSame i j = ForInit.optionSame j i
  | none, j => by rcases j with _ | ⟨⟩ | _ <;> simp only [ForInit.optionSame, Option.isNone]
  | some (.declare k ds s), j => by
    have hds := Declarator.listSame_comm ds
    rcases j with _ | ⟨⟩ | _ <;>
      simp only [ForInit.optionSame, Option.isNone, beq_swap k, hds, beq_swap s]
  | some (.expr e), j => by
    have he := e.same_comm
    rcases j with _ | ⟨⟩ | _ <;> simp only [ForInit.optionSame, Option.isNone, he]
termination_by structural part => part

theorem Stmt.same_comm : ∀ s r : Stmt, s.same r = r.same s
  | .block b s, r => by
    have hb := Stmt.listSame_comm b
    cases r <;> simp only [Stmt.same, hb, beq_swap s]
  | .declare k ds s, r => by
    have hds := Declarator.listSame_comm ds
    cases r <;> simp only [Stmt.same, beq_swap k, hds, beq_swap s]
  | .function f, r => by
    have hf := f.same_comm
    cases r <;> simp only [Stmt.same, hf]
  | .expr e s, r => by
    have he := e.same_comm
    cases r <;> simp only [Stmt.same, he, beq_swap s]
  | .ifElse a b c s, r => by
    have ha := a.same_comm
    have hb := b.same_comm
    have hc := Stmt.optionSame_comm c
    cases r <;> simp only [Stmt.same, ha, hb, hc, beq_swap s]
  | .for i a u b s, r => by
    have hi := ForInit.optionSame_comm i
    have ha := Expr.optionSame_comm a
    have hu := Expr.optionSame_comm u
    have hb := b.same_comm
    cases r <;> simp only [Stmt.same, hi, ha, hu, hb, beq_swap s]
  | .ret v s, r => by
    have hv := Expr.optionSame_comm v
    cases r <;> simp only [Stmt.same, hv, beq_swap s]
  | .empty s, r => by cases r <;> simp only [Stmt.same, beq_swap s]
  | .unsupported k s, r => by cases r <;> simp only [Stmt.same, beq_swap k, beq_swap s]
termination_by structural part => part

theorem Stmt.listSame_comm : ∀ ss rs : List Stmt, Stmt.listSame ss rs = Stmt.listSame rs ss
  | [], rs => by cases rs <;> simp only [Stmt.listSame, List.isEmpty]
  | s :: ss, rs => by
    have hs := s.same_comm
    have hss := Stmt.listSame_comm ss
    cases rs <;> simp only [Stmt.listSame, List.isEmpty, hs, hss]
termination_by structural part => part

theorem Stmt.optionSame_comm : ∀ s r : Option Stmt, Stmt.optionSame s r = Stmt.optionSame r s
  | none, r => by cases r <;> simp only [Stmt.optionSame, Option.isNone]
  | some s, r => by
    have hs := s.same_comm
    cases r <;> simp only [Stmt.optionSame, Option.isNone, hs]
termination_by structural part => part

end

/-! ## Values -/

namespace Value

mutual

theorem same_comm : ∀ v w : Value, v.same w = w.same v
  | undefined, w => by cases w <;> simp only [same]
  | null, w => by cases w <;> simp only [same]
  | bool a, w => by cases w <;> simp only [same, beq_swap a]
  | num x, w => by cases w <;> simp only [same, beq_comm_float x]
  | str s, w => by cases w <;> simp only [same, beq_swap s]
  | list vs, w => by
    have hvs := listSame_comm vs
    cases w <;> simp only [same, hvs]
  | func f, w => by cases w <;> simp only [same, f.same_comm]
  | builtin f r, w => by
    have hr := optionSame_comm r
    cases w <;> simp only [same, beq_swap f, hr]
  | host o, w => by cases w <;> simp only [same, beq_swap o]
  | element e, w => by cases w <;> simp only [same, beq_swap e]
termination_by structural part => part

theorem listSame_comm : ∀ vs ws : List Value, listSame vs ws = listSame ws vs
  | [], ws => by cases ws <;> simp only [listSame, List.isEmpty]
  | v :: vs, ws => by
    have hv := v.same_comm
    have hvs := listSame_comm vs
    cases ws <;> simp only [listSame, List.isEmpty, hv, hvs]
termination_by structural part => part

theorem optionSame_comm : ∀ v w : Option Value, optionSame v w = optionSame w v
  | none, w => by cases w <;> simp only [optionSame, Option.isNone]
  | some v, w => by
    have hv := v.same_comm
    cases w <;> simp only [optionSame, Option.isNone, hv]
termination_by structural part => part

end

/-! ## Equality -/

theorem strictlyEquals_comm (v w : Value) : v.strictlyEquals w = w.strictlyEquals v := by
  cases v with
  | undefined | null | list _ => cases w <;> rfl
  | bool a => cases w <;> simp only [strictlyEquals, beq_swap a]
  | num x => cases w <;> simp only [strictlyEquals, beq_comm_float x]
  | str s => cases w <;> simp only [strictlyEquals, beq_swap s]
  | func f => cases w <;> simp only [strictlyEquals, f.same_comm]
  | builtin f r => cases w <;> simp only [strictlyEquals, beq_swap f, optionSame_comm r]
  | host o => cases w <;> simp only [strictlyEquals, beq_swap o]
  | element e => cases w <;> simp only [strictlyEquals, beq_swap e.node]

/-- Every conversion has its mirror image. -/
theorem looselyEquals_comm (v w : Value) : v.looselyEquals w = w.looselyEquals v := by
  unfold looselyEquals
  generalize v.unBool = a
  generalize w.unBool = b
  cases a with
  | num x =>
    cases b with
    | str t => exact beq_comm_float x _
    | list ws => exact beq_comm_float x _
    | _ => exact strictlyEquals_comm ..
  | str s =>
    cases b with
    | num y => exact beq_comm_float _ y
    | list ws => exact beq_swap ..
    | _ => exact strictlyEquals_comm ..
  | list vs =>
    cases b with
    | num y => exact beq_comm_float _ y
    | str t => exact beq_swap ..
    | _ => exact strictlyEquals_comm ..
  | null =>
    cases b with
    | undefined => rfl
    | _ => exact strictlyEquals_comm ..
  | undefined =>
    cases b with
    | null => rfl
    | _ => exact strictlyEquals_comm ..
  | _ => cases b <;> exact strictlyEquals_comm ..

/-- Equal values are of one kind, and values of one kind are not converted, truth values apart. -/
theorem looselyEquals_of_strictlyEquals {v w : Value} (h : v.strictlyEquals w = true) : v.looselyEquals w = true := by
  cases v with
  | bool a =>
    cases w with
    | bool b =>
      rw [eq_of_beq h]
      cases b <;> decide
    | _ => cases h
  | _ =>
    cases w <;> first | exact h | cases h

/-- Only the two empty values are loosely equal to one of them. -/
theorem looselyEquals_null {w : Value} : null.looselyEquals w = true ↔ w = null ∨ w = undefined := by
  cases w <;> simp [looselyEquals, unBool, strictlyEquals]

theorem looselyEquals_undefined {w : Value} : undefined.looselyEquals w = true ↔ w = null ∨ w = undefined := by
  cases w <;> simp [looselyEquals, unBool, strictlyEquals]

/-! ## One conversion at a time -/

/-- How many conversions of this operand there can be. -/
def conversions : Value → Nat
  | bool _ | list _ => 1
  | _ => 0

/-- Equality by conversions of one operand. Values of one kind are not converted. Of the rules for different kinds, the
first that fits is taken. -/
def convertedEquals (v w : Value) : Bool :=
  if v.ctorIdx = w.ctorIdx then v.strictlyEquals w
  else
    match v, w with
    | null, undefined | undefined, null => true
    | num x, str t => x == (str t).toNumber
    | str s, num y => (str s).toNumber == y
    | bool a, w => convertedEquals (num (bool a).toNumber) w
    | v, bool b => convertedEquals v (num (bool b).toNumber)
    | list vs, num y => convertedEquals (str (list vs).text) (num y)
    | list vs, str t => convertedEquals (str (list vs).text) (str t)
    | num x, list ws => convertedEquals (num x) (str (list ws).text)
    | str s, list ws => convertedEquals (str s) (str (list ws).text)
    | _, _ => false
termination_by v.conversions + w.conversions
decreasing_by all_goals simp [conversions]

/-- **The table** of loose equality says what the conversions come to. -/
theorem looselyEquals_eq_convertedEquals (v w : Value) : v.looselyEquals w = v.convertedEquals w := by
  cases v with
  | bool a =>
    cases w with
    | bool b =>
      -- Two truth values are of one kind, while the table makes numbers of both.
      have hkind : (bool a).ctorIdx = (bool b).ctorIdx := rfl
      rw [convertedEquals, if_pos hkind]
      cases a <;> cases b <;> decide
    | _ => simp [looselyEquals, unBool, strictlyEquals, convertedEquals, toNumber, Value.ctorIdx]
  | _ => cases w <;> simp [looselyEquals, unBool, strictlyEquals, convertedEquals, toNumber, Value.ctorIdx]

/-- **Equality of values**: loose equality is what conversions of one operand at a time come to, in the order of their
rules. Loose and strict equality are symmetric, strict equality implies loose equality, and what is loosely equal to
`null` or `undefined` is one of the two. -/
theorem equality_laws (v w : Value) :
    v.looselyEquals w = v.convertedEquals w ∧
      v.looselyEquals w = w.looselyEquals v ∧ v.strictlyEquals w = w.strictlyEquals v ∧
      (v.strictlyEquals w = true → v.looselyEquals w = true) ∧
      (null.looselyEquals w = true ↔ w = null ∨ w = undefined) ∧
      (undefined.looselyEquals w = true ↔ w = null ∨ w = undefined) :=
  ⟨looselyEquals_eq_convertedEquals v w, looselyEquals_comm v w, strictlyEquals_comm v w,
    looselyEquals_of_strictlyEquals, looselyEquals_null, looselyEquals_undefined⟩

end Value

end Stepwise
