import Stepwise.Syntax.Tree

/-!
# Sameness of trees

Two trees are the same if they have the same shape, names and spans and their number literals are equal as numbers: the
two zeros are the same literal, and a literal that is not a number is not the same as itself.
-/

namespace Stepwise

mutual

def Expr.same : Expr → Expr → Bool
  | .bool v s, e => match e with | .bool w t => v == w && s == t | _ => false
  | .num v s, e => match e with | .num w t => v == w && s == t | _ => false
  | .str v s, e => match e with | .str w t => v == w && s == t | _ => false
  | .null s, e => match e with | .null t => s == t | _ => false
  | .ident n s, e => match e with | .ident m t => n == m && s == t | _ => false
  | .member o k s, e => match e with | .member p l t => o.same p && k.same l && s == t | _ => false
  | .call c as s, e => match e with | .call d bs t => c.same d && Expr.listSame as bs && s == t | _ => false
  | .binary op a b s, e =>
    match e with | .binary oq c d t => op == oq && a.same c && b.same d && s == t | _ => false
  | .logical op a b s, e =>
    match e with | .logical oq c d t => op == oq && a.same c && b.same d && s == t | _ => false
  | .unary op a s, e => match e with | .unary oq b t => op == oq && a.same b && s == t | _ => false
  | .update op f a s, e =>
    match e with | .update oq g b t => op == oq && f == g && a.same b && s == t | _ => false
  | .assign op a b s, e =>
    match e with | .assign oq c d t => op == oq && a.same c && b.same d && s == t | _ => false
  | .ternary a b c s, e =>
    match e with | .ternary x y z t => a.same x && b.same y && c.same z && s == t | _ => false
  | .function f, e => match e with | .function g => f.same g | _ => false
  | .unsupported k s, e => match e with | .unsupported l t => k == l && s == t | _ => false

def Expr.listSame : List Expr → List Expr → Bool
  | [], es => es.isEmpty
  | e :: es, ds => match ds with | d :: ds => e.same d && Expr.listSame es ds | [] => false

def Expr.optionSame : Option Expr → Option Expr → Bool
  | none, d => d.isNone
  | some e, d => match d with | some d => e.same d | none => false

def MemberKey.same : MemberKey → MemberKey → Bool
  | .fixed n, k => match k with | .fixed m => n == m | _ => false
  | .computed e, k => match k with | .computed d => e.same d | _ => false

def FunctionDef.same : FunctionDef → FunctionDef → Bool
  | .mk n ps b a s, .mk m qs c d t => n == m && ps == qs && b.same c && a == d && s == t

def Declarator.listSame : List Declarator → List Declarator → Bool
  | [], ds => ds.isEmpty
  | .mk n i s :: ds, es =>
    match es with
    | .mk m j t :: es => n == m && Expr.optionSame i j && s == t && Declarator.listSame ds es
    | [] => false

def ForInit.optionSame : Option ForInit → Option ForInit → Bool
  | none, i => i.isNone
  | some (.declare k ds s), i =>
    match i with
    | some (.declare l es t) => k == l && Declarator.listSame ds es && s == t
    | _ => false
  | some (.expr e), i => match i with | some (.expr d) => e.same d | _ => false

def Stmt.same : Stmt → Stmt → Bool
  | .block b s, r => match r with | .block c t => Stmt.listSame b c && s == t | _ => false
  | .declare k ds s, r =>
    match r with | .declare l es t => k == l && Declarator.listSame ds es && s == t | _ => false
  | .function f, r => match r with | .function g => f.same g | _ => false
  | .expr e s, r => match r with | .expr d t => e.same d && s == t | _ => false
  | .ifElse a b c s, r =>
    match r with | .ifElse x y z t => a.same x && b.same y && Stmt.optionSame c z && s == t | _ => false
  | .for i a u b s, r =>
    match r with
    | .for j x v c t =>
      ForInit.optionSame i j && Expr.optionSame a x && Expr.optionSame u v && b.same c && s == t
    | _ => false
  | .ret v s, r => match r with | .ret w t => Expr.optionSame v w && s == t | _ => false
  | .empty s, r => match r with | .empty t => s == t | _ => false
  | .unsupported k s, r => match r with | .unsupported l t => k == l && s == t | _ => false

def Stmt.listSame : List Stmt → List Stmt → Bool
  | [], ss => ss.isEmpty
  | s :: ss, rs => match rs with | r :: rs => s.same r && Stmt.listSame ss rs | [] => false

def Stmt.optionSame : Option Stmt → Option Stmt → Bool
  | none, r => r.isNone
  | some s, r => match r with | some r => s.same r | none => false

end

end Stepwise
