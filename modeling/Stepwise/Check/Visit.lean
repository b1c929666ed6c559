import Stepwise.Syntax.Tree

/-!
# Nodes of a script

All statements and expressions under a statement, each before its parts and in source order, with the number of
functions around it.
-/

namespace Stepwise

inductive Node where
  | stmt (s : Stmt)
  | expr (e : Expr)

/-- A node and how many function bodies it lies in. -/
structure Visit where
  node : Node
  depth : Nat

mutual

def Stmt.visits (depth : Nat) : Stmt → List Visit
  | .block body s => ⟨.stmt (.block body s), depth⟩ :: Stmt.listVisits depth body
  | .declare kind decls s => ⟨.stmt (.declare kind decls s), depth⟩ :: Declarator.listVisits depth decls
  | .function fn => ⟨.stmt (.function fn), depth⟩ :: fn.visits depth
  | .expr e s => ⟨.stmt (.expr e s), depth⟩ :: e.visits depth
  | .ifElse test thenS elseS s =>
    ⟨.stmt (.ifElse test thenS elseS s), depth⟩ :: test.visits depth ++ thenS.visits depth ++
      Stmt.optionVisits depth elseS
  | .for init test update body s =>
    ⟨.stmt (.for init test update body s), depth⟩ :: ForInit.optionVisits depth init ++ Expr.optionVisits depth test ++
      Expr.optionVisits depth update ++ body.visits depth
  | .ret value s => ⟨.stmt (.ret value s), depth⟩ :: Expr.optionVisits depth value
  | .empty s => [⟨.stmt (.empty s), depth⟩]
  | .unsupported kind s => [⟨.stmt (.unsupported kind s), depth⟩]

def Stmt.listVisits (depth : Nat) : List Stmt → List Visit
  | [] => []
  | s :: ss => s.visits depth ++ Stmt.listVisits depth ss

def Stmt.optionVisits (depth : Nat) : Option Stmt → List Visit
  | none => []
  | some s => s.visits depth

/-- The nodes of the body; the function itself is not among them. -/
def FunctionDef.visits (depth : Nat) : FunctionDef → List Visit
  | .mk _ _ body _ _ => body.visits (depth + 1)

def Declarator.listVisits (depth : Nat) : List Declarator → List Visit
  | [] => []
  | .mk _ init _ :: ds => Expr.optionVisits depth init ++ Declarator.listVisits depth ds

def ForInit.optionVisits (depth : Nat) : Option ForInit → List Visit
  | none => []
  | some (.declare _ decls _) => Declarator.listVisits depth decls
  | some (.expr e) => e.visits depth

def Expr.visits (depth : Nat) : Expr → List Visit
  | .member object key s => ⟨.expr (.member object key s), depth⟩ :: object.visits depth ++ key.visits depth
  | .call callee args s =>
    ⟨.expr (.call callee args s), depth⟩ :: callee.visits depth ++ Expr.listVisits depth args
  | .binary op left right s =>
    ⟨.expr (.binary op left right s), depth⟩ :: left.visits depth ++ right.visits depth
  | .logical op left right s =>
    ⟨.expr (.logical op left right s), depth⟩ :: left.visits depth ++ right.visits depth
  | .unary op arg s => ⟨.expr (.unary op arg s), depth⟩ :: arg.visits depth
  | .update op before arg s => ⟨.expr (.update op before arg s), depth⟩ :: arg.visits depth
  | .assign op target value s =>
    ⟨.expr (.assign op target value s), depth⟩ :: target.visits depth ++ value.visits depth
  | .ternary condition consequent alternate s =>
    ⟨.expr (.ternary condition consequent alternate s), depth⟩ :: condition.visits depth ++ consequent.visits depth ++
      alternate.visits depth
  | .function fn => ⟨.expr (.function fn), depth⟩ :: fn.visits depth
  | .bool v s => [⟨.expr (.bool v s), depth⟩]
  | .num v s => [⟨.expr (.num v s), depth⟩]
  | .str v s => [⟨.expr (.str v s), depth⟩]
  | .null s => [⟨.expr (.null s), depth⟩]
  | .ident name s => [⟨.expr (.ident name s), depth⟩]
  | .unsupported kind s => [⟨.expr (.unsupported kind s), depth⟩]

def Expr.listVisits (depth : Nat) : List Expr → List Visit
  | [] => []
  | e :: es => e.visits depth ++ Expr.listVisits depth es

def Expr.optionVisits (depth : Nat) : Option Expr → List Visit
  | none => []
  | some e => e.visits depth

def MemberKey.visits (depth : Nat) : MemberKey → List Visit
  | .fixed _ => []
  | .computed e => e.visits depth

end

/-- All nodes of a script. -/
def Program.visits (p : Program) : List Visit := p.body.visits 0

end Stepwise
