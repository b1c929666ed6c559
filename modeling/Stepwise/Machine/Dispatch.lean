import Stepwise.Machine.Eval

/-!
# Running one unit

A unit runs in the activation whose queue it was taken from. It says what that activation has to do next, or that the
activation is left with a value.
-/

namespace Stepwise

/-- What follows a unit. -/
inductive Outcome where
  /-- Work to do before all other work of the activation. -/
  | next (work : List Work)
  /-- The activation ends. -/
  | leave (value : Value)

/-- The value of an optional expression; without one it is undefined. -/
def evalOption : Option Expr → Eval Value
  | none => return .undefined
  | some e => e.eval

/-- Binds the names of a declaration, first to last. -/
def declareAll (kind : VarKind) : List Declarator → Eval Unit
  | [] => return ()
  | d :: ds => do
    let v ← evalOption d.init?
    Eval.log .binding s!"{kind.keyword} {d.name} = {v.shown}"
    modify (·.declare d.name (.ofVarKind kind) v)
    declareAll kind ds

/-- Whether a loop goes on; without a test it does. -/
def loopTest : Option Expr → Eval Bool
  | none => return true
  | some e => do return (← e.eval).truthy

/-- The work of one round of a loop: its body, its update and the next test. -/
def loopRound : Stmt → List Work
  | .for init test update body span =>
    .stmt body :: (update.map Work.loopUpdate).toList ++ [.loopCheck (.for init test update body span)]
  | _ => []

def startLoop : Option ForInit → Eval Unit
  | none => return ()
  | some (.declare kind decls _) => declareAll kind decls
  | some (.expr e) => do let _ ← e.eval

def Stmt.run (s : Stmt) : Eval Outcome := do
  match s with
  | .block body _ => return .next (body.map Work.stmt)
  | .declare kind decls _ =>
    declareAll kind decls
    return .next []
  | .function fn =>
    let params := ", ".intercalate fn.params
    Eval.log .binding s!"function {fn.displayName}({params})"
    modify (·.declare fn.displayName .func (.func fn))
    return .next []
  | .expr e _ =>
    let _ ← e.eval
    return .next []
  | .ifElse test thenS elseS _ =>
    if (← test.eval).truthy then return .next [.stmt thenS]
    else return .next (elseS.map Work.stmt).toList
  | .for init test _ _ _ =>
    startLoop init
    if ← loopTest test then return .next (loopRound s) else return .next []
  | .ret value _ => return .leave (← evalOption value)
  | .empty _ => return .next []
  | .unsupported kind _ =>
    Eval.diagnostic ("Skipped unsupported " ++ kind)
    return .next []

def Work.run : Work → Eval Outcome
  | .stmt s => s.run
  | .loopUpdate e => do
    let _ ← e.eval
    return .next []
  | .loopCheck (.for init test update body span) => do
    if ← loopTest test then return .next (loopRound (.for init test update body span)) else return .next []
  | .loopCheck _ => return .next []

end Stepwise
