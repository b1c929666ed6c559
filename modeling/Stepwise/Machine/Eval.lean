import Stepwise.Machine.Call
import Stepwise.Value.Operators

/-!
# Evaluation of expressions

Evaluation is one piece of a step: it never waits for a call. Calls of script functions are left for later steps.
-/

namespace Stepwise

/-- Whether the left operand already is the result. -/
def LogicalOp.decidedBy : LogicalOp → Value → Bool
  | .and, v => ! v.truthy
  | .or, v => v.truthy

def UnaryOp.apply : UnaryOp → Value → Value
  | .not, v => .bool (! v.truthy)
  | .neg, v => .num (-v.toNumber)
  | .plus, v => .num v.toNumber
  | .typeOf, v => .str v.typeName

def UpdateOp.apply : UpdateOp → Float → Float
  | .inc, x => x + 1.0
  | .dec, x => x - 1.0

namespace Eval

/-- The value of a name. -/
def resolve (name : String) : Eval Value := do
  match (← get).lookup? name with
  | some v => return v
  | none => throw (.notDefined name)

def assign (name : String) (v : Value) : Eval Unit := modify (·.assign name v)

def readMember (object : Value) (key : String) : Eval Value := do ofExcept ((← get).readMember object key)

def writeMember (object : Value) (key : String) (v : Value) : Eval Unit := do
  set (← ofExcept ((← get).writeMember object key v))

/-- Notes that code was skipped. -/
def diagnostic (message : String) : Eval Unit := log .diagnostic message

/-- Adds to a variable or subtracts from it. -/
def update (op : UpdateOp) (before : Bool) (name : String) : Eval Value := do
  let old := (← resolve name).toNumber
  let new := op.apply old
  assign name (.num new)
  return .num (if before then new else old)

end Eval

open Eval

mutual

def Expr.eval : Expr → Eval Value
  | .bool v _ => return .bool v
  | .num v _ => return .num v
  | .str v _ => return .str v
  | .null _ => return .null
  | .ident name _ => resolve name
  | .member object key _ => do
    let o ← object.eval
    let k ← key.eval
    readMember o k
  | .call callee args _ => do
    let f ← callee.eval
    let vs ← Expr.evalList args
    callValue f vs none callee.render
  | .binary op left right _ => do
    let v ← left.eval
    let w ← right.eval
    return op.apply v w
  | .logical op left right _ => do
    let v ← left.eval
    if op.decidedBy v then return v else right.eval
  | .unary .typeOf (.ident name _) _ => do
    return .str (((← get).lookup? name).getD .undefined).typeName
  | .unary op arg _ => do return op.apply (← arg.eval)
  | .update op before (.ident name _) _ => update op before name
  | .update _ _ arg _ => do
    diagnostic s!"Cannot update {arg.render}: only variables can be incremented"
    return .undefined
  | .assign op (.ident name _) value _ =>
    match op.binary? with
    | some bin => do
      let old ← resolve name
      let v := bin.apply old (← value.eval)
      assign name v
      return v
    | none => do
      let v ← value.eval
      assign name v
      return v
  | .assign op (.member object key _) value _ => do
    let o ← object.eval
    let k ← key.eval
    match op.binary? with
    | some bin =>
      let old ← readMember o k
      let v := bin.apply old (← value.eval)
      writeMember o k v
      return v
    | none =>
      let v ← value.eval
      writeMember o k v
      return v
  | .assign _ target _ _ => throw (.invalidAssignment target.render)
  | .ternary condition consequent alternate _ => do
    if (← condition.eval).truthy then consequent.eval else alternate.eval
  | .function fn => return .func fn
  | .unsupported kind _ => do
    diagnostic ("Skipped unsupported " ++ kind)
    return .undefined

/-- Values of arguments, first to last. -/
def Expr.evalList : List Expr → Eval (List Value)
  | [] => return []
  | e :: es => do
    let v ← e.eval
    let vs ← Expr.evalList es
    return v :: vs

/-- The name of a member. -/
def MemberKey.eval : MemberKey → Eval String
  | .fixed name => return name
  | .computed e => do return (← e.eval).text

end

end Stepwise
