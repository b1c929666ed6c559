import Stepwise.Syntax.OfTree

/-!
# Reading scripts

`Program.parse` reads a whole script, `Expr.parse` a script that is a single expression. A text outside the grammar is
reported at the furthest place where a rule failed, with the rules that were expected there.
-/

namespace Stepwise

/-- Why a text is no script. -/
inductive ParseError where
  /-- The text leaves the grammar: none of the expected rules matches at the position. -/
  | unexpected (expected : List Rule) (position : Position)
  | build (cause : BuildError)
  /-- A statement of this kind stands where an expression is wanted. -/
  | notExpression (kind : String) (span : Span)
  /-- There is no statement, or more than one, where an expression is wanted. -/
  | notSingle (span : Span)
deriving DecidableEq

namespace ParseError

/-- What was expected, as text. -/
def expectation : List Rule → String
  | [] => "unexpected input"
  | rules => "expected " ++ " or ".intercalate (rules.map Rule.name)

def message : ParseError → String
  | unexpected expected p => s!"Syntax error at line {p.line + 1}, column {p.col + 1}: {expectation expected}"
  | build cause => cause.message
  | notExpression kind _ => s!"Expected an expression, found {kind}"
  | notSingle _ => "Expected exactly one expression"

/-- The line of the fault, counted from `1`. -/
def line : ParseError → Nat
  | unexpected _ p => p.line + 1
  | build cause => cause.span.line
  | notExpression _ span | notSingle span => span.line

end ParseError

/-- Reads a script given as characters. -/
def Program.ofChars (text : List Char) : Except ParseError Program :=
  match Tree.ofText text with
  | .error a => .error (.unexpected a.expected (Position.ofOffset text a.offset))
  | .ok ts => (Program.ofTrees text ts).mapError .build

/-- Reads a script. -/
def Program.parse (source : String) : Except ParseError Program := Program.ofChars source.toList

/-- The expression of a script that is one expression statement. -/
def Program.expression (p : Program) : Except ParseError Expr :=
  match p.body with
  | .block [.expr e _] _ => .ok e
  | .block [s] span => .error (.notExpression s.kindName span)
  | s => .error (.notSingle s.span)

/-- Reads a single expression. -/
def Expr.parse (source : String) : Except ParseError Expr := do (← Program.parse source).expression

end Stepwise
