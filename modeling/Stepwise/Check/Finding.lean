import Stepwise.Check.Visit

/-!
# Findings

Three rules look at every node of a script. A finding of severity `error` keeps the script from running; a warning marks
a part that will be skipped.
-/

namespace Stepwise

inductive Severity where
  | error
  | warning
  | hint
deriving DecidableEq, Inhabited

def Severity.name : Severity → String
  | error => "error"
  | warning => "warning"
  | hint => "hint"

def Severity.ofName? : String → Option Severity
  | "error" => some error
  | "warning" => some warning
  | "hint" => some hint
  | _ => none

structure Finding where
  span : Span
  message : String
  severity : Severity
  /-- The name of the rule that was broken. -/
  rule : String
deriving DecidableEq, Inhabited

namespace Finding

def isError (f : Finding) : Bool := f.severity = .error

/-- The finding on one line, with its position counted from `1`. -/
def text (f : Finding) : String :=
  s!"{f.severity.name} at line {f.span.startLine + 1}, col {f.span.startCol + 1}: {f.message} [{f.rule}]"

end Finding

/-! ## Rules -/

/-- A rule looks at one node and the number of functions around it. -/
structure CheckRule where
  name : String
  description : String
  find? : Visit → Option Finding

namespace CheckRule

def returnOutside : CheckRule where
  name := "return-outside-function"
  description := "return is only allowed inside a function body"
  find?
    | ⟨.stmt (.ret _ span), 0⟩ => some ⟨span, "'return' outside of function", .error, "return-outside-function"⟩
    | _ => none

/-- The warning about a construct outside the subset. -/
def unsupportedFinding (kind : String) (span : Span) : Finding :=
  ⟨span, kind ++ " is not supported and will be skipped", .warning, "unsupported-syntax"⟩

def unsupported : CheckRule where
  name := "unsupported-syntax"
  description := "Syntax outside the supported subset is skipped at run time"
  find?
    | ⟨.stmt (.unsupported kind span), _⟩ => some (unsupportedFinding kind span)
    | ⟨.expr (.unsupported kind span), _⟩ => some (unsupportedFinding kind span)
    | _ => none

def updateTarget : CheckRule where
  name := "invalid-update-target"
  description := "++ and -- only update plain variables"
  find?
    | ⟨.expr (.update _ _ (.ident _ _) _), _⟩ => none
    | ⟨.expr (.update _ _ _ span), _⟩ =>
      some ⟨span, "Update target must be a variable name", .warning, "invalid-update-target"⟩
    | _ => none

/-- The rules in the order in which they are applied. -/
def all : List CheckRule := [returnOutside, unsupported, updateTarget]

end CheckRule

/-! ## Checking a script -/

/-- All findings, by the start of their spans; of findings with the same start, those of an earlier rule come first. -/
def Program.findings (p : Program) : List Finding :=
  (CheckRule.all.flatMap fun r => p.visits.filterMap r.find?).mergeSort fun f g => f.span.start ≤ g.span.start

end Stepwise
