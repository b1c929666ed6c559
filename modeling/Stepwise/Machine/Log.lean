/-!
# Logs

A machine keeps a list of what happened, oldest entry first.
-/

namespace Stepwise

inductive LogKind where
  /-- A message to the console. -/
  | console
  /-- A declaration bound a value. -/
  | binding
  /-- A function returned. -/
  | ret
  /-- A listener was registered, called or done. -/
  | event
  /-- Code was skipped. -/
  | diagnostic
deriving DecidableEq, Inhabited

namespace LogKind

def name : LogKind → String
  | console => "console"
  | binding => "binding"
  | ret => "return"
  | event => "event"
  | diagnostic => "diagnostic"

def ofName? : String → Option LogKind
  | "console" => some console
  | "binding" => some binding
  | "return" => some ret
  | "event" => some event
  | "diagnostic" => some diagnostic
  | _ => none

end LogKind

structure LogEntry where
  kind : LogKind
  message : String
  /-- The line of the step that made the entry, counted from `1`. -/
  line : Option Nat
deriving DecidableEq, Inhabited

end Stepwise
