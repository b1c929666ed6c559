import Stepwise.Machine.Json

/-!
# Reports

What a command prints, line by line, and how it may fail.
-/

namespace Stepwise

/-- Fills a text up with spaces, to the left or to the right of it. -/
def padLeft (width : Nat) (s : String) : String := String.ofList (List.replicate (width - s.length) ' ') ++ s

def padRight (width : Nat) (s : String) : String := s ++ String.ofList (List.replicate (width - s.length) ' ')

/-- The word for a kind of log entry in reports. -/
def LogKind.word : LogKind → String
  | .diagnostic => "skipped"
  | kind => kind.name

def LogEntry.text (e : LogEntry) : String := padRight 8 e.kind.word ++ " " ++ e.message

/-- One piece of output. -/
inductive Line where
  /-- A step that was taken. -/
  | step (number : Nat) (line : Option Nat) (explanation : String)
  | log (entry : LogEntry)
  /-- The end of a run. -/
  | summary (steps : Nat)
  | binding (name : String) (value : Value)
  | alert (message : String)
  | state (m : Machine)
  /-- A finding in a script that runs all the same. -/
  | warning (f : Finding)
  | noListeners (event id : String)
  | stopped (limit : Nat)
  /-- A finding in a script that is checked. -/
  | finding (f : Finding)
  | valid (file : String) (warnings : Nat)
  | settings (toml : String)

namespace Line

/-- Whether the line belongs to the error output. -/
def toErrors : Line → Bool
  | warning _ | noListeners .. | stopped _ => true
  | _ => false

def text : Line → String
  | step number (some line) explanation => s!"[{padLeft 3 (toString number)}] line {line}: {explanation}\n"
  | step number none explanation => s!"[{padLeft 3 (toString number)}] {explanation}\n"
  | log entry => s!"      {entry.text}\n"
  | summary steps => s!"\nFinished after {steps} step(s)\n"
  | binding name value => s!"  {name} = {value.shown}\n"
  | alert message => s!"  alert: {message}\n"
  | state m => m.toJson.pretty ++ "\n"
  | warning f | finding f => f.text ++ "\n"
  | noListeners event id => s!"No {event} listeners on #{id}\n"
  | stopped limit => s!"Stopped after {limit} steps (max_steps)\n"
  | valid file warnings => s!"✓ {file} is valid ({warnings} warning(s))\n"
  | settings toml => toml

end Line

/-- Why a command fails. -/
inductive Failure where
  | settings
  /-- Settings that have no text. -/
  | unwritable
  | read (file : String)
  | fixture (file : String)
  | load (file : String) (cause : LoadError)
  /-- An event that is not written as `ID:EVENT`. -/
  | badEvent (text : String)
  | runtime (line : Option Nat) (cause : RuntimeError)

def Failure.message : Failure → String
  | settings => "Failed to load configuration"
  | unwritable => "out-of-range value for u64 type"
  | read file => "Failed to read " ++ file
  | fixture file => "Invalid document fixture " ++ file
  | load file cause => s!"{file} failed to load: {cause.message}"
  | badEvent text => s!"Invalid --fire value '{text}', expected ID:EVENT"
  | runtime line cause => s!"Runtime error at line {line.getD 0}: {cause.message}"

/-- What a command printed, and whether it failed. -/
structure Report where
  lines : List Line
  failure : Option Failure

namespace Report

def failed (f : Failure) : Report := ⟨[], some f⟩

def output (r : Report) : String := String.join ((r.lines.filter (! ·.toErrors)).map Line.text)

def errors (r : Report) : String := String.join ((r.lines.filter (·.toErrors)).map Line.text)

end Report

end Stepwise
