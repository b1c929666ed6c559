import Stepwise.Check.Finding
import Stepwise.Machine.Context
import Stepwise.Syntax.Parse

/-!
# Machines

A machine runs one script. It starts with the whole script in the queue of the global frame, and it ends when all queues
are empty or a step fails.
-/

namespace Stepwise

structure Machine where
  program : Program
  /-- The findings that do not keep the script from running. -/
  warnings : List Finding
  scoping : Scoping
  stack : Stack
  world : World
  finished : Bool
  error : Option RuntimeError
  /-- The line of the last unit, counted from `1`. -/
  line : Option Nat
  /-- What the last unit did, in words. -/
  explanation : String
  /-- How many units were run. -/
  steps : Nat

/-- Why there is no machine for a text. -/
inductive LoadError where
  | parse (cause : ParseError)
  /-- The script breaks rules. -/
  | check (errors : List Finding)

def LoadError.message : LoadError → String
  | parse cause => cause.message
  | check errors => "\n".intercalate (errors.map Finding.text)

namespace Machine

/-- A machine for a script that passed the rules. -/
def ofProgram (program : Program) (warnings : List Finding) (scoping : Scoping) (document : Option Document) :
    Machine where
  program
  warnings
  scoping
  stack := .start program.body
  world := ⟨[], [], document⟩
  finished := false
  error := none
  line := none
  explanation := ""
  steps := 0

/-- Reads and checks a script. Nothing runs before the first step. -/
def load (source : String) (document : Option Document) (scoping : Scoping) : Except LoadError Machine := do
  let program ← (Program.parse source).mapError .parse
  let (errors, warnings) := program.findings.partition Finding.isError
  if errors.isEmpty then return ofProgram program warnings scoping document else throw (.check errors)

/-- The value of a global variable. -/
def global? (m : Machine) (name : String) : Option Value := m.stack.global.scope.get? name

/-- The messages of one kind, oldest first. -/
def messages (m : Machine) (kind : LogKind) : List String :=
  (m.world.logs.filter (·.kind = kind)).map LogEntry.message

def log (m : Machine) (kind : LogKind) (message : String) : Machine :=
  { m with world := m.world.log ⟨kind, message, m.line⟩ }

/-- Notes that a call is done, if it handled an event. -/
def concluded (m : Machine) (a : Activation) : Machine :=
  match a.handling with
  | some note => m.log .event note.message
  | none => m

/-- Stops with an error. -/
def halt (m : Machine) (e : RuntimeError) : Machine := { m with error := some e, finished := true }

/-- The context of a unit that runs with the given local scope. -/
def context (m : Machine) (locals : Option Scope) : Context where
  scoping := m.scoping
  line := m.line
  globals := m.stack.global.scope
  locals
  pushed := []
  world := m.world

end Machine

/-- A machine after it was asked to move. -/
structure Move where
  machine : Machine
  /-- Whether an observer is shown the machine. -/
  shown : Bool

end Stepwise
