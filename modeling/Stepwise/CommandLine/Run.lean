import Stepwise.CommandLine.Arguments
import Stepwise.CommandLine.Report
import Stepwise.Document.Fixture
import Stepwise.Machine.Event
import Stepwise.Machine.Step
import Stepwise.Settings.Load

/-!
# Commands

`run` steps through a script and prints every step, `check` only reads and checks it, `config` prints the settings. A
command is a function of its surroundings.
-/

namespace Stepwise

/-! ## Running a script -/

/-- How a run is printed. -/
structure PrintMode where
  /-- Only the last state is printed. -/
  quiet : Bool
  showLogs : Bool

/-- A machine and what was printed about it. -/
structure Session where
  machine : Machine
  /-- How many log entries were dealt with. -/
  logged : Nat
  /-- The lines, latest first. -/
  lines : List Line

namespace Session

def print (s : Session) (line : Line) : Session := { s with lines := line :: s.lines }

/-- Prints the log entries that are new. -/
def printLogs (mode : PrintMode) (s : Session) : Session :=
  let logs := s.machine.world.logs
  let fresh := if mode.quiet || ! mode.showLogs then [] else (logs.drop s.logged).map Line.log
  { s with logged := logs.length, lines := fresh.reverse ++ s.lines }

/-- Prints the last step and what it logged. -/
def printStep (mode : PrintMode) (s : Session) : Session :=
  let m := s.machine
  (if mode.quiet then s else s.print (.step m.steps m.line m.explanation)).printLogs mode

/-- Steps until the machine is finished, `limit` times at most, and prints every step. -/
def drive (mode : PrintMode) : Nat → Session → Session
  | 0, s => s
  | limit + 1, s =>
    if s.machine.finished then s
    else drive mode limit (({ s with machine := s.machine.step.machine }).printStep mode)

/-- Steps until the machine is finished or `maxSteps` steps were taken in all. -/
def driveTo (mode : PrintMode) (maxSteps : Nat) (s : Session) : Session :=
  s.drive mode (maxSteps - s.machine.steps)

/-- The identifier and the event of a target `ID:EVENT`. -/
def target? (text : String) : Option (String × String) :=
  match text.toList.dropWhile (· ≠ ':') with
  | ':' :: event => some (String.ofList (text.toList.takeWhile (· ≠ ':')), String.ofList event)
  | _ => none

/-- Fires events in turn, each after the one before has run to its end. -/
def fireAll (mode : PrintMode) (maxSteps : Nat) : List String → Session → Session × Option Failure
  | [], s => (s, none)
  | text :: rest, s =>
    if ! s.machine.finished then (s, none)
    else
      match target? text with
      | none => (s, some (.badEvent text))
      | some (id, event) =>
        match s.machine.fireById id event with
        | (0, _) => fireAll mode maxSteps rest (s.print (.noListeners event id))
        | (_, move) =>
          fireAll mode maxSteps rest ((({ s with machine := move.machine }).printLogs mode).driveTo mode maxSteps)

/-- The lines at the end of a run. -/
def closing (mode : PrintMode) (maxSteps : Nat) (m : Machine) : List Line :=
  let stopped := if m.finished then [] else [.stopped maxSteps]
  if mode.quiet then .state m :: stopped
  else
    let bindings := m.stack.global.scope.values.entries.map fun (name, v) => Line.binding name v
    let alerts := ((m.world.document.map (·.alerts)).getD []).map Line.alert
    .summary m.steps :: bindings ++ alerts ++ stopped

end Session

/-- Runs a machine to its end, fires events and prints everything. -/
def Machine.present (m : Machine) (mode : PrintMode) (maxSteps : Nat) (fire : List String) : Report :=
  let start : Session := ⟨m, 0, (m.warnings.map Line.warning).reverse⟩
  let (s, failure) := (start.driveTo mode maxSteps).fireAll mode maxSteps fire
  match failure with
  | some f => ⟨s.lines.reverse, some f⟩
  | none =>
    ⟨s.lines.reverse ++ Session.closing mode maxSteps s.machine, s.machine.error.map (.runtime s.machine.line)⟩

/-! ## Commands -/

namespace Command

/-- The document of a run. -/
def document (s : Surroundings) (o : RunOptions) : Except Failure Document := do
  let d ← match o.dom with
    | none => pure .empty
    | some file =>
      match s.readFile file with
      | none => throw (.read file)
      | some text =>
        match Document.ofFixture? text with
        | none => throw (.fixture file)
        | some d => pure d
  return { d with answers := d.answers ++ o.answers }

/-- Reads a script and makes a machine for it. -/
def machine (s : Surroundings) (settings : Settings) (o : RunOptions) : Except Failure Machine := do
  match s.readFile o.file with
  | none => throw (.read o.file)
  | some source =>
    let d ← document s o
    (Machine.load source (some d) settings.scoping).mapError (.load o.file)

def checkScript (s : Surroundings) (file : String) : Report :=
  match s.readFile file with
  | none => .failed (.read file)
  | some source =>
    match Machine.load source none .snapshot with
    | .error e => .failed (.load file e)
    | .ok m => ⟨m.warnings.map Line.finding ++ [.valid file m.warnings.length], none⟩

end Command

namespace Arguments

/-- Where the command takes its settings from. -/
def source (a : Arguments) : SettingsSource :=
  match a.command with
  | .run o => ⟨a.config, true, if o.chained then some .chained else none, o.maxSteps⟩
  | _ => ⟨a.config, true, none, none⟩

/-- Carries the command out. -/
def report (a : Arguments) (s : Surroundings) : Report :=
  match a.command with
  | .check file => Command.checkScript s file
  | .config =>
    match a.source.load? s with
    | none => .failed .settings
    | some settings =>
      match settings.toToml? with
      | none => .failed .unwritable
      | some toml => ⟨[.settings toml], none⟩
  | .run o =>
    match a.source.load? s with
    | none => .failed .settings
    | some settings =>
      match Command.machine s settings o with
      | .error f => .failed f
      | .ok m => m.present ⟨o.json, settings.showLogs⟩ settings.maxSteps o.fire

/-- The files that the command may read. -/
def files (a : Arguments) : List String :=
  match a.command with
  | .check file => [file]
  | .config => a.source.files
  | .run o => o.file :: o.dom.toList ++ a.source.files

end Arguments

end Stepwise
