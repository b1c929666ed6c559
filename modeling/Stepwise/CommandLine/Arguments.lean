import Stepwise.Number.Decimal

/-!
# Command-line arguments

The commands are `run`, `check`, `config` and `help`. The option `--config` may stand before and after the command, a
long option takes its value after `=` or as the next argument, and after `--` nothing is an option any more.

A value is looked at when the next option is met or the arguments end, so a fault in a value is reported after an
unknown option that follows it.
-/

namespace Stepwise

/-- What is wrong with arguments, or asks for help instead of a command. -/
inductive UsageError where
  | help
  /-- There are no arguments at all. -/
  | noArguments
  | missingCommand
  | unknownCommand (name : String)
  | unknownArgument (argument : String)
  /-- An option has no value, or a path is empty. -/
  | emptyValue
  | invalidNumber (text : String)
  /-- A flag was given a value. -/
  | unwantedValue
  /-- An option that is allowed once was given again. -/
  | repeated
  | missingFile
deriving DecidableEq

/-- Options that take a value. -/
inductive ValueOption where
  | config
  | dom
  | fire
  | answer
  | maxSteps
deriving DecidableEq

inductive Flag where
  | chained
  | json
deriving DecidableEq

/-- What `run` is asked for. -/
structure RunOptions where
  file : String
  dom : Option String
  fire : List String
  answers : List String
  maxSteps : Option Nat
  chained : Bool
  json : Bool

inductive Command where
  | run (options : RunOptions)
  | check (file : String)
  | config

/-- The arguments of the program. -/
structure Arguments where
  /-- The settings file that was asked for. -/
  config : Option String
  command : Command

namespace Arguments

/-! ## Names -/

/-- The places where arguments are read: before the command, and after each command. -/
inductive Place where
  | top
  | run
  | check
  | config
deriving DecidableEq

def Place.ofCommand? : String → Option Place
  | "run" => some run
  | "check" => some check
  | "config" => some config
  | _ => none

def Place.takesFile : Place → Bool
  | run | check => true
  | top | config => false

inductive LongName where
  | value (o : ValueOption)
  | flag (f : Flag)
  | help

/-- The long options of a place. -/
def longName? (place : Place) (name : String) : Option LongName :=
  match name, place with
  | "help", _ => some .help
  | "config", _ => some (.value .config)
  | "dom", .run => some (.value .dom)
  | "fire", .run => some (.value .fire)
  | "answer", .run => some (.value .answer)
  | "max-steps", .run => some (.value .maxSteps)
  | "chained", .run => some (.flag .chained)
  | "json", .run => some (.flag .json)
  | _, _ => none

/-- A long option and the value after `=`. -/
def splitLong (text : List Char) : String × Option String :=
  match text.dropWhile (· ≠ '=') with
  | '=' :: value => (String.ofList (text.takeWhile (· ≠ '=')), some (String.ofList value))
  | _ => (String.ofList text, none)

/-! ## Gathering -/

/-- A value that is not looked at yet. -/
inductive Pending where
  | nothing
  /-- An option that still waits for its value, or has it. -/
  | option (o : ValueOption) (value : Option String)
  | file (value : String)

/-- What was gathered at one place. -/
structure Draft where
  pending : Pending
  config : Option String
  file : Option String
  dom : Option String
  fire : List String
  answers : List String
  maxSteps : Option Nat
  chained : Bool
  json : Bool

def Draft.start : Draft := ⟨.nothing, none, none, none, [], [], none, false, false⟩

/-- Takes the value of an option that is allowed once. -/
def once {α : Type} (old : Option α) (new : Except UsageError α) : Except UsageError (Option α) :=
  if old.isSome then .error .repeated else new.map some

/-- A path is not empty. -/
def asPath (value : String) : Except UsageError String :=
  if value.isEmpty then .error .emptyValue else .ok value

def asCount (value : String) : Except UsageError Nat :=
  match readRadix? 10 value.toList with
  | some n => .ok n
  | none => .error (.invalidNumber value)

namespace Draft

def take (d : Draft) (o : ValueOption) (value : String) : Except UsageError Draft := do
  match o with
  | .config => return { d with config := ← once d.config (.ok value) }
  | .dom => return { d with dom := ← once d.dom (asPath value) }
  | .fire => return { d with fire := d.fire ++ [value] }
  | .answer => return { d with answers := d.answers ++ [value] }
  | .maxSteps => return { d with maxSteps := ← once d.maxSteps (asCount value) }

/-- Looks at the value that is pending. -/
def settle (d : Draft) : Except UsageError Draft := do
  let done := { d with pending := .nothing }
  match d.pending with
  | .nothing => return d
  | .option _ none => throw .emptyValue
  | .option o (some value) => done.take o value
  | .file value => return { done with file := some (← asPath value) }

def raise (d : Draft) (f : Flag) : Except UsageError Draft :=
  match f with
  | .chained => if d.chained then .error .repeated else .ok { d with chained := true }
  | .json => if d.json then .error .repeated else .ok { d with json := true }

/-- A long option. -/
def long (d : Draft) (place : Place) (text : List Char) : Except UsageError Draft := do
  let (name, value) := splitLong text
  match longName? place name, value with
  | none, _ => throw (.unknownArgument ("--" ++ name))
  | some (.value o), some v => (← d.settle).take o v
  | some (.value o), none => return { ← d.settle with pending := .option o none }
  | some (.flag _), some _ | some .help, some _ => throw .unwantedValue
  | some (.flag f), none => (← d.settle).raise f
  | some .help, none =>
    let _ ← d.settle
    throw .help

/-- Short options; there is only the one for help. -/
def short (d : Draft) (name : Char) : Except UsageError Draft := do
  if name = 'h' then
    let _ ← d.settle
    throw .help
  else throw (.unknownArgument (String.ofList ['-', name]))

/-- An argument that is no option. -/
def plain (d : Draft) (place : Place) (argument : String) : Except UsageError Draft :=
  let filed := d.file.isSome || match d.pending with
    | .file _ => true
    | _ => false
  if place.takesFile && ! filed then do return { ← d.settle with pending := .file argument }
  else .error (.unknownArgument argument)

end Draft

/-! ## Commands -/

/-- The arguments after a command, as long as options are recognised (`true`) and after `--` (`false`). -/
def gather (place : Place) : Bool → List String → Draft → Except UsageError Draft
  | _, [], d => d.settle
  | false, a :: rest, d => do gather place false rest (← d.plain place a)
  | true, a :: rest, d => do
    match a.toList with
    | ['-', '-'] => gather place false rest d
    | '-' :: '-' :: text => gather place true rest (← d.long place text)
    | '-' :: name :: _ => gather place true rest (← d.short name)
    | _ =>
      match d.pending with
      | .option o none => gather place true rest { d with pending := .option o (some a) }
      | _ => gather place true rest (← d.plain place a)

/-- The command of a draft. -/
def commandOf (place : Place) (d : Draft) : Except UsageError Command :=
  match place, d.file with
  | .config, _ => .ok .config
  | .check, some file => .ok (.check file)
  | .run, some file => .ok (.run ⟨file, d.dom, d.fire, d.answers, d.maxSteps, d.chained, d.json⟩)
  | .top, _ => .error .missingCommand
  | _, none => .error .missingFile

/-- What `help` is asked about has to be a command. -/
def helpFor : List String → Except UsageError Arguments
  | [] => .error .help
  | [name] => .error (if name = "help" ∨ (Place.ofCommand? name).isSome then .help else .unknownCommand name)
  | name :: next :: _ =>
    .error (.unknownCommand (if name = "help" ∨ (Place.ofCommand? name).isSome then next else name))

/-- The command after the options that stand before it. -/
def enter (place : Place) (rest : List String) (top : Draft) : Except UsageError Arguments := do
  let d ← gather place true rest .start
  let command ← commandOf place d
  let top ← top.settle
  return ⟨d.config.or top.config, command⟩

/-- All arguments, as long as options are recognised (`true`) and after `--` (`false`). -/
def readTop : Bool → List String → Draft → Except UsageError Arguments
  | _, [], d => do
    let d ← d.settle
    throw (if d.config.isSome then .missingCommand else .noArguments)
  | false, a :: _, _ =>
    .error (if a = "help" ∨ (Place.ofCommand? a).isSome then .unknownArgument a else .unknownCommand a)
  | true, a :: rest, d => do
    match d.pending, a.toList with
    | _, ['-', '-'] => readTop false rest d
    | _, '-' :: '-' :: text => readTop true rest (← d.long .top text)
    | _, '-' :: name :: _ => readTop true rest (← d.short name)
    | .option o none, _ => readTop true rest { d with pending := .option o (some a) }
    | _, _ =>
      match a, Place.ofCommand? a with
      | "help", _ => helpFor rest
      | _, some place => enter place rest d
      | _, none => throw (.unknownCommand a)

/-- Reads the arguments of the program. -/
def read (args : List String) : Except UsageError Arguments := readTop true args .start

end Arguments

end Stepwise
