import Stepwise.CommandLine.Run

/-!
# The program

Reads the files that a command may need, carries it out and prints its report.
-/

namespace Stepwise

/-- What is shown for arguments that name no command. -/
def UsageError.text : UsageError → String
  | .help | .noArguments =>
    "stepjs - run JavaScript one explained step at a time\n\n" ++
    "Usage: stepjs [--config <CONFIG>] <COMMAND>\n\n" ++
    "Commands:\n" ++
    "  run     Step through a script, printing each step and its log output\n" ++
    "  check   Parse and validate a script without running it\n" ++
    "  config  Print the effective configuration as TOML\n" ++
    "  help    Print this message\n"
  | .missingCommand => "error: a command is missing\n"
  | .unknownCommand name => s!"error: unrecognized command '{name}'\n"
  | .unknownArgument argument => s!"error: unexpected argument '{argument}' found\n"
  | .emptyValue => "error: a value is required\n"
  | .invalidNumber value => s!"error: invalid number '{value}'\n"
  | .unwantedValue => "error: a flag takes no value\n"
  | .repeated => "error: an option cannot be used multiple times\n"
  | .missingFile => "error: a script is missing\n"

/-- The text of a file, if it can be read. -/
def readText? (file : String) : IO (Option String) := do
  try
    return some (← IO.FS.readFile file)
  catch _ =>
    return none

/-- The environment variables that hold settings. -/
def settingVariables : List String :=
  ["STEPJS__INTERPRETER__CALL_SCOPING", "STEPJS__CLI__MAX_STEPS", "STEPJS__CLI__SHOW_LOGS"]

def surroundings (files : List String) : IO Surroundings := do
  let texts ← files.filterMapM fun file => do return (← readText? file).map (file, ·)
  let environment ← settingVariables.filterMapM fun name => do return (← IO.getEnv name).map (name, ·)
  return ⟨fun file => texts.lookup file, environment⟩

end Stepwise

open Stepwise

def main (args : List String) : IO UInt32 := do
  match Arguments.read args with
  | .error .help =>
    IO.print (UsageError.text .help)
    return 0
  | .error e =>
    IO.eprint e.text
    return 2
  | .ok a =>
    let report := a.report (← surroundings a.files)
    IO.print report.output
    IO.eprint report.errors
    match report.failure with
    | none => return 0
    | some f =>
      IO.eprintln ("Error: " ++ f.message)
      return 1
