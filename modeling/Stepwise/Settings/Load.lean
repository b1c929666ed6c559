import Stepwise.Settings.Basic
import Stepwise.Settings.Format
import Stepwise.Settings.Variable

/-!
# Loading settings

The file comes first, then the environment, then what the caller asks for.
-/

namespace Stepwise

/-- Where settings come from. -/
structure SettingsSource where
  /-- A file that has to be there, in place of the usual one. -/
  file : Option String
  /-- Whether environment variables count. -/
  useEnvironment : Bool
  scoping : Option Scoping
  maxSteps : Option Nat

/-- What a program sees of its surroundings: the texts of files, and the environment variables. -/
structure Surroundings where
  readFile : String → Option String
  environment : List (String × String)

namespace SettingsSource

/-- The usual sources. -/
def usual : SettingsSource := ⟨none, true, none, none⟩

/-- The name of the usual file, without its ending. -/
def usualFile : String := "stepjs"

/-- The format that the ending of a file name tells; something has to stand before it. -/
def formatOf? (name : String) : Option (Setting.FileFormat) :=
  Setting.FileFormat.endings.findSome? fun (ending, f) =>
    if ! name.endsWith ending then none
    else match (name.toList.take (name.length - ending.length)).getLast? with
      | none | some '/' => none
      | some _ => some f

/-- The end of a path backwards, without what stays in the directory that the path before it names. -/
def dropStay : List Char → List Char
  | '/' :: cs => dropStay cs
  | ['.'] => []
  | '.' :: '/' :: cs => dropStay cs
  | cs => cs

/-- The path of a file to which an ending can be added; a directory of the path alone is none. -/
def stem? (path : String) : Option String :=
  match dropStay path.toList.reverse with
  | [] | ['.', '.'] | '.' :: '.' :: '/' :: _ => none
  | cs => some (String.ofList cs.reverse)

/-- The names that stand in for a name when there is no such file. -/
def standIns (name : String) : List (String × Setting.FileFormat) :=
  match stem? name with
  | some stem => Setting.FileFormat.endings.map fun (ending, f) => (stem ++ ending, f)
  | none => []

/-- The text and the format of the file that a name stands for. A file with the exact name and an unknown ending hides
the others. -/
def find? (s : Surroundings) (name : String) : Option (String × Setting.FileFormat) :=
  match s.readFile name with
  | some text => (formatOf? name).map (text, ·)
  | none => (standIns name).findSome? fun (path, f) => (s.readFile path).map (·, f)

/-- The layer of the settings file. Only a file that was asked for has to be there. -/
def fileLayer? (source : SettingsSource) (s : Surroundings) : Option Setting.Entries :=
  match find? s (source.file.getD usualFile) with
  | some (text, f) => f.read? text
  | none => if source.file.isSome then none else some []

def variableLayer (source : SettingsSource) (s : Surroundings) : Setting.Entries :=
  if source.useEnvironment then s.environment.filterMap fun (name, value) => Setting.ofVariable? name value else []

/-- The layer of what the caller asks for. -/
def ownLayer (source : SettingsSource) : Setting.Entries :=
  (source.scoping.map fun c => ("interpreter.call_scoping", .str c.name)).toList ++
    (source.maxSteps.map fun n => ("cli.max_steps", .int n)).toList

/-- Loads settings. -/
def load? (source : SettingsSource) (s : Surroundings) : Option Settings := do
  let file ← source.fileLayer? s
  let root := [file, source.variableLayer s, source.ownLayer].foldl Setting.overlay []
  Settings.ofEntries? root

/-- The files that loading may read. -/
def files (source : SettingsSource) : List String :=
  let name := source.file.getD usualFile
  name :: (standIns name).map (·.1)

end SettingsSource

end Stepwise
