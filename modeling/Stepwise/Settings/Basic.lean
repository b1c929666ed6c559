import Stepwise.Machine.Context
import Stepwise.Settings.Layer

/-!
# Settings

What a user can choose. Values of other kinds are taken where their meaning is clear: `"yes"` for a truth value, `"12"`
for a count, `"Chained"` for a way of scoping.
-/

namespace Stepwise

structure Settings where
  scoping : Scoping
  /-- How many steps a run on the command line may take. -/
  maxSteps : Nat
  /-- Whether a run on the command line prints log entries. -/
  showLogs : Bool
deriving DecidableEq

namespace Settings

def default : Settings := ⟨.snapshot, 10000, true⟩

instance : Inhabited Settings := ⟨default⟩

/-! ## Reading single settings -/

/-- A double as a count: rounded, and cut to the range of 64 bits. -/
def countOfFloat (x : Float) : Nat :=
  if x.isNaN || signBit x then 0
  else if x.isInf then wordSize - 1
  else
    let m := Magnitude.ofFloat x
    let n := if 0 ≤ m.exp then m.coeff <<< m.exp.toNat else ((2 * m.coeff) >>> (-m.exp).toNat + 1) / 2
    min n (wordSize - 1)

def count? : Setting → Option Nat
  | .int n => if 0 ≤ n then some n.toNat else none
  | .bool b => some (if b then 1 else 0)
  | .float x => some (countOfFloat x)
  | .str s =>
    match Text.toLower s with
    | "true" | "on" | "yes" => some 1
    | "false" | "off" | "no" => some 0
    | _ => readRadix? 10 s.toList
  | _ => none

def truth? : Setting → Option Bool
  | .bool b => some b
  | .int n => some (n ≠ 0)
  | .float x => some (x != 0.0)
  | .str s =>
    match Text.toLower s with
    | "1" | "true" | "on" | "yes" => some true
    | "0" | "false" | "off" | "no" => some false
    | _ => none
  | _ => none

def scoping? : Setting → Option Scoping
  | .str s => Scoping.ofName? (Text.toLower s)
  | .table [(name, _)] => Scoping.ofName? (Text.toLower name)
  | _ => none

/-! ## Reading all settings -/

/-- A field of a section: by its name in a table, by its place in an array; without it the default stays. -/
def field? {α : Type} (name : String) (index : Nat) (default : α) (read : Setting → Option α) : Setting → Option α
  | .table es => ((es.lookup name).map read).getD (some default)
  | .arr items => (items[index]?.map read).getD (some default)
  | _ => none

/-- The settings of all layers together. -/
def ofEntries? (root : Setting.Entries) : Option Settings := do
  let interpreter := (root.lookup "interpreter").getD (.table [])
  let cli := (root.lookup "cli").getD (.table [])
  return {
    scoping := ← field? "call_scoping" 0 default.scoping scoping? interpreter
    maxSteps := ← field? "max_steps" 0 default.maxSteps count? cli
    showLogs := ← field? "show_logs" 1 default.showLogs truth? cli }

/-! ## Writing -/

/-- The settings as a TOML text; a count beyond 63 bits cannot be written. -/
def toToml? (s : Settings) : Option String :=
  if s.maxSteps < signedBound then
    let logs := if s.showLogs then "true" else "false"
    some ("[interpreter]\n" ++ s!"call_scoping = \"{s.scoping.name}\"\n\n" ++ "[cli]\n" ++
      s!"max_steps = {s.maxSteps}\nshow_logs = {logs}\n")
  else none

end Settings

end Stepwise
