import Stepwise.Ini.Reader
import Stepwise.Json5.Reader
import Stepwise.Ron.Reader
import Stepwise.Toml.Reader
import Stepwise.Yaml.Node

/-!
# Settings files

What the texts of the known formats say as settings.
-/

namespace Stepwise

namespace Setting

/-! ## Values -/

mutual

def ofToml : Toml → Setting
  | .str s => str s
  | .int n => int n
  | .float x => float x
  | .bool b => bool b
  | .date text => str text
  | .arr items => arr (ofTomlList items)
  | .table es => table (ofTomlEntries es)

def ofTomlList : List Toml → List Setting
  | [] => []
  | v :: vs => ofToml v :: ofTomlList vs

def ofTomlEntries : List (String × Toml) → Entries
  | [] => []
  | (name, v) :: rest => (name, ofToml v) :: ofTomlEntries rest

end

mutual

/-- An integer beyond 64 bits with sign is taken as a double. -/
def ofJson : Json → Setting
  | .null => null
  | .bool b => bool b
  | .int n => if n < signedBound then int n else float (Decimal.toFloat ⟨n.toNat, 0⟩)
  | .float x => float x
  | .str s => str s
  | .arr items => arr (ofJsonList items)
  | .obj members => table (ofJsonEntries members)

def ofJsonList : List Json → List Setting
  | [] => []
  | j :: js => ofJson j :: ofJsonList js

def ofJsonEntries : List (String × Json) → Entries
  | [] => []
  | (name, j) :: rest => (name, ofJson j) :: ofJsonEntries rest

end

mutual

/-- A number without digits is no setting. -/
def ofYaml? : Yaml → Option Setting
  | .null | .bad => some null
  | .bool b => some (bool b)
  | .int n => some (int n)
  | .real text => (readDecimal? text.toList).map float
  | .str s => some (str s)
  | .seq items => (ofYamlList? items).map arr
  | .map es => (ofYamlEntries? es).map ofEntries

def ofYamlList? : List Yaml → Option (List Setting)
  | [] => some []
  | y :: ys => return (← ofYaml? y) :: (← ofYamlList? ys)

def ofYamlEntries? : List (Yaml × Yaml) → Option Entries
  | [] => some []
  | (key, y) :: rest => return (← key.keyText?, ← ofYaml? y) :: (← ofYamlEntries? rest)

end

/-- Puts an item of an INI text into a table; `current` is the section that it belongs to. A section that is opened a
second time starts anew. -/
def addItem (current : Option String) (es : Entries) : Ini.Item → Option String × Entries
  | .header name => (some name, putEntry name (table []) es)
  | .entry key value =>
    match current with
    | none => (none, putEntry key (str value) es)
    | some name =>
      (some name, putEntry name (table (putEntry key (str value) ((es.lookup name).getD null).entries)) es)

def ofIni (items : List Ini.Item) : Entries :=
  (items.foldl (fun (current, es) item => addItem current es item) (none, [])).2

/-! ## Formats -/

inductive FileFormat where
  | toml
  | json
  | yaml
  | ini
  | ron
  | json5
deriving DecidableEq

/-- The ends of the names of settings files, and the formats that they tell. -/
def FileFormat.endings : List (String × FileFormat) :=
  [(".toml", toml), (".json", json), (".yaml", yaml), (".yml", yaml), (".ini", ini), (".ron", ron), (".json5", json5)]

/-- The entries of a table; other settings are no settings file. -/
def entries? : Setting → Option Entries
  | table es => some es
  | _ => none

/-- The setting of the only document of a YAML text; without a document there are no settings. -/
def ofDocuments? : List Yaml → Option Setting
  | [] => some (table [])
  | [y] => ofYaml? y
  | _ => none

/-- A text without the byte order mark at its start. -/
def withoutMark (source : String) : String :=
  match source.toList with
  | '\uFEFF' :: cs => String.ofList cs
  | _ => source

/-- The entries of a settings file. -/
def FileFormat.read? (f : FileFormat) (file : String) : Option Entries :=
  let source := withoutMark file
  match f with
  | toml => (Toml.parse? source).map ofTomlEntries
  | json => (Json.parse? source).bind fun j => (ofJson j.sorted).entries?
  | yaml => ((Yaml.parse? source).bind ofDocuments?).bind entries?
  | ini => (Ini.parse? source).map ofIni
  | ron => (Ron.parse? source).bind entries?
  | json5 => (Json5.parse? source).bind fun j => (ofJson j.sorted).entries?

end Setting

end Stepwise
