import Stepwise.Number.Decimal
import Stepwise.Text.Case

/-!
# Layers of settings

Settings come from files, the environment and the caller. Each source is a layer of entries; a later layer replaces
single values of an earlier one and keeps the rest. Names do not depend on case. A name may write a path with dots and
subscripts: `cli.max_steps` and `cli[0]` are the first setting of the same section.
-/

namespace Stepwise

inductive Setting where
  | null
  | bool (b : Bool)
  | int (n : Int)
  | float (x : Float)
  | str (s : String)
  | arr (items : List Setting)
  | table (entries : List (String × Setting))

namespace Setting

instance : Inhabited Setting := ⟨null⟩

abbrev Entries := List (String × Setting)

/-- The entries of a table; there are none in other settings. -/
def entries : Setting → Entries
  | table es => es
  | _ => []

/-- The items of an array; there are none in other settings. -/
def items : Setting → List Setting
  | arr ss => ss
  | _ => []

def putEntry (name : String) (s : Setting) : Entries → Entries
  | [] => [(name, s)]
  | (n, t) :: rest => if n = name then (n, s) :: rest else (n, t) :: putEntry name s rest

/-- A table of entries; of equal names the last one counts. -/
def ofEntries (es : Entries) : Setting := table (es.foldl (fun done (name, s) => putEntry name s done) [])

mutual

/-- Puts a setting under a name of a table. A table is merged into the setting that is there. -/
def put (name : String) : Setting → Entries → Entries
  | table es, root =>
    let key := Text.toLower name
    putEntry key (merge es ((root.lookup key).getD (table []))) root
  | s, root => putEntry (Text.toLower name) s root

/-- Puts entries into a setting, which becomes a table unless there are none. -/
def merge : Entries → Setting → Setting
  | [], target => target
  | (name, s) :: rest, target => merge rest (table (put name s target.entries))

end

/-! ## Paths -/

/-- A step into a setting: to an entry of a table, or to an item of an array. -/
inductive Step where
  | name (s : String)
  | index (i : Int)

/-- Changes the item at an index, which counts from the end if it is negative. The items that it takes to get there are
null. -/
def changeItem (i : Int) (change : Setting → Setting) (ss : List Setting) : List Setting :=
  let n := i.natAbs
  if 0 ≤ i then (ss ++ List.replicate (n + 1 - ss.length) null).modify n change
  else
    let ss := List.replicate (n - ss.length) null ++ ss
    ss.modify (ss.length - n) change

/-- Puts a setting at the end of a path. What stands in the way of the path is replaced by tables and arrays. -/
def putAt (s : Setting) : List Step → Setting → Setting
  | [], _ => s
  | [.name n], target => table (put n s target.entries)
  | .name n :: path, target =>
    table (putEntry n (putAt s path ((target.entries.lookup n).getD null)) target.entries)
  | .index i :: path, target => arr (changeItem i (putAt s path) target.items)

def isNameChar (c : Char) : Bool := c.isAlphanum || c = '_' || c = '-' || c = ' '

/-- A name at the start of a path or after a dot. -/
def readName? (cs : List Char) : Option (Step × List Char) :=
  match cs.takeWhile isNameChar with
  | [] => none
  | name => some (.name (Text.toLower (String.ofList name)), cs.dropWhile isNameChar)

def skipBlanks (cs : List Char) : List Char := cs.dropWhile fun c => c = ' ' || c = '\t'

/-- A subscript, after its opening bracket: an integer of 64 bits. -/
def readSubscript? (cs : List Char) : Option (Step × List Char) := do
  let cs := skipBlanks cs
  let (negative, cs) := match cs with
    | '-' :: cs => (true, cs)
    | cs => (false, cs)
  let ds := cs.takeWhile Char.isDigit
  if ds.isEmpty then failure
  let n : Int := natOfDigits 10 ds
  let i := if negative then -n else n
  match skipBlanks (cs.dropWhile Char.isDigit) with
  | ']' :: cs => if FitsSigned i then return (.index i, cs) else failure
  | _ => failure

/-- Further steps up to the end of a name, at most `fuel`. -/
def readSteps? : Nat → List Char → Option (List Step)
  | _, [] => some []
  | 0, _ => none
  | fuel + 1, c :: cs => do
    let (step, cs) ← if c = '.' then readName? cs else if c = '[' then readSubscript? cs else failure
    return step :: (← readSteps? fuel cs)

/-- The path that a name writes; one that is no path is a single name. -/
def path (name : String) : List Step :=
  let steps := do
    let (step, cs) ← readName? name.toList
    return step :: (← readSteps? cs.length cs)
  steps.getD [.name name]

/-- Puts a whole layer over the settings so far. -/
def overlay (root layer : Entries) : Entries :=
  (layer.foldl (fun r (name, s) => putAt s (path name) r) (table root)).entries

end Setting

end Stepwise
