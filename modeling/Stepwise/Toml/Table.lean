/-!
# TOML tables

The values of a TOML text, and the tables of a text that is being read. A table under construction knows how it came to
be: a table that only stands in the path of another may still be opened by a header, and a table made by dotted keys may
only be extended by dotted keys.
-/

namespace Stepwise

inductive Toml where
  | str (s : String)
  | int (n : Int)
  | float (x : Float)
  | bool (b : Bool)
  /-- A date, a time or both; only its form is checked. -/
  | date (text : String)
  | arr (items : List Toml)
  | table (entries : List (String × Toml))

instance : Inhabited Toml := ⟨.table []⟩

namespace Toml

/-- A part of a table that is being read. -/
inductive Item where
  /-- A value; it is not extended any more. -/
  | value (v : Toml)
  /-- A table; `implicit` if it only stands in the path of others, `dotted` if dotted keys made it. -/
  | table (implicit dotted : Bool) (entries : List (String × Item))
  /-- Tables that are listed one by one; the last one is being read. -/
  | rows (tables : List (List (String × Item)))

abbrev Entries := List (String × Item)

/-- Puts an item in the place of the one with its name, or at the end. -/
def putItem (name : String) (item : Item) : Entries → Entries
  | [] => [(name, item)]
  | (n, i) :: rest => if n = name then (n, item) :: rest else (n, i) :: putItem name item rest

/-- Changes the table at the end of a path. `dotted` says whether the path belongs to a key or to a header; `change` is
told whether dotted keys made the table. -/
def descend (dotted : Bool) (change : Bool → Entries → Option Entries) : List String → Bool → Entries → Option Entries
  | [], made, entries => change made entries
  | name :: path, _, entries =>
    match entries.lookup name with
    | none => do
      let inner ← descend dotted change path dotted []
      return putItem name (.table true dotted inner) entries
    | some (.value _) => none
    | some (.rows tables) => do
      let inner ← descend dotted change path false (tables.getLastD [])
      return putItem name (.rows (tables.dropLast ++ [inner])) entries
    | some (.table implicit made inner) =>
      if dotted && ! implicit then none
      else do
        let inner ← descend dotted change path made inner
        return putItem name (.table implicit made inner) entries

/-- Adds an entry under a key with the given path before its last name. -/
def addEntry (path : List String) (name : String) (v : Toml) (made : Bool) (entries : Entries) : Option Entries :=
  descend true (fun made entries =>
    if made == path.isEmpty then none
    else if (entries.lookup name).isSome then none
    else some (entries ++ [(name, .value v)])) path made entries

/-- Opens a table; it may already stand in the path of others. -/
def openTable (name : String) (_ : Bool) (entries : Entries) : Option Entries :=
  match entries.lookup name with
  | none => some (entries ++ [(name, .table false false [])])
  | some (.table true false inner) => some (putItem name (.table false false inner) entries)
  | _ => none

/-- Opens the next table of a list. -/
def openRow (name : String) (_ : Bool) (entries : Entries) : Option Entries :=
  match entries.lookup name with
  | none => some (entries ++ [(name, .rows [[]])])
  | some (.rows tables) => some (putItem name (.rows (tables ++ [[]])) entries)
  | _ => none

mutual

/-- The value of an item when all is read. -/
def Item.close : Item → Toml
  | .value v => v
  | .table _ _ entries => .table (closeEntries entries)
  | .rows tables => .arr (closeRows tables)

def closeEntries : List (String × Item) → List (String × Toml)
  | [] => []
  | (name, item) :: rest => (name, item.close) :: closeEntries rest

def closeRows : List (List (String × Item)) → List Toml
  | [] => []
  | entries :: rest => .table (closeEntries entries) :: closeRows rest

end

end Toml

end Stepwise
