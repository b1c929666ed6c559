import Stepwise.Toml.Token

/-!
# Reading TOML

A text is a list of lines: entries, headers that open tables, and comments. Names may be given once.
-/

namespace Stepwise.Toml

/-! ## Values -/

/-- A value that holds no other values. -/
def readScalar (cs : List Char) : Option (Toml × List Char) :=
  match cs with
  | 't' :: 'r' :: 'u' :: 'e' :: rest => some (.bool true, rest)
  | 'f' :: 'a' :: 'l' :: 's' :: 'e' :: rest => some (.bool false, rest)
  | '"' :: _ | '\'' :: _ => (readString cs).map fun (s, rest) => (.str (String.ofList s), rest)
  | cs =>
    match readMoment cs with
    | some rest => some (.date (String.ofList (cs.take (cs.length - rest.length))), rest)
    | none =>
      match readFloat cs with
      | some (x, rest) => some (.float x, rest)
      | none => (readInteger cs).map fun (n, rest) => (.int n, rest)

mutual

/-- A value with at most `depth` arrays and tables inside each other; `fuel` bounds the number of calls. -/
def readValue : Nat → Nat → List Char → Option (Toml × List Char)
  | 0, _, _ => none
  | _ + 1, 0, '[' :: _ | _ + 1, 0, '\x7b' :: _ => none
  | fuel + 1, depth + 1, '[' :: cs => (readItems fuel depth cs).map fun (items, cs) => (.arr items, cs)
  | fuel + 1, depth + 1, '\x7b' :: cs =>
    match skipSpace cs with
    | '\x7d' :: cs => some (.table [], cs)
    | cs => (readPairs fuel depth [] cs).map fun (entries, cs) => (.table (closeEntries entries), cs)
  | _ + 1, _, cs => readScalar cs

/-- The items of an array and its closing bracket. -/
def readItems : Nat → Nat → List Char → Option (List Toml × List Char)
  | 0, _, _ => none
  | fuel + 1, depth, cs => do
    match ← skipLines false cs with
    | ']' :: cs => return ([], cs)
    | cs =>
      let (v, cs) ← readValue fuel depth cs
      match ← skipLines false cs with
      | ']' :: cs => return ([v], cs)
      | ',' :: cs =>
        let (vs, cs) ← readItems fuel depth cs
        return (v :: vs, cs)
      | _ => failure

/-- The entries of a table that is written as a value, and its closing brace. -/
def readPairs : Nat → Nat → Entries → List Char → Option (Entries × List Char)
  | 0, _, _, _ => none
  | fuel + 1, depth, entries, cs => do
    let ((path, name), cs) ← readKey cs
    match cs with
    | '=' :: cs =>
      let (v, cs) ← readValue fuel depth (skipSpace cs)
      let entries ← addEntry path name v false entries
      match skipSpace cs with
      | '\x7d' :: cs => return (entries, cs)
      | ',' :: cs => readPairs fuel depth entries cs
      | _ => failure
    | _ => failure

end

/-! ## Lines -/

/-- What is read so far, and the path of the table that takes entries. -/
structure Draft where
  entries : Entries
  current : List String

/-- One entry, without the end of its line. -/
def readEntry (d : Draft) (cs : List Char) : Option (Draft × List Char) := do
  let ((path, name), cs) ← readKey cs
  match cs with
  | '=' :: cs =>
    let (v, cs) ← readValue (cs.length + 1) maxDepth (skipSpace cs)
    let entries ← descend false (addEntry path name v) d.current false d.entries
    return ({ d with entries }, cs)
  | _ => failure

/-- A header, without the end of its line. -/
def readHeader (d : Draft) (cs : List Char) : Option (Draft × List Char) :=
  match cs with
  | '[' :: '[' :: cs => do
    let ((path, name), cs) ← readKey cs
    match cs with
    | ']' :: ']' :: cs => return (⟨← descend false (openRow name) path false d.entries, path ++ [name]⟩, cs)
    | _ => failure
  | '[' :: cs => do
    let ((path, name), cs) ← readKey cs
    match cs with
    | ']' :: cs => return (⟨← descend false (openTable name) path false d.entries, path ++ [name]⟩, cs)
    | _ => failure
  | _ => none

def readLines : Nat → Draft → List Char → Option Draft
  | 0, _, _ => none
  | fuel + 1, d, cs =>
    match skipSpace cs with
    | [] => some d
    | '[' :: cs => do
      let (d, cs) ← readHeader d ('[' :: cs)
      readLines fuel d (← endLine false cs)
    | c :: cs =>
      if c = '#' ∨ c = '\n' ∨ c = '\r' then do readLines fuel d (← endLine false (c :: cs))
      else do
        let (d, cs) ← readEntry d (c :: cs)
        readLines fuel d (← endLine false cs)

/-- A text without the byte order mark at its start. -/
def dropMark : List Char → List Char
  | '\uFEFF' :: cs => cs
  | cs => cs

/-- The entries of a TOML text. -/
def parse? (source : String) : Option (List (String × Toml)) :=
  let cs := dropMark source.toList
  (readLines (cs.length + 1) ⟨[], []⟩ cs).map fun d => closeEntries d.entries

end Stepwise.Toml
