import Stepwise.Json.Basic
import Stepwise.Number.Layout

/-!
# Writing JSON

The compact form holds no layout. The pretty form puts every item and member on a line of its own, two spaces further in
than the line that opens the array or object. A double that is no number is written as null.
-/

namespace Stepwise.Json

/-- The two hexadecimal digits of a number below `256`. -/
def hexPair (n : Nat) : List Char := [(n / 16).digitChar, (n % 16).digitChar]

/-- A character inside a string. Quotes, backslashes and control characters are escaped. -/
def escaped (c : Char) : List Char :=
  match c with
  | '"' => ['\\', '"']
  | '\\' => ['\\', '\\']
  | '\n' => ['\\', 'n']
  | '\r' => ['\\', 'r']
  | '\t' => ['\\', 't']
  | '\x08' => ['\\', 'b']
  | '\x0c' => ['\\', 'f']
  | c => if c < ' ' then '\\' :: 'u' :: '0' :: '0' :: hexPair c.toNat else [c]

def quoted (s : String) : String := "\"" ++ String.ofList (s.toList.flatMap escaped) ++ "\""

/-- A value that is no array and no object. -/
def atom : Json → String
  | null => "null"
  | bool b => if b then "true" else "false"
  | int n => toString n
  | float x => if x.isNaN || x.isInf then "null" else String.ofList (jsonFloatText x)
  | str s => quoted s
  | arr _ => "[]"
  | obj _ => "\x7b\x7d"

mutual

/-- The compact form. -/
def compact : Json → String
  | arr items => "[" ++ ",".intercalate (compactItems items) ++ "]"
  | obj members => "\x7b" ++ ",".intercalate (compactMembers members) ++ "\x7d"
  | j => j.atom

def compactItems : List Json → List String
  | [] => []
  | j :: js => j.compact :: compactItems js

def compactMembers : List (String × Json) → List String
  | [] => []
  | (n, j) :: ms => (quoted n ++ ":" ++ j.compact) :: compactMembers ms

end

/-- The start of a line `n` levels in. -/
def indent (n : Nat) : String := String.ofList ('\n' :: List.replicate (2 * n) ' ')

/-- Entries on lines of their own between brackets; without entries the brackets stand together. -/
def bracketed (level : Nat) (opening closing : String) : List String → String
  | [] => opening ++ closing
  | entries =>
    let start := indent (level + 1)
    opening ++ start ++ ("," ++ start).intercalate entries ++ indent level ++ closing

mutual

/-- The pretty form of a value that stands `level` levels in. -/
def prettyAt : Nat → Json → String
  | level, arr items => bracketed level "[" "]" (prettyItems (level + 1) items)
  | level, obj members => bracketed level "\x7b" "\x7d" (prettyMembers (level + 1) members)
  | _, j => j.atom

def prettyItems : Nat → List Json → List String
  | _, [] => []
  | level, j :: js => prettyAt level j :: prettyItems level js

def prettyMembers : Nat → List (String × Json) → List String
  | _, [] => []
  | level, (n, j) :: ms => (quoted n ++ ": " ++ prettyAt level j) :: prettyMembers level ms

end

/-- The pretty form. -/
def pretty (j : Json) : String := prettyAt 0 j

end Stepwise.Json
