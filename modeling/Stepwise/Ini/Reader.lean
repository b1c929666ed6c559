import Stepwise.Number.Decimal
import Stepwise.Text.Blank

/-!
# Reading INI

A text is a list of section headers, entries and comments. A comment takes up whole lines. A key goes up to the next
equals sign or colon and a value up to the end of its line; both may hold escapes, and a value may be quoted.
-/

namespace Stepwise.Ini

inductive Item where
  | header (name : String)
  | entry (key value : String)

/-! ## Texts -/

/-- The character that a one-letter escape stands for; other characters stand for themselves. -/
def escape : Char → Char
  | '0' => '\x00'
  | 'a' => '\x07'
  | 'b' => '\x08'
  | 't' => '\t'
  | 'r' => '\r'
  | 'n' => '\n'
  | c => c

/-- The character with a code point in four hexadecimal digits. -/
def codePoint? (ds : List Char) : Option Char := do
  let n ← readRadix? 16 ds
  if n < 0xD800 ∨ 0xE000 ≤ n then return Char.ofNat n else failure

/-- The text up to a character that stops it, with its escapes resolved; `endStops` says whether the end stops it too.
An escaped line end is left out. -/
def readUntil (stops : Char → Bool) (endStops : Bool) : List Char → Option (List Char × List Char)
  | [] => if endStops then some ([], []) else none
  | ['\\'] => if endStops then some (['\\'], []) else none
  | '\\' :: 'x' :: a :: b :: c :: d :: cs => do
    let e ← codePoint? [a, b, c, d]
    let (s, rest) ← readUntil stops endStops cs
    return (e :: s, rest)
  | '\\' :: '\n' :: cs => readUntil stops endStops cs
  | '\\' :: c :: cs => do
    if c = 'x' then failure
    let (s, rest) ← readUntil stops endStops cs
    return (escape c :: s, rest)
  | c :: cs =>
    if stops c then some ([], c :: cs)
    else do
      let (s, rest) ← readUntil stops endStops cs
      return (c :: s, rest)

def isLineEnd (c : Char) : Bool := c = '\n' || c = '\r'

/-- White space within a line. -/
def skipSpace (cs : List Char) : List Char := cs.dropWhile fun c => Text.isBlank c && ! isLineEnd c

def trimRight (cs : List Char) : List Char := (cs.reverse.dropWhile Text.isBlank).reverse

/-- A value: quoted parts, at most `fuel`, and what follows them on the line. -/
def readValue : Nat → List Char → Option (List Char × List Char)
  | 0, _ => none
  | _ + 1, [] => some ([], [])
  | fuel + 1, c :: cs =>
    if c = '"' ∨ c = '\'' then do
      let (s, rest) ← readUntil (· == c) false cs
      let (more, rest) ← readValue fuel rest.tail
      return (s ++ more, rest)
    else do
      let (s, rest) ← readUntil isLineEnd true (c :: cs)
      return (trimRight s, rest)

/-! ## Items -/

def trimmed (cs : List Char) : String := String.ofList (Text.trim cs)

/-- The rest after white space, and whether it stands at the start of a line. `fresh` says so of the text before. -/
def skipBlanks : Bool → List Char → Bool × List Char
  | fresh, [] => (fresh, [])
  | fresh, c :: cs => if Text.isBlank c then skipBlanks (c = '\n') cs else (fresh, c :: cs)

/-- The items of a text, at most `fuel`. -/
def readItems : Nat → Bool → List Char → Option (List Item)
  | 0, _, _ => none
  | fuel + 1, fresh, cs =>
    match skipBlanks fresh cs with
    | (_, []) => some []
    | (_, '[' :: cs) => do
      let (name, rest) ← readUntil (· == ']') false cs
      return .header (trimmed name) :: (← readItems fuel false rest.tail)
    | (fresh, c :: cs) =>
      if c = ';' ∨ c = '#' then
        if fresh then readItems fuel true ((cs.dropWhile (· ≠ '\n')).tail) else none
      else do
        let (key, rest) ← readUntil (fun c => c = '=' || c = ':') false (c :: cs)
        let key := trimmed key
        if key = "" then failure
        let (value, rest) ← readValue (rest.length + 1) (skipSpace rest.tail)
        return .entry key (trimmed value) :: (← readItems fuel false rest)

/-- The items of an INI text. -/
def parse? (source : String) : Option (List Item) :=
  let cs := source.toList
  readItems (cs.length + 1) true cs

end Stepwise.Ini
