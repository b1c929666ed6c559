import Stepwise.Json.Reader
import Stepwise.Text.Blank
import Stepwise.Text.Visible

/-!
# Reading JSON5

JSON with comments, trailing commas, names without quotes, strings in single quotes, and more ways to write numbers. A
number without point and power is an integer of 64 bits; in hexadecimal digits it has no sign and 32 bits.
-/

namespace Stepwise.Json5

/-! ## Layout -/

def isLineEnd (c : Char) : Bool := c = '\n' || c = '\r' || c = '\u2028' || c = '\u2029'

def isSpace (c : Char) : Bool := (Text.isBlank c && c ≠ '\u0085') || c = '\uFEFF'

inductive Comment where
  | line
  | block

/-- Passes over white space and comments; the text starts inside `comment` if there is one. -/
def skipFrom : Option Comment → List Char → Option (List Char)
  | some .block, '*' :: '/' :: cs => skipFrom none cs
  | some .block, _ :: cs => skipFrom (some .block) cs
  | some .block, [] => none
  | some .line, c :: cs => skipFrom (if isLineEnd c then none else some .line) cs
  | some .line, [] => some []
  | none, '/' :: '*' :: cs => skipFrom (some .block) cs
  | none, '/' :: '/' :: cs => skipFrom (some .line) cs
  | none, c :: cs => if isSpace c then skipFrom none cs else some (c :: cs)
  | none, [] => some []

def skip (cs : List Char) : Option (List Char) := skipFrom none cs

/-! ## Strings and names -/

/-- The character that a one-letter escape stands for; characters other than digits stand for themselves. -/
def escape? : Char → Option Char
  | 'b' => some '\x08'
  | 'f' => some '\x0c'
  | 'n' => some '\n'
  | 'r' => some '\r'
  | 't' => some '\t'
  | 'v' => some '\x0b'
  | c => if c.isDigit ∨ c = 'x' ∨ c = 'u' then none else some c

/-- The zero character is not followed by a digit. -/
def startsWithDigit : List Char → Bool
  | c :: _ => c.isDigit
  | [] => false

/-- The pieces up to the closing quote. An escaped line end is left out. -/
def readString (quote : Char) : List Char → Option (List Json.Piece × List Char)
  | '\\' :: 'u' :: a :: b :: c :: d :: cs => do
    let u ← Json.Text.hex? [a, b, c, d]
    let (ps, rest) ← readString quote cs
    return (.unit u :: ps, rest)
  | '\\' :: 'x' :: a :: b :: cs => do
    let u ← Json.Text.hex? [a, b]
    let (ps, rest) ← readString quote cs
    return (.unit u :: ps, rest)
  | '\\' :: '0' :: cs => do
    if startsWithDigit cs then failure
    let (ps, rest) ← readString quote cs
    return (.unit 0 :: ps, rest)
  | '\\' :: '\r' :: '\n' :: cs => readString quote cs
  | '\\' :: c :: cs => do
    if isLineEnd c then readString quote cs
    else
      let e ← escape? c
      let (ps, rest) ← readString quote cs
      return (.char e :: ps, rest)
  | c :: cs => do
    if c = quote then return ([], cs)
    if c = '\n' ∨ c = '\r' then failure
    let (ps, rest) ← readString quote cs
    return (.char c :: ps, rest)
  | [] => none

/-- A character of a name without quotes: a letter, a dollar sign, an underscore or, after the first one, a digit. -/
def isNameChar (c : Char) : Bool :=
  c.isAlphanum || c = '$' || c = '_' || (0x80 ≤ c.toNat && ! isSpace c && ! Text.isHidden c)

def readName (cs : List Char) : Option (String × List Char) :=
  match cs.takeWhile isNameChar with
  | [] => none
  | name => if startsWithDigit name then none else some (String.ofList name, cs.dropWhile isNameChar)

/-! ## Numbers -/

/-- The characters of a number without the sign at its start; a sign may also stand in front of its power. -/
def readNumeral : List Char → List Char × List Char
  | e :: s :: cs =>
    if (e = 'e' ∨ e = 'E') ∧ (s = '+' ∨ s = '-') then
      let (ds, rest) := readNumeral cs
      (e :: s :: ds, rest)
    else if e.isAlphanum ∨ e = '.' then
      let (ds, rest) := readNumeral (s :: cs)
      (e :: ds, rest)
    else ([], e :: s :: cs)
  | [c] => if c.isAlphanum ∨ c = '.' then ([c], []) else ([], [c])
  | [] => ([], [])

/-- Only `0` itself and fractions start with a zero. -/
def leadsWithZero : List Char → Bool
  | '0' :: c :: _ => c.isDigit
  | _ => false

/-- The value of a decimal numeral with its sign. -/
def decimal? (sign ds : List Char) : Option Json := do
  if leadsWithZero ds then failure
  if ds.all Char.isDigit then
    let n ← Decimal.readInt? (sign ++ ds)
    if FitsSigned n then return .int n else failure
  else
    let x ← readDecimal? (sign ++ ds)
    if x.isInf then failure else return .float x

/-- The value of a numeral. -/
def number? (sign ds : List Char) : Option Json :=
  match ds with
  | '0' :: 'x' :: hs | '0' :: 'X' :: hs => do
    if ! sign.isEmpty ∨ hs.isEmpty then failure
    let n ← Json.Text.hex? hs
    if n < 0x100000000 then return .nat n else failure
  | ['I', 'n', 'f', 'i', 'n', 'i', 't', 'y'] =>
    if sign = ['+'] then none else some (.float (if sign = ['-'] then -infinity else infinity))
  | ['N', 'a', 'N'] => if sign = ['+'] then none else some (.float nan)
  | ds => decimal? sign ds

def readNumber (cs : List Char) : Option (Json × List Char) := do
  let (sign, cs) := match cs with
    | '-' :: cs => (['-'], cs)
    | '+' :: cs => (['+'], cs)
    | cs => ([], cs)
  let (ds, rest) := readNumeral cs
  return (← number? sign ds, rest)

/-! ## Values -/

/-- A value that holds no other values. -/
def readScalar (cs : List Char) : Option (Json × List Char) :=
  match cs with
  | 'n' :: 'u' :: 'l' :: 'l' :: rest => some (.null, rest)
  | 't' :: 'r' :: 'u' :: 'e' :: rest => some (.bool true, rest)
  | 'f' :: 'a' :: 'l' :: 's' :: 'e' :: rest => some (.bool false, rest)
  | c :: rest =>
    if c = '"' ∨ c = '\'' then do
      let (ps, rest) ← readString c rest
      return (.str (← Json.Text.string? ps), rest)
    else readNumber (c :: rest)
  | [] => none

/-- The name of a member. -/
def readKey (cs : List Char) : Option (String × List Char) :=
  match cs with
  | c :: rest =>
    if c = '"' ∨ c = '\'' then do
      let (ps, rest) ← readString c rest
      return (← Json.Text.string? ps, rest)
    else readName cs
  | [] => none

mutual

/-- A value; `fuel` bounds the number of calls. -/
def readValue : Nat → List Char → Option (Json × List Char)
  | 0, _ => none
  | fuel + 1, '[' :: cs => (readItems fuel cs).map fun (items, cs) => (.arr items, cs)
  | fuel + 1, '\x7b' :: cs => (readMembers fuel cs).map fun (members, cs) => (.obj members, cs)
  | _ + 1, cs => readScalar cs

/-- The items of an array and its closing bracket. -/
def readItems : Nat → List Char → Option (List Json × List Char)
  | 0, _ => none
  | fuel + 1, cs => do
    match ← skip cs with
    | ']' :: cs => return ([], cs)
    | cs =>
      let (j, cs) ← readValue fuel cs
      match ← skip cs with
      | ']' :: cs => return ([j], cs)
      | ',' :: cs =>
        let (js, cs) ← readItems fuel cs
        return (j :: js, cs)
      | _ => failure

/-- The members of an object and its closing brace. -/
def readMembers : Nat → List Char → Option (List (String × Json) × List Char)
  | 0, _ => none
  | fuel + 1, cs => do
    match ← skip cs with
    | '\x7d' :: cs => return ([], cs)
    | cs =>
      let (name, cs) ← readKey cs
      match ← skip cs with
      | ':' :: cs =>
        let (j, cs) ← readValue fuel (← skip cs)
        match ← skip cs with
        | '\x7d' :: cs => return ([(name, j)], cs)
        | ',' :: cs =>
          let (members, cs) ← readMembers fuel cs
          return ((name, j) :: members, cs)
        | _ => failure
      | _ => failure

end

/-- Reads a JSON5 text. -/
def parse? (source : String) : Option Json := do
  let cs ← skip source.toList
  let (j, cs) ← readValue (cs.length + 1) cs
  if (← skip cs).isEmpty then return j else failure

end Stepwise.Json5
