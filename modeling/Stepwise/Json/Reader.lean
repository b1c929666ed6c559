import Stepwise.Json.Basic

/-!
# Reading JSON

Reading has two parts. `Json.Text.read` checks the grammar and keeps numbers and strings as they are written;
`Json.Text.value?` gives the meaning. The meaning does not exist for a number beyond the range of doubles, for an escape
that is half of a surrogate pair, and for more than `127` arrays and objects inside each other. A part of a text whose
meaning nobody asks for only has to be well-formed.
-/

namespace Stepwise

namespace Json

/-- One piece of a string: a character, or an escaped UTF-16 unit. -/
inductive Piece where
  | char (c : Char)
  | unit (u : Nat)

/-- A number as it is written. -/
structure Numeral where
  negative : Bool
  whole : List Char
  /-- The digits after the point. -/
  part : Option (List Char)
  /-- The power of ten after `e`. -/
  power : Option Int

/-- A JSON text by its grammar. -/
inductive Text where
  | null
  | bool (b : Bool)
  | num (n : Numeral)
  | str (pieces : List Piece)
  | arr (items : List Text)
  | obj (members : List (List Piece × Text))

namespace Text

/-! ## Grammar -/

def isBlank (c : Char) : Bool := c = ' ' || c = '\t' || c = '\r' || c = '\n'

def skip (cs : List Char) : List Char := cs.dropWhile isBlank

/-- The number that hexadecimal digits write. -/
def hex? (ds : List Char) : Option Nat :=
  if ds.all (digitValue · < 16) then some (natOfDigits 16 ds) else none

/-- The character that a one-letter escape stands for. -/
def escape? : Char → Option Char
  | '"' => some '"'
  | '\\' => some '\\'
  | '/' => some '/'
  | 'b' => some '\x08'
  | 'f' => some '\x0c'
  | 'n' => some '\n'
  | 'r' => some '\r'
  | 't' => some '\t'
  | _ => none

/-- The pieces up to the closing quote. -/
def readString : List Char → Option (List Piece × List Char)
  | '"' :: cs => some ([], cs)
  | '\\' :: 'u' :: a :: b :: c :: d :: cs => do
    let u ← hex? [a, b, c, d]
    let (ps, rest) ← readString cs
    return (.unit u :: ps, rest)
  | '\\' :: e :: cs => do
    let c ← escape? e
    let (ps, rest) ← readString cs
    return (.char c :: ps, rest)
  | c :: cs => do
    if c < ' ' then failure
    let (ps, rest) ← readString cs
    return (.char c :: ps, rest)
  | [] => none

/-- Digits, at least one. -/
def readDigits (cs : List Char) : Option (List Char × List Char) :=
  match cs.takeWhile Char.isDigit with
  | [] => none
  | ds => some (ds, cs.dropWhile Char.isDigit)

/-- The fraction of a number, if it has one. -/
def readPart : List Char → Option (Option (List Char) × List Char)
  | '.' :: cs => do
    let (ds, rest) ← readDigits cs
    return (some ds, rest)
  | cs => some (none, cs)

/-- The power of ten of a number, if it has one. -/
def readPower : List Char → Option (Option Int × List Char)
  | [] => some (none, [])
  | e :: cs =>
    if e = 'e' ∨ e = 'E' then do
      let (negative, cs) := match cs with
        | '-' :: cs => (true, cs)
        | '+' :: cs => (false, cs)
        | cs => (false, cs)
      let (ds, rest) ← readDigits cs
      let n : Int := natOfDigits 10 ds
      return (some (if negative then -n else n), rest)
    else some (none, e :: cs)

/-- A number; only `0` itself starts with a zero. -/
def readNumber (cs : List Char) : Option (Numeral × List Char) := do
  let (negative, cs) := match cs with
    | '-' :: cs => (true, cs)
    | cs => (false, cs)
  let (whole, cs) ← match cs with
    | '0' :: c :: cs => if c.isDigit then none else some (['0'], c :: cs)
    | cs => readDigits cs
  let (part, cs) ← readPart cs
  let (power, cs) ← readPower cs
  return (⟨negative, whole, part, power⟩, cs)

mutual

/-- A value with the layout before it; `fuel` bounds the number of calls. -/
def readValue : Nat → List Char → Option (Text × List Char)
  | 0, _ => none
  | fuel + 1, cs =>
    match skip cs with
    | 'n' :: 'u' :: 'l' :: 'l' :: cs => some (.null, cs)
    | 't' :: 'r' :: 'u' :: 'e' :: cs => some (.bool true, cs)
    | 'f' :: 'a' :: 'l' :: 's' :: 'e' :: cs => some (.bool false, cs)
    | '"' :: cs => (readString cs).map fun (ps, cs) => (.str ps, cs)
    | '[' :: cs =>
      match skip cs with
      | ']' :: cs => some (.arr [], cs)
      | cs => (readItems fuel cs).map fun (ts, cs) => (.arr ts, cs)
    | '\x7b' :: cs =>
      match skip cs with
      | '\x7d' :: cs => some (.obj [], cs)
      | cs => (readMembers fuel cs).map fun (ms, cs) => (.obj ms, cs)
    | cs => (readNumber cs).map fun (n, cs) => (.num n, cs)

/-- The items of an array that is not empty, and its closing bracket. -/
def readItems : Nat → List Char → Option (List Text × List Char)
  | 0, _ => none
  | fuel + 1, cs => do
    let (t, cs) ← readValue fuel cs
    match skip cs with
    | ']' :: cs => return ([t], cs)
    | ',' :: cs => (readItems fuel cs).map fun (ts, cs) => (t :: ts, cs)
    | _ => none

/-- The members of an object that is not empty, and its closing brace. -/
def readMembers : Nat → List Char → Option (List (List Piece × Text) × List Char)
  | 0, _ => none
  | fuel + 1, cs =>
    match skip cs with
    | '"' :: cs => do
      let (name, cs) ← readString cs
      match skip cs with
      | ':' :: cs => do
        let (t, cs) ← readValue fuel cs
        match skip cs with
        | '\x7d' :: cs => return ([(name, t)], cs)
        | ',' :: cs => (readMembers fuel cs).map fun (ms, cs) => ((name, t) :: ms, cs)
        | _ => none
      | _ => none
    | _ => none

end

/-- Reads a text that holds one value and layout. Every call takes a character, so the text bounds the calls. -/
def read (source : String) : Option Text :=
  let cs := source.toList
  match readValue (cs.length + 1) cs with
  | some (t, rest) => if skip rest = [] then some t else none
  | none => none

/-! ## Meaning -/

/-- The text that pieces of a string write; two escapes may form one character. -/
def chars? : List Piece → Option (List Char)
  | [] => some []
  | .char c :: ps => (chars? ps).map (c :: ·)
  | .unit u :: ps =>
    if u < 0xD800 ∨ 0xE000 ≤ u then (chars? ps).map (Char.ofNat u :: ·)
    else if u < 0xDC00 then
      match ps with
      | .unit v :: ps =>
        if 0xDC00 ≤ v ∧ v < 0xE000 then
          (chars? ps).map (Char.ofNat (0x10000 + (u - 0xD800) * 0x400 + (v - 0xDC00)) :: ·)
        else none
      | _ => none
    else none

def string? (ps : List Piece) : Option String := (chars? ps).map String.ofList

/-- Appends digits to a significand while it fits in 64 bits; gives the significand and how many digits are left. -/
def appendDigits (significand : Nat) : List Char → Nat × Nat
  | [] => (significand, 0)
  | d :: ds =>
    let next := 10 * significand + digitValue d
    if next < wordSize then appendDigits next ds else (significand, ds.length + 1)

/-- The power of ten as a double. -/
def tenTo (k : Nat) : Float := Float.ofScientific 1 false k

/-- A significand as a double, multiplied or divided by a power of ten; nothing if that is infinite. -/
def scaled? (significand : Nat) (exponent : Int) : Option Float :=
  let f := Decimal.toFloat ⟨significand, 0⟩
  if significand = 0 then some 0.0
  else if 308 < exponent then none
  else if 0 ≤ exponent then
    let x := f * tenTo exponent.toNat
    if x.isInf then none else some x
  else if -308 ≤ exponent then some (f / tenTo (-exponent).toNat)
  else if -616 ≤ exponent then some (f / tenTo 308 / tenTo (-exponent - 308).toNat)
  else some 0.0

/-- The absolute value of a numeral as a double. Digits of the whole part beyond 64 bits only raise the exponent, those
of the fraction are dropped. -/
def magnitude? (n : Numeral) : Option Float :=
  let part := n.part.getD []
  let (significand, cut) := appendDigits 0 n.whole
  let (significand, unused) := appendDigits significand part
  scaled? significand (n.power.getD 0 + cut - (part.length - unused))

/-- The value of a numeral. An integer outside 64 bits, and minus zero, is a double. -/
def number? (n : Numeral) : Option Json :=
  let whole := natOfDigits 10 n.whole
  let signed : Int := if n.negative then -whole else whole
  let plain := n.part = none ∧ n.power = none
  if plain ∧ -(signedBound : Int) ≤ signed ∧ signed < wordSize ∧ ¬ (n.negative ∧ whole = 0) then some (.int signed)
  else (magnitude? n).map fun x => .float (if n.negative then -x else x)

mutual

/-- The value of a text, with at most `depth` arrays and objects inside each other. -/
def value? : Nat → Text → Option Json
  | _, .null => some .null
  | _, .bool b => some (.bool b)
  | _, .num n => number? n
  | _, .str ps => (string? ps).map .str
  | 0, .arr _ | 0, .obj _ => none
  | depth + 1, .arr ts => (values? depth ts).map .arr
  | depth + 1, .obj ms => (members? depth ms).map .obj

def values? : Nat → List Text → Option (List Json)
  | _, [] => some []
  | depth, t :: ts => return (← value? depth t) :: (← values? depth ts)

def members? : Nat → List (List Piece × Text) → Option (List (String × Json))
  | _, [] => some []
  | depth, (name, t) :: ms => return (← string? name, ← value? depth t) :: (← members? depth ms)

end

end Text

/-- How many arrays and objects may stand inside each other. -/
def maxDepth : Nat := 127

/-- Reads a JSON text. -/
def parse? (source : String) : Option Json := (Text.read source).bind (Text.value? maxDepth)

end Json

end Stepwise
