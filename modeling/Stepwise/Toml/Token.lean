import Stepwise.Number.Decimal
import Stepwise.Toml.Table

/-!
# TOML tokens

Readers of strings, numbers, dates and keys. A reader takes what it can from the front of a text and gives the rest.
-/

namespace Stepwise.Toml

/-! ## Layout -/

def isSpace (c : Char) : Bool := c = ' ' || c = '\t'

def skipSpace (cs : List Char) : List Char := cs.dropWhile isSpace

/-- A character that may stand in comments and strings: no control character but the tab. -/
def isPlain (c : Char) : Bool := c = '\t' || (' ' ≤ c && c ≠ '\x7f')

/-- Passes over the rest of a line, which may hold space and a comment. -/
def endLine (comment : Bool) : List Char → Option (List Char)
  | [] => some []
  | '\n' :: cs => some cs
  | '\r' :: '\n' :: cs => some cs
  | c :: cs =>
    if comment then if isPlain c then endLine true cs else none
    else if isSpace c then endLine false cs
    else if c = '#' then endLine true cs
    else none

/-- Passes over space, line ends and comments. -/
def skipLines (comment : Bool) : List Char → Option (List Char)
  | [] => if comment then none else some []
  | '\n' :: cs => skipLines false cs
  | '\r' :: '\n' :: cs => skipLines false cs
  | c :: cs =>
    if comment then if isPlain c then skipLines true cs else none
    else if isSpace c then skipLines false cs
    else if c = '#' then skipLines true cs
    else some (c :: cs)

/-! ## Strings -/

def escape? : Char → Option Char
  | 'b' => some '\x08'
  | 't' => some '\t'
  | 'n' => some '\n'
  | 'f' => some '\x0c'
  | 'r' => some '\r'
  | '"' => some '"'
  | '\\' => some '\\'
  | _ => none

/-- The character with a code point in hexadecimal digits. -/
def codePoint? (ds : List Char) : Option Char :=
  if ds.all (digitValue · < 16) then
    let n := natOfDigits 16 ds
    if n < 0xD800 ∨ (0xE000 ≤ n ∧ n < 0x110000) then some (Char.ofNat n) else none
  else none

/-- One escaped character, after its backslash. -/
def readEscape : List Char → Option (Char × List Char)
  | 'u' :: a :: b :: c :: d :: cs => (codePoint? [a, b, c, d]).map (·, cs)
  | 'U' :: a :: b :: c :: d :: e :: f :: g :: h :: cs => (codePoint? [a, b, c, d, e, f, g, h]).map (·, cs)
  | c :: cs => (escape? c).map (·, cs)
  | [] => none

/-- A string on one line, after its opening quote. -/
def readBasic : Nat → List Char → Option (List Char × List Char)
  | 0, _ => none
  | _ + 1, '"' :: cs => some ([], cs)
  | fuel + 1, '\\' :: cs => do
    let (c, cs) ← readEscape cs
    let (s, rest) ← readBasic fuel cs
    return (c :: s, rest)
  | fuel + 1, c :: cs => do
    if ! isPlain c then failure
    let (s, rest) ← readBasic fuel cs
    return (c :: s, rest)
  | _ + 1, [] => none

/-- A string without escapes on one line, after its opening quote. -/
def readLiteral : List Char → Option (List Char × List Char)
  | '\'' :: cs => some ([], cs)
  | c :: cs => do
    if ! isPlain c then failure
    let (s, rest) ← readLiteral cs
    return (c :: s, rest)
  | [] => none

/-- The text after a backslash that ends a line: the next character that is no layout. -/
def skipLayout : List Char → List Char
  | '\r' :: '\n' :: cs => skipLayout cs
  | c :: cs => if isSpace c || c = '\n' then skipLayout cs else c :: cs
  | [] => []

/-- A line end, after space. -/
def lineEnd? (cs : List Char) : Option (List Char) :=
  match skipSpace cs with
  | '\n' :: cs => some cs
  | '\r' :: '\n' :: cs => some cs
  | _ => none

/-- A string on several lines, after its opening quotes. At most two quotes stand together in it. -/
def readLong : Nat → List Char → Option (List Char × List Char)
  | 0, _ => none
  | _ + 1, '"' :: '"' :: '"' :: '"' :: '"' :: cs => some (['"', '"'], cs)
  | _ + 1, '"' :: '"' :: '"' :: '"' :: cs => some (['"'], cs)
  | _ + 1, '"' :: '"' :: '"' :: cs => some ([], cs)
  | fuel + 1, '\\' :: cs =>
    match lineEnd? cs with
    | some cs => readLong fuel (skipLayout cs)
    | none => do
      let (c, cs) ← readEscape cs
      let (s, rest) ← readLong fuel cs
      return (c :: s, rest)
  | fuel + 1, '\r' :: '\n' :: cs => do
    let (s, rest) ← readLong fuel cs
    return ('\n' :: s, rest)
  | fuel + 1, c :: cs => do
    if ! isPlain c && c ≠ '\n' then failure
    let (s, rest) ← readLong fuel cs
    return (c :: s, rest)
  | _ + 1, [] => none

/-- A string without escapes on several lines, after its opening quotes. -/
def readLongLiteral : List Char → Option (List Char × List Char)
  | '\'' :: '\'' :: '\'' :: '\'' :: '\'' :: cs => some (['\'', '\''], cs)
  | '\'' :: '\'' :: '\'' :: '\'' :: cs => some (['\''], cs)
  | '\'' :: '\'' :: '\'' :: cs => some ([], cs)
  | '\r' :: '\n' :: cs => do
    let (s, rest) ← readLongLiteral cs
    return ('\n' :: s, rest)
  | c :: cs => do
    if ! isPlain c && c ≠ '\n' then failure
    let (s, rest) ← readLongLiteral cs
    return (c :: s, rest)
  | [] => none

/-- The text after a line end that directly follows opening quotes. -/
def dropLineEnd : List Char → List Char
  | '\n' :: cs => cs
  | '\r' :: '\n' :: cs => cs
  | cs => cs

/-- A string of any form; the text starts with a quote. -/
def readString (cs : List Char) : Option (List Char × List Char) :=
  match cs with
  | '"' :: '"' :: '"' :: cs => readLong (cs.length + 1) (dropLineEnd cs)
  | '"' :: cs => readBasic (cs.length + 1) cs
  | '\'' :: '\'' :: '\'' :: cs => readLongLiteral (dropLineEnd cs)
  | '\'' :: cs => readLiteral cs
  | _ => none

/-! ## Numbers -/

/-- Further digits; an underscore may stand between two digits. -/
def moreDigits (isDigit : Char → Bool) : List Char → List Char × List Char
  | '_' :: c :: cs =>
    if isDigit c then
      let (ds, rest) := moreDigits isDigit cs
      (c :: ds, rest)
    else ([], '_' :: c :: cs)
  | c :: cs =>
    if isDigit c then
      let (ds, rest) := moreDigits isDigit cs
      (c :: ds, rest)
    else ([], c :: cs)
  | [] => ([], [])

/-- Digits, at least one. -/
def readDigits (isDigit : Char → Bool) : List Char → Option (List Char × List Char)
  | c :: cs =>
    if isDigit c then
      let (ds, rest) := moreDigits isDigit cs
      some (c :: ds, rest)
    else none
  | [] => none

/-- The sign of a number, if it has one. -/
def readSign : List Char → Bool × List Char
  | '-' :: cs => (true, cs)
  | '+' :: cs => (false, cs)
  | cs => (false, cs)

/-- The digits of a decimal integer; only `0` itself starts with a zero. -/
def readWhole : List Char → Option (List Char × List Char)
  | '0' :: cs => some (['0'], cs)
  | cs => readDigits Char.isDigit cs

/-- A number without sign in a radix other than ten. -/
def readRadix (radix : Nat) (cs : List Char) : Option (Int × List Char) := do
  let (ds, rest) ← readDigits (digitValue · < radix) cs
  return (natOfDigits radix ds, rest)

/-- A decimal integer with an optional sign. -/
def readDecimalInteger (cs : List Char) : Option (Int × List Char) := do
  let (negative, cs) := readSign cs
  let (ds, rest) ← readWhole cs
  let n : Int := natOfDigits 10 ds
  return (if negative then -n else n, rest)

/-- An integer of 64 bits. -/
def readInteger (cs : List Char) : Option (Int × List Char) := do
  let (n, rest) ← match cs with
    | '0' :: 'x' :: cs => readRadix 16 cs
    | '0' :: 'o' :: cs => readRadix 8 cs
    | '0' :: 'b' :: cs => readRadix 2 cs
    | cs => readDecimalInteger cs
  if FitsSigned n then return (n, rest) else failure

/-- The power of ten of a number. -/
def readPower (cs : List Char) : Option (Int × List Char) :=
  match cs with
  | e :: cs =>
    if e = 'e' ∨ e = 'E' then do
      let (negative, cs) := readSign cs
      let (ds, rest) ← readDigits Char.isDigit cs
      let n : Int := natOfDigits 10 ds
      return (if negative then -n else n, rest)
    else none
  | [] => none

/-- A number without sign that has a fraction, a power of ten or both. -/
def readDecimal (cs : List Char) : Option (Decimal × List Char) := do
  let (whole, cs) ← readWhole cs
  match cs with
  | '.' :: cs =>
    let (part, cs) ← readDigits Char.isDigit cs
    let (power, cs) := (readPower cs).getD (0, cs)
    return (⟨natOfDigits 10 (whole ++ part), power - part.length⟩, cs)
  | cs =>
    let (power, cs) ← readPower cs
    return (⟨natOfDigits 10 whole, power⟩, cs)

/-- A double, or one of the two words for doubles without digits. -/
def readFloat (cs : List Char) : Option (Float × List Char) :=
  let (negative, cs) := readSign cs
  let signed (x : Float) : Float := if negative then -x else x
  match cs with
  | 'i' :: 'n' :: 'f' :: rest => some (signed infinity, rest)
  | 'n' :: 'a' :: 'n' :: rest => some (nan, rest)
  | cs => do
    let (d, rest) ← readDecimal cs
    let x := signed d.toFloat
    if x == infinity then failure else return (x, rest)

/-! ## Dates -/

/-- Exactly `count` digits. -/
def readFixed (count : Nat) (cs : List Char) : Option (Nat × List Char) :=
  let ds := cs.take count
  if ds.length = count ∧ ds.all Char.isDigit then some (natOfDigits 10 ds, cs.drop count) else none

def readMark (c : Char) : List Char → Option (List Char)
  | d :: cs => if c = d then some cs else none
  | [] => none

def daysIn (year month : Nat) : Nat :=
  if month = 2 then if year % 4 = 0 ∧ (year % 100 ≠ 0 ∨ year % 400 = 0) then 29 else 28
  else if month = 4 ∨ month = 6 ∨ month = 9 ∨ month = 11 then 30
  else 31

/-- The rest after a date. -/
def readDate (cs : List Char) : Option (List Char) := do
  let (year, cs) ← readFixed 4 cs
  let (month, cs) ← readFixed 2 (← readMark '-' cs)
  let (day, cs) ← readFixed 2 (← readMark '-' cs)
  if 1 ≤ month ∧ month ≤ 12 ∧ 1 ≤ day ∧ day ≤ daysIn year month then return cs else failure

/-- The rest after a time of day. -/
def readTime (cs : List Char) : Option (List Char) := do
  let (hour, cs) ← readFixed 2 cs
  let (minute, cs) ← readFixed 2 (← readMark ':' cs)
  let (second, cs) ← readFixed 2 (← readMark ':' cs)
  if 23 < hour ∨ 59 < minute ∨ 60 < second then failure
  match cs with
  | '.' :: fraction => return ((readFixed 1 fraction).map fun _ => fraction.dropWhile Char.isDigit).getD cs
  | cs => return cs

/-- The rest after the offset from universal time, if there is one. -/
def readOffset (cs : List Char) : List Char :=
  match cs with
  | 'Z' :: rest | 'z' :: rest => rest
  | '+' :: rest | '-' :: rest =>
    (do
      let (hour, rest) ← readFixed 2 rest
      let (minute, rest) ← readFixed 2 (← readMark ':' rest)
      if 23 < hour ∨ 59 < minute then failure else some rest).getD cs
  | cs => cs

/-- The rest after a date with or without a time, or after a time. -/
def readMoment (cs : List Char) : Option (List Char) :=
  match readDate cs with
  | some rest =>
    match rest with
    | d :: clock =>
      if d = 'T' ∨ d = 't' ∨ d = ' ' then
        match readTime clock with
        | some rest => some (readOffset rest)
        | none => some rest
      else some rest
    | [] => some rest
  | none => readTime cs

/-! ## Keys -/

def isBare (c : Char) : Bool := c.isAlphanum || c = '_' || c = '-'

/-- One name of a key. -/
def readName (cs : List Char) : Option (String × List Char) :=
  match cs with
  | '"' :: rest => (readBasic (rest.length + 1) rest).map fun (s, rest) => (String.ofList s, rest)
  | '\'' :: rest => (readLiteral rest).map fun (s, rest) => (String.ofList s, rest)
  | cs =>
    match cs.takeWhile isBare with
    | [] => none
    | name => some (String.ofList name, cs.dropWhile isBare)

/-- The most names in a key, and the most arrays and tables in a value that stand inside each other. -/
def maxDepth : Nat := 79

/-- At most `limit` names with dots between them. The last name stands apart. -/
def readNames : Nat → List Char → Option ((List String × String) × List Char)
  | 0, _ => none
  | limit + 1, cs => do
    let (name, cs) ← readName (skipSpace cs)
    match skipSpace cs with
    | '.' :: cs =>
      let ((path, last), cs) ← readNames limit cs
      return ((name :: path, last), cs)
    | cs => return (([], name), cs)

/-- A key: its path and its last name. -/
def readKey (cs : List Char) : Option ((List String × String) × List Char) := readNames maxDepth cs

end Stepwise.Toml
