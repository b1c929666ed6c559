import Stepwise.Settings.Layer

/-!
# Reading RON

An object notation with records `(name: value)`, maps, lists, options and a number syntax of its own. The names in front
of records do not count, an option counts as what it holds, and a tuple is a list.
-/

namespace Stepwise.Ron

/-! ## Layout -/

def isSpace (c : Char) : Bool := c = ' ' || c = '\t' || c = '\n' || c = '\r'

/-- Passes over a comment in `level` more comments. -/
def skipBlock (level : Nat) : List Char → Option (List Char)
  | '/' :: '*' :: cs => skipBlock (level + 1) cs
  | '*' :: '/' :: cs => if level = 0 then some cs else skipBlock (level - 1) cs
  | _ :: cs => skipBlock level cs
  | [] => none

/-- Passes over white space and comments, at most `fuel` of them. -/
def skipLayout : Nat → List Char → Option (List Char)
  | 0, _ => none
  | fuel + 1, cs =>
    match cs.dropWhile isSpace with
    | '/' :: '/' :: cs => skipLayout fuel (cs.dropWhile (· ≠ '\n'))
    | '/' :: '*' :: cs => do skipLayout fuel (← skipBlock 0 cs)
    | '/' :: _ => none
    | cs => some cs

def skip (cs : List Char) : Option (List Char) := skipLayout (cs.length + 1) cs

/-! ## Names -/

def isNameStart (c : Char) : Bool := c.isAlpha || c = '_'

def isNameChar (c : Char) : Bool := c.isAlphanum || c = '_'

def isRawChar (c : Char) : Bool := isNameChar c || c = '.' || c = '+' || c = '-'

/-- A name; after `r#` it may hold more characters. A raw string is none. -/
def readName (cs : List Char) : Option (String × List Char) :=
  match cs with
  | 'r' :: '"' :: _ | 'r' :: '#' :: '"' :: _ | 'r' :: '#' :: '#' :: _ => none
  | 'r' :: '#' :: cs =>
    match cs.takeWhile isRawChar with
    | [] => none
    | name => some (String.ofList name, cs.dropWhile isRawChar)
  | c :: _ =>
    if isNameStart c then some (String.ofList (cs.takeWhile isNameChar), cs.dropWhile isNameChar) else none
  | [] => none

/-! ## Strings -/

/-- The character with a code point in hexadecimal digits. -/
def codePoint? (ds : List Char) : Option Char :=
  if ds = [] ∨ ds.any (16 ≤ digitValue ·) then none
  else
    let n := natOfDigits 16 ds
    if n < 0xD800 ∨ (0xE000 ≤ n ∧ n < 0x110000) then some (Char.ofNat n) else none

def escape? : Char → Option Char
  | '\'' => some '\''
  | '"' => some '"'
  | '\\' => some '\\'
  | 'n' => some '\n'
  | 'r' => some '\r'
  | 't' => some '\t'
  | '0' => some '\x00'
  | _ => none

/-- One escaped character, after its backslash. -/
def readEscape (cs : List Char) : Option (Char × List Char) :=
  match cs with
  | 'x' :: a :: b :: cs => (codePoint? [a, b]).map (·, cs)
  | 'u' :: '\x7b' :: cs =>
    match cs.dropWhile (· ≠ '\x7d') with
    | '\x7d' :: rest =>
      let ds := cs.takeWhile (· ≠ '\x7d')
      if ds.length ≤ 6 then (codePoint? ds).map (·, rest) else none
    | _ => none
  | c :: cs => (escape? c).map (·, cs)
  | [] => none

/-- The characters of a string, at most `fuel`, up to its closing quote. -/
def readString : Nat → List Char → Option (List Char × List Char)
  | 0, _ => none
  | _ + 1, '"' :: cs => some ([], cs)
  | fuel + 1, '\\' :: cs => do
    let (c, cs) ← readEscape cs
    let (s, rest) ← readString fuel cs
    return (c :: s, rest)
  | fuel + 1, c :: cs => do
    let (s, rest) ← readString fuel cs
    return (c :: s, rest)
  | _ + 1, [] => none

/-- The characters of a raw string up to its closing mark. -/
def readRaw (close : List Char) : List Char → Option (List Char × List Char)
  | [] => none
  | c :: cs =>
    match close.isPrefixOf? (c :: cs) with
    | some rest => some ([], rest)
    | none => do
      let (s, rest) ← readRaw close cs
      return (c :: s, rest)

/-- A raw string after its `r`. -/
def readRawString (cs : List Char) : Option (List Char × List Char) :=
  let marks := cs.takeWhile (· = '#')
  match cs.dropWhile (· = '#') with
  | '"' :: cs => readRaw ('"' :: marks) cs
  | _ => none

/-- A character after its opening quote. -/
def readChar (cs : List Char) : Option (Char × List Char) := do
  let (c, cs) ← match cs with
    | '\\' :: cs => readEscape cs
    | c :: cs => some (c, cs)
    | [] => none
  match cs with
  | '\'' :: cs => return (c, cs)
  | _ => failure

/-! ## Numbers -/

def isFloatChar (c : Char) : Bool := c.isDigit || c = 'e' || c = 'E' || c = '.' || c = '+' || c = '-' || c = '_'

def isIntChar (c : Char) : Bool := digitValue c < 16 || c = '_'

/-- The radix of an integer and its digits. -/
def readRadix : List Char → Nat × List Char
  | '0' :: 'x' :: cs => (16, cs)
  | '0' :: 'b' :: cs => (2, cs)
  | '0' :: 'o' :: cs => (8, cs)
  | cs => (10, cs)

/-- An integer without sign below `bound`; underscores stand between its digits. -/
def readNat (bound : Nat) (cs : List Char) : Option (Nat × List Char) := do
  let (radix, cs) := readRadix cs
  let ds := cs.takeWhile isIntChar
  if ds.isEmpty ∨ ds.head? = some '_' then failure
  let ds := ds.filter (· ≠ '_')
  let n := natOfDigits radix ds
  if ds.all (digitValue · < radix) ∧ n < bound then return (n, cs.dropWhile isIntChar) else failure

/-- An integer: with a sign a signed word, and without a sign a word, whose bits are taken as those of a signed word. -/
def readInt (cs : List Char) : Option (Int × List Char) :=
  match cs with
  | '-' :: cs => (readNat (signedBound + 1) cs).map fun (n, rest) => (-n, rest)
  | '+' :: cs => (readNat signedBound cs).map fun (n, rest) => (n, rest)
  | cs => (readNat wordSize cs).map fun (n, rest) => (if n < signedBound then n else n - wordSize, rest)

/-- The words for doubles without digits. -/
def wordFloats : List (String × Float) :=
  [("inf", infinity), ("+inf", infinity), ("-inf", -infinity), ("NaN", nan), ("+NaN", nan), ("-NaN", nan)]

/-- One of those words, with no further letters after it. -/
def readWordFloat (cs : List Char) : Option (Float × List Char) :=
  wordFloats.findSome? fun (word, x) => do
    let rest ← word.toList.isPrefixOf? cs
    if (rest.head?.map isNameChar).getD false then failure else return (x, rest)

def readFloat (cs : List Char) : Option (Float × List Char) :=
  (readWordFloat cs).or ((readDecimal? (cs.takeWhile isFloatChar)).map (·, cs.dropWhile isFloatChar))

/-- Whether a number is no integer: more characters of it belong to a double than to an integer. -/
def looksFloat (cs : List Char) : Bool :=
  let body := match cs with
    | '+' :: cs | '-' :: cs => cs
    | cs => cs
  (body.takeWhile isIntChar).length < (body.takeWhile isFloatChar).length

def readNumber (cs : List Char) : Option (Setting × List Char) :=
  let integer := if looksFloat cs then none else (readInt cs).map fun (n, rest) => (Setting.int n, rest)
  integer.or ((readFloat cs).map fun (x, rest) => (.float x, rest))

/-! ## Values -/

/-- A value that holds no other values and does not start with a name. -/
def readScalar (cs : List Char) : Option (Setting × List Char) :=
  match cs with
  | '"' :: cs => (readString (cs.length + 1) cs).map fun (s, rest) => (.str (String.ofList s), rest)
  | 'r' :: cs => (readRawString cs).map fun (s, rest) => (.str (String.ofList s), rest)
  | '\'' :: cs => (readChar cs).map fun (c, rest) => (.str (String.singleton c), rest)
  | cs => readNumber cs

/-- Whether a record has names, seen from after its opening bracket. -/
def hasNames (cs : List Char) : Bool :=
  let named := do
    let (_, cs) ← readName (← skip cs)
    match ← skip cs with
    | ':' :: _ => return ()
    | _ => failure
  named.isSome

/-- What stands before a value in a list of values: its name in a record, a key in a map. -/
inductive Shape where
  | list
  | record
  | map

mutual

/-- A value with at most `depth` values inside each other; `fuel` bounds the number of calls. -/
def readValue : Nat → Nat → List Char → Option (Setting × List Char)
  | 0, _, _ => none
  | fuel + 1, depth, cs =>
    match readName cs with
    | some (name, rest) =>
      match name with
      | "true" => some (.bool true, rest)
      | "false" => some (.bool false, rest)
      | "None" => some (.null, rest)
      | "inf" => some (.float infinity, rest)
      | "NaN" => some (.float nan, rest)
      | "Some" => do
        match ← skip rest, depth with
        | '(' :: cs, depth + 1 =>
          let (v, cs) ← readValue fuel depth (← skip cs)
          match ← skip cs with
          | ')' :: cs => return (v, cs)
          | ',' :: cs =>
            match ← skip cs with
            | ')' :: cs => return (v, cs)
            | _ => failure
          | _ => failure
        | _, _ => failure
      | _ => do
        match ← skip rest with
        | '(' :: cs => readRecord fuel depth cs
        | cs => return (.null, cs)
    | none =>
      match cs, depth with
      | '(' :: ')' :: cs, _ => some (.null, cs)
      | '(' :: cs, depth => readRecord fuel depth cs
      | '[' :: cs, depth + 1 => (readItems fuel depth .list ']' cs).map fun (es, cs) => (.arr (es.map (·.2)), cs)
      | '\x7b' :: cs, depth + 1 => (readItems fuel depth .map '\x7d' cs).map fun (es, cs) => (.ofEntries es, cs)
      | cs, _ => readScalar cs

/-- A record after its opening bracket: a table if it has names, else a list. -/
def readRecord : Nat → Nat → List Char → Option (Setting × List Char)
  | fuel + 1, depth + 1, cs =>
    if hasNames cs then (readItems fuel depth .record ')' cs).map fun (es, cs) => (.ofEntries es, cs)
    else (readItems fuel depth .list ')' cs).map fun (es, cs) => (.arr (es.map (·.2)), cs)
  | _, _, _ => none

/-- Values with commas between them, up to a closing bracket; those of a list have empty names. -/
def readItems : Nat → Nat → Shape → Char → List Char → Option (Setting.Entries × List Char)
  | 0, _, _, _, _ => none
  | fuel + 1, depth, shape, close, cs => do
    let cs ← skip cs
    match [close].isPrefixOf? cs with
    | some rest => return ([], rest)
    | none =>
      let (name, cs) ← match shape with
        | .list => some ("", cs)
        | .record => readName cs
        | .map =>
          match readValue fuel depth cs with
          | some (.str s, cs) => some (s, cs)
          | _ => none
      let cs ← match shape, ← skip cs with
        | .list, _ => some cs
        | _, ':' :: cs => skip cs
        | _, _ => none
      let (v, cs) ← readValue fuel depth cs
      match ← skip cs with
      | ',' :: cs =>
        let (es, cs) ← readItems fuel depth shape close cs
        return ((name, v) :: es, cs)
      | c :: cs => if c = close then return ([(name, v)], cs) else failure
      | [] => failure

end

/-! ## Texts -/

/-- The features that a text may ask for; none of them changes how settings are read. -/
def features : List String := ["unwrap_newtypes", "implicit_some", "unwrap_variant_newtypes"]

/-- The names of features, at most `fuel`, up to the closing bracket. -/
def skipFeatures : Nat → List Char → Option (List Char)
  | 0, _ => none
  | fuel + 1, cs => do
    let (name, cs) ← readName cs
    if ! features.contains name then failure
    match ← skip cs with
    | ',' :: cs =>
      match ← skip cs with
      | ')' :: cs => return cs
      | cs => skipFeatures fuel cs
    | ')' :: cs => return cs
    | _ => failure

/-- The rest after words with layout between them. -/
def readWords : List String → List Char → Option (List Char)
  | [], cs => some cs
  | w :: ws, cs => do readWords ws (← w.toList.isPrefixOf? (← skip cs))

/-- The rest after the requests for features at the start of a text. -/
def skipRequests : Nat → List Char → Option (List Char)
  | 0, _ => none
  | fuel + 1, cs => do
    match ← skip cs with
    | '#' :: cs =>
      let cs ← skipFeatures (cs.length + 1) (← skip (← readWords ["!", "[", "enable", "("] cs))
      skipRequests fuel (← readWords ["]"] cs)
    | cs => return cs

/-- How many values may stand inside each other. -/
def maxDepth : Nat := 128

/-- Reads a RON text. -/
def parse? (source : String) : Option Setting := do
  let cs ← skipRequests (source.length + 1) source.toList
  let (v, cs) ← readValue (2 * cs.length + 2) maxDepth cs
  if (← skip cs).isEmpty then return v else failure

end Stepwise.Ron
