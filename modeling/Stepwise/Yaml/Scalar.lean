import Stepwise.Yaml.Token

/-!
# YAML scalars

Scalars are plain, quoted, or blocks of lines. In plain and quoted scalars a line end counts as a space, and line ends
after it as themselves.
-/

namespace Stepwise.Yaml

/-- Space and line ends inside a scalar. -/
structure Gap where
  /-- Space on the line of the last character. -/
  blanks : List Char
  /-- Whether that line has ended. -/
  broken : Bool
  /-- Line ends after that. -/
  breaks : Nat

namespace Gap

def empty : Gap := ⟨[], false, 0⟩

/-- What a gap stands for between two characters of a scalar. -/
def text (g : Gap) : List Char :=
  if g.broken then if g.breaks = 0 then [' '] else List.replicate g.breaks '\n'
  else g.blanks

/-- The gap with one more line end. -/
def lineEnd (g : Gap) : Gap := if g.broken then { g with breaks := g.breaks + 1 } else ⟨[], true, 0⟩

end Gap

/-! ## Quoted scalars -/

/-- The character that a one-letter escape stands for. -/
def escape? : Char → Option Char
  | '0' => some '\x00'
  | 'a' => some '\x07'
  | 'b' => some '\x08'
  | 't' | '\t' => some '\t'
  | 'n' => some '\n'
  | 'v' => some '\x0b'
  | 'f' => some '\x0c'
  | 'r' => some '\r'
  | 'e' => some '\x1b'
  | ' ' => some ' '
  | '"' => some '"'
  | '/' => some '/'
  | '\\' => some '\\'
  | 'N' => some '\u0085'
  | '_' => some '\u00A0'
  | 'L' => some '\u2028'
  | 'P' => some '\u2029'
  | _ => none

/-- The character with a code point in hexadecimal digits. -/
def codePoint? (ds : List Char) : Option Char :=
  if ds.any (16 ≤ digitValue ·) then none
  else
    let n := natOfDigits 16 ds
    if n < 0xD800 ∨ (0xE000 ≤ n ∧ n < 0x110000) then some (Char.ofNat n) else none

/-- How many digits follow an escape that gives a code point. -/
def codeLength? : Char → Option Nat
  | 'x' => some 2
  | 'u' => some 4
  | 'U' => some 8
  | _ => none

/-- One escaped character, after its backslash. -/
def readEscape : Scan Char := do
  match ← look with
  | [] => failure
  | e :: cs =>
    match codeLength? e with
    | some n =>
      if cs.length < n then failure
      let c ← codePoint? (cs.take n)
      pass (n + 1)
      return c
    | none =>
      let c ← escape? e
      pass 1
      return c

/-- The characters of a quoted scalar up to the next space, line end or closing quote, and whether they end with an
escaped line end. -/
def readWord (quote : Char) : Nat → Scan (List Char × Bool)
  | 0 => failure
  | fuel + 1 => do
    match ← look with
    | [] => return ([], false)
    | c :: cs =>
      if isBlank c || isBreak c then return ([], false)
      else if c = '\'' && quote = '\'' && cs.head? = some '\'' then
        pass 2
        let (more, escaped) ← readWord quote fuel
        return ('\'' :: more, escaped)
      else if c = quote then return ([], false)
      else if c = '\\' && quote = '"' then
        pass 1
        match ← look with
        | [] => failure
        | d :: _ =>
          if isBreak d then
            passBreak
            return ([], true)
          else
            let e ← readEscape
            let (more, escaped) ← readWord quote fuel
            return (e :: more, escaped)
      else
        pass 1
        let (more, escaped) ← readWord quote fuel
        return (c :: more, escaped)

/-- The gap in a quoted scalar from here on. Tabs do not indent. -/
def readQuotedGap : Nat → Bool → Gap → Scan Gap
  | 0, _, _ => failure
  | fuel + 1, escaped, g => do
    let s ← get
    match s.rest with
    | [] => return g
    | c :: _ =>
      if isBlank c then
        let leading := escaped || g.broken
        if leading && c = '\t' && s.outdented then failure
        passSpace 1
        readQuotedGap fuel escaped (if leading then g else { g with blanks := g.blanks ++ [c] })
      else if isBreak c then
        passBreak
        readQuotedGap fuel escaped (if escaped then { g with breaks := g.breaks + 1 } else g.lineEnd)
      else return g

/-- What a gap stands for in a quoted scalar; an escaped line end leaves only the further line ends. -/
def quotedGapText (escaped : Bool) (g : Gap) : List Char :=
  if escaped then List.replicate g.breaks '\n' else g.text

/-- The text of a quoted scalar after its opening quote, and the quote that closes it. -/
def readQuoted (quote : Char) : Nat → Scan (List Char)
  | 0 => failure
  | fuel + 1 => do
    let s ← get
    if s.col = 0 && isDocumentMark s.rest then failure
    if s.rest.isEmpty || s.outdented then failure
    let (word, escaped) ← readWord quote (s.rest.length + 1)
    match ← look with
    | c :: cs =>
      if c = quote then
        pass 1
        return word
      else
        let g ← readQuotedGap (cs.length + 2) escaped .empty
        let more ← readQuoted quote fuel
        return word ++ quotedGapText escaped g ++ more
    | [] => failure

/-- A quoted scalar. Only what can follow a scalar may follow it. -/
def readQuotedScalar (quote : Char) : Scan String := do
  let first ← get
  pass 1
  let text ← readQuoted quote (first.rest.length + 1)
  let _ ← passToEnd true
  let s ← get
  let closed := match s.rest with
    | [] => true
    | c :: _ =>
      isBreak c || (c = ':' && (0 < s.flow || first.line = s.line)) ||
        (0 < s.flow && (c = ',' || c = ']' || c = '\x7d'))
  if closed then return String.ofList text else failure

/-! ## Plain scalars -/

/-- Whether a character can stand in a plain scalar, in front of the rest of the text. -/
def isPlain (flow : Nat) (c : Char) (cs : List Char) : Bool :=
  if c = ':' then ! (endsWord cs || (0 < flow && startsFlow cs)) else ! (0 < flow && isFlow c)

/-- The characters of a plain scalar up to the next space or line end. -/
def plainWord (flow : Nat) : List Char → List Char
  | [] => []
  | c :: cs => if isBlank c || isBreak c || ! isPlain flow c cs then [] else c :: plainWord flow cs

/-- The gap in a plain scalar from here on, in an indentation. A tab may only indent an empty line. -/
def readPlainGap (indent : Int) : Nat → Gap → Scan Gap
  | 0, _ => failure
  | fuel + 1, g => do
    let s ← get
    match s.rest with
    | [] => return g
    | c :: _ =>
      if isBreak c then
        passBreak
        readPlainGap indent fuel g.lineEnd
      else if ! isBlank c then return g
      else if ! s.fresh then
        passSpace 1
        readPlainGap indent fuel { g with blanks := g.blanks ++ [c] }
      else if c = '\t' && (s.col : Int) < indent then
        let _ ← passToEnd true
        if ! endsLine (← look) then failure
        readPlainGap indent fuel g
      else
        passSpace 1
        readPlainGap indent fuel g

/-- The text of a plain scalar, after the gap `g`. -/
def readPlain (indent : Int) : Nat → Gap → Scan (List Char)
  | 0, _ => failure
  | fuel + 1, g => do
    let s ← get
    if (s.col = 0 && isDocumentMark s.rest) || s.rest.head? = some '#' then return []
    if 0 < s.flow && s.rest.head? = some '-' && startsFlow s.rest.tail then failure
    let word := plainWord s.flow s.rest
    unless word.isEmpty do pass word.length
    let text := if word.isEmpty then [] else g.text ++ word
    match ← look with
    | [] => return text
    | c :: cs =>
      if ! isBlank c && ! isBreak c then return text
      else
        let g ← readPlainGap indent (cs.length + 2) (if word.isEmpty then g else .empty)
        let s ← get
        if s.flow = 0 && (s.col : Int) < indent then return text
        return text ++ (← readPlain indent fuel g)

/-- A plain scalar. After a line end a key may start. -/
def readPlainScalar : Scan String := do
  closeEntries
  let s ← get
  if 0 < s.flow && (s.col : Int) < s.indent + 1 then failure
  let text ← readPlain (s.indent + 1) (s.rest.length + 1) .empty
  if (← get).fresh then allowKey true
  return String.ofList text

/-! ## Block scalars -/

/-- What happens to the line ends after the last line of a block. -/
inductive Chomping where
  | strip
  | clip
  | keep
deriving DecidableEq

def Chomping.ofChar? : Char → Option Chomping
  | '+' => some .keep
  | '-' => some .strip
  | _ => none

/-- The header of a block: how it ends, and by how much it is indented if that is said. -/
def readHeader : Scan (Chomping × Nat) := do
  let chomping : Scan (Option Chomping) := do
    let c := (← look).head?.bind Chomping.ofChar?
    if c.isSome then pass 1
    return c
  let increment : Scan Nat := do
    match ← look with
    | c :: _ =>
      if c = '0' then failure
      else if c.isDigit then
        pass 1
        return digitValue c
      else return 0
    | [] => return 0
  match ← chomping with
  | some c => return (c, ← increment)
  | none =>
    match ← increment with
    | 0 => return (.clip, 0)
    | n => return ((← chomping).getD .clip, n)

/-- Passes over empty lines and the indentation of the next line, and counts the lines. -/
def passIndent (indent : Nat) : Nat → Scan Nat
  | 0 => failure
  | fuel + 1 => do
    let s ← get
    passSpace ((s.rest.take (indent - s.col)).takeWhile (· = ' ')).length
    match ← look with
    | [] => return 0
    | c :: _ =>
      if isBreak c then
        passBreak
        return (← passIndent indent fuel) + 1
      else return 0

/-- Passes over the empty lines at the start of a block; gives the widest indentation and the number of lines. -/
def passFirstIndent : Nat → Scan (Nat × Nat)
  | 0 => failure
  | fuel + 1 => do
    passSpace ((← look).takeWhile (· = ' ')).length
    let width := (← get).col
    match ← look with
    | [] => return (width, 0)
    | c :: _ =>
      if isBreak c then
        passBreak
        let (widest, breaks) ← passFirstIndent fuel
        return (max width widest, breaks + 1)
      else return (width, 0)

/-- The lines of a block. `ended` says whether a line end came before, `breaks` how many empty lines came after it, and
`spaced` whether the last line starts with space. Gives the text, and the last two again. -/
def readLines (literal : Bool) (indent : Nat) : Nat → Bool → Nat → Bool → Scan (List Char × Bool × Nat)
  | 0, _, _, _ => failure
  | fuel + 1, ended, breaks, spaced => do
    let s ← get
    if s.col ≠ indent || s.rest.isEmpty || (indent = 0 && isDocumentMark s.rest) then return ([], ended, breaks)
    let blank := (s.rest.head?.map isBlank).getD false
    let lines := List.replicate breaks '\n'
    let gap :=
      if ! literal && ended && ! spaced && ! blank then if breaks = 0 then [' '] else lines
      else (if ended then ['\n'] else []) ++ lines
    let line ← passWhile (! isBreak ·)
    if (← look).isEmpty then return (gap ++ line, false, 0)
    passBreak
    let breaks ← passIndent indent ((← look).length + 1)
    let (more, ended, breaks) ← readLines literal indent fuel true breaks blank
    return (gap ++ line ++ more, ended, breaks)

/-- A block of lines after its mark; a literal block keeps its line ends. -/
def readBlockScalar (literal : Bool) : Scan String := do
  let first ← get
  pass 1
  closeEntries
  let (chomping, increment) ← readHeader
  let _ ← passToEnd true
  if ! endsLine (← look) then failure
  if ! (← look).isEmpty then passBreak
  if (← look).head? = some '\t' then failure
  let outer := (← get).indent
  let fuel := (← look).length + 1
  let (indent, breaks) ←
    if increment = 0 then do
      let (width, breaks) ← passFirstIndent fuel
      pure (max width (max (outer + 1).toNat (if 0 < outer then 1 else 0)), breaks)
    else do
      let indent := (max outer 0).toNat + increment
      pure (indent, ← passIndent indent fuel)
  let s ← get
  if s.rest.isEmpty then
    let text :=
      if chomping = .strip || s.line = first.line then []
      else if chomping = .keep && breaks ≠ 0 then List.replicate breaks '\n'
      else ['\n']
    return String.ofList text
  if s.col < indent && outer < s.col then failure
  let (text, ended, breaks) ← readLines literal indent fuel false breaks false
  let s ← get
  let last := if ended then ['\n'] else []
  let unfinished := if s.rest.isEmpty && max indent 1 ≤ s.col then ['\n'] else []
  let tail := match chomping with
    | .strip => []
    | .clip => last ++ unfinished
    | .keep => last ++ unfinished ++ List.replicate breaks '\n'
  return String.ofList (text ++ tail)

end Stepwise.Yaml
