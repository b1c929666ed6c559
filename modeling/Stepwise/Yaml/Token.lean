import Stepwise.Number.Decimal

/-!
# YAML tokens

A text becomes a list of tokens. Block structure shows only in columns, so tokens are added where the indentation grows
and shrinks, and in front of what turns out to be a key when its colon is met. A reader of one token moves a `Progress`
on; it fails on texts that no reading allows.
-/

namespace Stepwise.Yaml

inductive TokenKind where
  /-- The version of the language. -/
  | version
  /-- What a tag handle stands for. -/
  | tagHandle (handle expansion : String)
  | documentStart
  | documentEnd
  | blockSequence
  | blockMapping
  | blockEnd
  | flowSequence
  | flowSequenceEnd
  | flowMapping
  | flowMappingEnd
  | blockEntry
  | flowEntry
  | key
  | value
  | alias (name : String)
  | anchor (name : String)
  | tag (handle suffix : String)
  | scalar (plain : Bool) (text : String)

structure Token where
  kind : TokenKind
  col : Nat

/-- The start of what may be a key. A required one has to be a key. -/
structure KeyStart where
  possible : Bool
  required : Bool
  /-- How many tokens stand before it. -/
  number : Nat
  index : Nat
  line : Nat
  col : Nat

/-- An indentation inside another one. Only a block is closed by a token of its own. -/
structure Level where
  outer : Int
  block : Bool

structure Progress where
  rest : List Char
  index : Nat
  line : Nat
  col : Nat
  /-- Whether there is only space before this place on its line. -/
  fresh : Bool
  tokens : List Token
  indent : Int
  levels : List Level
  /-- One for each flow collection around this place, innermost first, and one for the block. -/
  keys : List KeyStart
  keyAllowed : Bool
  /-- Where a value may follow its colon directly. -/
  adjacent : Nat

abbrev Scan := StateT Progress Option

/-! ## Characters -/

def isBreak (c : Char) : Bool := c = '\n' || c = '\r'

def isBlank (c : Char) : Bool := c = ' ' || c = '\t'

def isFlow (c : Char) : Bool := c = ',' || c = '[' || c = ']' || c = '\x7b' || c = '\x7d'

def isWordChar (c : Char) : Bool := c.isAlphanum || c = '_' || c = '-'

/-- Whether a line ends in front of a text. -/
def endsLine : List Char → Bool
  | [] => true
  | c :: _ => isBreak c

/-- Whether a word ends in front of a text. -/
def endsWord : List Char → Bool
  | [] => true
  | c :: _ => isBreak c || isBlank c

def startsFlow : List Char → Bool
  | [] => false
  | c :: _ => isFlow c

/-- Whether a line starts with the mark of a document's start or end. -/
def isDocumentMark : List Char → Bool
  | '-' :: '-' :: '-' :: cs | '.' :: '.' :: '.' :: cs => endsWord cs
  | _ => false

namespace Progress

def flow (s : Progress) : Nat := s.keys.length - 1

/-- Whether the column lies left of the indentation. -/
def outdented (s : Progress) : Bool := (s.col : Int) < s.indent

def start (cs : List Char) : Progress :=
  { rest := cs, index := 0, line := 0, col := 0, fresh := true, tokens := [], indent := -1, levels := [],
    keys := [⟨false, false, 0, 0, 0, 0⟩], keyAllowed := true, adjacent := 0 }

end Progress

/-! ## Moving on -/

def look : Scan (List Char) := return (← get).rest

/-- Passes over `n` characters of a line that may be space. -/
def passSpace (n : Nat) : Scan Unit :=
  modify fun s => { s with rest := s.rest.drop n, index := s.index + n, col := s.col + n }

/-- Passes over `n` characters of a line. -/
def pass (n : Nat) : Scan Unit := do
  passSpace n
  modify ({ · with fresh := false })

/-- Passes over the characters of a line that belong to a class, and gives them. -/
def passWhile (member : Char → Bool) : Scan (List Char) := do
  let cs := (← look).takeWhile member
  unless cs.isEmpty do pass cs.length
  return cs

/-- Passes over a line end. -/
def passBreak : Scan Unit :=
  modify fun s =>
    let n := match s.rest with
      | '\r' :: '\n' :: _ => 2
      | _ => 1
    { s with rest := s.rest.drop n, index := s.index + n, line := s.line + 1, col := 0, fresh := true }

def passComment : Scan Unit := do let _ ← passWhile (! isBreak ·)

/-- Passes over space up to the end of a line, and over a comment, which has to be set apart. Gives the space. -/
def passToEnd (tabs : Bool) : Scan (List Char) := do
  let blanks := (← look).takeWhile fun c => c = ' ' || (tabs && c = '\t')
  passSpace blanks.length
  match ← look with
  | '#' :: _ =>
    if blanks.isEmpty then failure
    passComment
  | _ => pure ()
  return blanks

/-! ## Keys -/

def allowKey (allowed : Bool) : Scan Unit := modify ({ · with keyAllowed := allowed })

/-- Notes that a key may start here. -/
def saveKey : Scan Unit := do
  let s ← get
  if s.keyAllowed then
    let required := s.flow = 0 && s.indent = s.col && (s.levels.head?.map (·.block)).getD false
    set { s with keys := ⟨true, required, s.tokens.length, s.index, s.line, s.col⟩ :: s.keys.tail }

/-- Gives up the key that may have started. -/
def dropKey : Scan Unit := do
  let s ← get
  match s.keys with
  | k :: ks =>
    if k.possible && k.required then failure
    set { s with keys := { k with possible := false } :: ks }
  | [] => failure

/-- Gives up a key of a block when its line ends or it gets too long. -/
def dropStaleKey : Scan Unit := do
  let s ← get
  match s.keys with
  | [k] => if k.possible && (k.line < s.line || k.index + 1024 < s.index) then dropKey
  | _ => pure ()

/-! ## Indentation -/

def push (kind : TokenKind) (col : Nat) : Scan Unit := modify fun s => { s with tokens := s.tokens ++ [⟨kind, col⟩] }

def insert (number : Nat) (kind : TokenKind) (col : Nat) : Scan Unit :=
  modify fun s => { s with tokens := s.tokens.take number ++ ⟨kind, col⟩ :: s.tokens.drop number }

/-- The levels that remain at a column, their indentation, and how many blocks were closed. -/
def unwind (col : Int) : Int → List Level → List Level × Int × Nat
  | indent, [] => ([], indent, 0)
  | indent, l :: ls =>
    if col < indent then
      let (levels, indent, closed) := unwind col l.outer ls
      (levels, indent, if l.block then closed + 1 else closed)
    else (l :: ls, indent, 0)

/-- Closes the blocks that lie right of a column. -/
def closeTo (col : Int) : Scan Unit := do
  let s ← get
  if s.flow = 0 then
    let (levels, indent, closed) := unwind col s.indent s.levels
    set { s with levels, indent, tokens := s.tokens ++ List.replicate closed (Token.mk .blockEnd s.col) }

/-- Without the levels that are no blocks. -/
def unwindEntries : Int → List Level → List Level × Int
  | indent, [] => ([], indent)
  | indent, l :: ls => if l.block then (l :: ls, indent) else unwindEntries l.outer ls

def closeEntries : Scan Unit := do
  let s ← get
  let (levels, indent) := unwindEntries s.indent s.levels
  set { s with levels, indent }

/-- Opens a block at a column unless one is open there. A level that is no block makes room for it. -/
def openBlock (kind : TokenKind) (col number : Nat) : Scan Unit := do
  let s ← get
  if s.flow = 0 then
    let (levels, indent) := match s.levels with
      | l :: ls => if s.indent ≤ col ∧ ! l.block then (ls, l.outer) else (l :: ls, s.indent)
      | [] => ([], s.indent)
    if indent < col then
      set { s with levels := ⟨indent, true⟩ :: levels, indent := col }
      insert number kind col
    else set { s with levels, indent }

/-- Opens a level for the inside of an entry, one column further right. -/
def openEntry : Scan Unit := do
  let s ← get
  if s.flow = 0 && (s.levels.head?.map (·.block)).getD false then
    set { s with levels := ⟨s.indent, false⟩ :: s.levels, indent := s.indent + 1 }

/-! ## Layout -/

/-- Passes over space, comments and line ends. Tabs do not indent. -/
def passLayout : Nat → Scan Unit
  | 0 => failure
  | fuel + 1 => do
    let s ← get
    match s.rest with
    | [] => pure ()
    | c :: _ =>
      if c = '\t' && ! s.levels.isEmpty && s.fresh && s.outdented then
        let _ ← passToEnd true
        if ! endsLine (← look) then failure
        passLayout fuel
      else if isBlank c then
        passSpace 1
        passLayout fuel
      else if isBreak c then
        passBreak
        if s.flow = 0 then allowKey true
        passLayout fuel
      else if c = '#' then
        passComment
        passLayout fuel
      else pure ()

def skip : Scan Unit := do passLayout ((← look).length + 1)

end Stepwise.Yaml
