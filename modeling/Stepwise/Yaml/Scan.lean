import Stepwise.Yaml.Scalar

/-!
# From text to YAML tokens

The first characters at a place tell which token stands there.
-/

namespace Stepwise.Yaml

/-! ## Collections -/

/-- Opens a flow collection; it may be a key. -/
def readFlowStart (kind : TokenKind) : Scan Unit := do
  saveKey
  openEntry
  let col := (← get).col
  modify fun s => { s with keys := ⟨false, false, 0, 0, 0, 0⟩ :: s.keys }
  if 255 < (← get).flow then failure
  allowKey true
  pass 1
  let _ ← passToEnd true
  push kind col

def readFlowEnd (kind : TokenKind) : Scan Unit := do
  dropKey
  let col := (← get).col
  modify fun s => if 0 < s.flow then { s with keys := s.keys.tail } else s
  allowKey false
  pass 1
  let _ ← passToEnd true
  modify fun s => if 0 < s.flow then { s with adjacent := s.index } else s
  push kind col

def readFlowEntry : Scan Unit := do
  dropKey
  allowKey true
  let col := (← get).col
  pass 1
  let _ ← passToEnd true
  push .flowEntry col

/-- Whether a text starts with the mark of a block entry. -/
def startsEntry : List Char → Bool
  | '-' :: cs => endsWord cs
  | _ => false

/-- Whether a node was marked at the start of the line inside a block. -/
def marksEntry (s : Progress) : Bool :=
  match s.tokens.getLast? with
  | some ⟨.anchor _, 0⟩ | some ⟨.tag _ _, 0⟩ => s.col = 0 && -1 < s.indent
  | _ => false

/-- An entry of a block sequence. -/
def readBlockEntry : Scan Unit := do
  let s ← get
  if 0 < s.flow || ! s.keyAllowed || marksEntry s then failure
  pass 1
  openBlock .blockSequence s.col s.tokens.length
  let blanks ← passToEnd true
  if blanks.contains '\t' && startsEntry (← look) then failure
  let rest ← look
  if ! rest.isEmpty && (endsLine rest || startsFlow rest) then openEntry
  dropKey
  allowKey true
  push .blockEntry (← get).col

/-! ## Keys and values -/

/-- Passes over spaces, comments and line ends. -/
def passLines : Nat → Scan Unit
  | 0 => failure
  | fuel + 1 => do
    match ← look with
    | [] => pure ()
    | c :: _ =>
      if c = ' ' then
        passSpace 1
        passLines fuel
      else if isBreak c then
        passBreak
        if (← get).flow = 0 then allowKey true
        passLines fuel
      else if c = '#' then
        passComment
        passLines fuel
      else pure ()

/-- A key with a mark. -/
def readKey : Scan Unit := do
  let s ← get
  if s.flow = 0 then
    if ! s.keyAllowed then failure
    openBlock .blockMapping s.col s.tokens.length
  dropKey
  allowKey (s.flow = 0)
  pass 1
  match ← look with
  | c :: cs =>
    if c = '\t' then failure
    passLines (cs.length + 2)
  | [] => failure
  if (← look).head? = some '\t' then failure
  push .key s.col

/-- The colon between a key and its value. What may have been a key is one now. -/
def readColon : Scan Unit := do
  let s ← get
  pass 1
  if (← look).head? = some '\t' then
    let blanks ← passToEnd true
    let next := (← look).head?.map isWordChar
    if ! blanks.contains ' ' && next = some true then failure
  match s.keys with
  | k :: ks =>
    if k.possible then
      insert k.number .key k.col
      openBlock .blockMapping k.col k.number
      openEntry
      modify ({ · with keys := { k with possible := false } :: ks })
      allowKey false
    else
      if s.flow = 0 then
        if ! s.keyAllowed then failure
        openBlock .blockMapping s.col s.tokens.length
      openEntry
      allowKey (s.flow = 0)
  | [] => failure
  push .value s.col

/-! ## Anchors and tags -/

def isAnchorChar (c : Char) : Bool := ! isBlank c && ! isBreak c && ! isFlow c && c ≠ '\uFEFF'

/-- The name of an anchor or of an alias. -/
def readAnchor : Scan String := do
  pass 1
  match ← passWhile isAnchorChar with
  | [] => failure
  | name => return String.ofList name

def isUriChar (c : Char) : Bool := isWordChar c || "#;/?:@&=+$,_.!~*'()[]%".toList.contains c

def isTagChar (c : Char) : Bool := isUriChar c && ! isFlow c && c ≠ '!'

/-- The handle at the start of a tag. -/
def readHandle : Scan String := do
  pass 1
  let word ← passWhile isWordChar
  match ← look with
  | '!' :: _ =>
    pass 1
    return String.ofList ('!' :: word ++ ['!'])
  | _ => return String.ofList ('!' :: word)

/-- A tag without abbreviation, after its opening mark. -/
def readFullTag : Scan String := do
  pass 2
  let uri ← passWhile isUriChar
  match ← look with
  | '>' :: _ =>
    pass 1
    return String.ofList uri
  | _ => failure

/-- The handle and the rest of a tag. -/
def readTagParts : Scan (String × String) := do
  match ← look with
  | '!' :: '<' :: _ => return ("", ← readFullTag)
  | _ =>
    let handle ← readHandle
    let suffix ← passWhile isTagChar
    if 2 ≤ handle.length && handle.endsWith "!" then return (handle, String.ofList suffix)
    match handle.toList.tail ++ suffix with
    | [] => return ("", "!")
    | suffix => return ("!", String.ofList suffix)

def readTag : Scan Unit := do
  saveKey
  allowKey false
  let col := (← get).col
  let (handle, suffix) ← readTagParts
  let s ← get
  if endsWord s.rest || (0 < s.flow && startsFlow s.rest) then push (.tag handle suffix) col else failure

/-! ## Documents -/

def readVersionNumber : Scan Unit := do
  let ds ← passWhile Char.isDigit
  if ds.isEmpty || 9 < ds.length then failure

/-- What follows the name of a directive. -/
def readDirectiveValue (name : String) : Scan TokenKind := do
  match name with
  | "YAML" =>
    let _ ← passWhile isBlank
    readVersionNumber
    if (← look).head? ≠ some '.' then failure
    pass 1
    readVersionNumber
    return .version
  | "TAG" =>
    let _ ← passWhile isBlank
    if (← look).head? ≠ some '!' then failure
    let handle ← readHandle
    if handle ≠ "!" && ! handle.endsWith "!" then failure
    let _ ← passWhile isBlank
    match ← look with
    | c :: _ => if c ≠ '!' && ! isTagChar c then failure
    | [] => failure
    let expansion ← passWhile isUriChar
    if endsWord (← look) then return .tagHandle handle (String.ofList expansion) else failure
  | _ =>
    passComment
    return .tagHandle "" ""

def readDirective : Scan Unit := do
  closeTo (-1)
  dropKey
  allowKey false
  pass 1
  let name ← passWhile isWordChar
  if name.isEmpty || ! endsWord (← look) then failure
  let kind ← readDirectiveValue (String.ofList name)
  let _ ← passToEnd true
  if ! endsLine (← look) then failure
  if ! (← look).isEmpty then passBreak
  push kind 0

def readDocumentMark (kind : TokenKind) : Scan Unit := do
  closeTo (-1)
  dropKey
  allowKey false
  pass 3
  push kind 0

/-- The end of the text. -/
def readEnd : Scan Unit := do
  let s ← get
  if s.keys.any fun k => k.required && k.possible then failure
  set { s with keys := s.keys.map fun (k : KeyStart) => { k with possible := false } }
  closeTo (-1)

/-! ## Tokens -/

/-- Reads a scalar, which may be a key. -/
def readScalar (plain : Bool) (read : Scan String) : Scan Unit := do
  saveKey
  allowKey false
  let col := (← get).col
  push (.scalar plain (← read)) col

/-- A quoted scalar. In a flow collection its colon may follow directly. -/
def readQuotedToken (quote : Char) : Scan Unit := do
  saveKey
  allowKey false
  let col := (← get).col
  let text ← readQuotedScalar quote
  skip
  modify fun s => { s with adjacent := s.index }
  push (.scalar false text) col

def readBlockToken (literal : Bool) : Scan Unit := do
  saveKey
  allowKey true
  let col := (← get).col
  push (.scalar false (← readBlockScalar literal)) col

/-- The token that starts with a character, in front of the rest of the text. -/
def readFrom (s : Progress) (c : Char) (cs : List Char) : Scan Unit :=
  if c = '[' then readFlowStart .flowSequence
  else if c = '\x7b' then readFlowStart .flowMapping
  else if c = ']' then readFlowEnd .flowSequenceEnd
  else if c = '\x7d' then readFlowEnd .flowMappingEnd
  else if c = ',' then readFlowEntry
  else if c = '-' && endsWord cs then readBlockEntry
  else if c = '?' && endsWord cs then readKey
  else if c = ':' && (endsWord cs || (0 < s.flow && (startsFlow cs || s.index = s.adjacent))) then readColon
  else if c = '*' || c = '&' then do
    saveKey
    allowKey false
    let name ← readAnchor
    push (if c = '*' then .alias name else .anchor name) s.col
  else if c = '!' then readTag
  else if (c = '|' || c = '>') && s.flow = 0 then readBlockToken (c = '|')
  else if c = '\'' || c = '"' then readQuotedToken c
  else if c = '%' || c = '@' || c = '\x60' then failure
  else readScalar true readPlainScalar

/-- Reads the next token; gives whether there is one. -/
def readToken : Scan Bool := do
  skip
  dropStaleKey
  closeTo (← get).col
  let s ← get
  match s.rest with
  | [] =>
    readEnd
    return false
  | c :: cs =>
    if s.col = 0 && c = '%' then readDirective
    else if s.col = 0 && isDocumentMark s.rest then
      if c = '-' then readDocumentMark .documentStart
      else
        readDocumentMark .documentEnd
        let _ ← passToEnd true
        if ! endsLine (← look) then failure
    else if s.outdented then failure
    else readFrom s c cs
    return true

def readTokens : Nat → Scan Unit
  | 0 => failure
  | fuel + 1 => do if ← readToken then readTokens fuel

/-- The tokens of a text. A zero character ends it. -/
def tokens? (source : String) : Option (List Token) :=
  let cs := source.toList.takeWhile (· ≠ '\x00')
  ((readTokens (cs.length + 2)).run (Progress.start cs)).map fun (_, s) => s.tokens

end Stepwise.Yaml
