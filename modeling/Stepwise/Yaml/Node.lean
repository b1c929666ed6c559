import Stepwise.Yaml.Scan

/-!
# YAML nodes

The values that the tokens of a text describe. A plain scalar without tag is read as what it looks like. A mapping holds
each key once. An alias stands for the node with its anchor.
-/

namespace Stepwise

inductive Yaml where
  | null
  | bool (b : Bool)
  | int (n : Int)
  /-- A number with a fraction or a power, as it is written. -/
  | real (text : String)
  | str (s : String)
  | seq (items : List Yaml)
  | map (entries : List (Yaml × Yaml))
  /-- A scalar that is not what its tag says, or an alias inside its own node. -/
  | bad

namespace Yaml

instance : Inhabited Yaml := ⟨null⟩

/-! ## Scalars -/

/-- The texts for doubles without digits. -/
def isWordReal (s : String) : Bool :=
  [".inf", ".Inf", ".INF", "+.inf", "+.Inf", "+.INF", "-.inf", "-.Inf", "-.INF", ".nan", ".NaN", ".NAN"].contains s

def isReal (s : String) : Bool := isWordReal s || (readDecimal? s.toList).isSome

/-- An integer of 64 bits in decimal digits. -/
def integer? (cs : List Char) : Option Yaml := do
  let n ← Decimal.readInt? cs
  if FitsSigned n then return int n else failure

/-- An integer of 64 bits in digits of a radix. -/
def radixInteger? (radix : Nat) (cs : List Char) : Option Yaml := do
  let (negative, ds) := match cs with
    | '-' :: ds => (true, ds)
    | '+' :: ds => (false, ds)
    | ds => (false, ds)
  if ds.isEmpty ∨ ds.any (radix ≤ digitValue ·) then failure
  let n : Int := natOfDigits radix ds
  let n := if negative then -n else n
  if FitsSigned n then return int n else failure

/-- An integer with the mark of its radix or with a plus sign. -/
def markedInteger? : List Char → Option Yaml
  | '0' :: 'x' :: cs => radixInteger? 16 cs
  | '0' :: 'o' :: cs => radixInteger? 8 cs
  | '+' :: cs => integer? cs
  | _ => none

/-- What a plain scalar without tag looks like. -/
def ofPlain (s : String) : Yaml :=
  match markedInteger? s.toList with
  | some y => y
  | none =>
    match s with
    | "" | "~" | "null" => null
    | "true" => bool true
    | "false" => bool false
    | s => (integer? s.toList).getD (if isReal s then real s else str s)

/-- What a plain scalar is that its tag calls by a name of the core types. -/
def ofTag (name s : String) : Yaml :=
  match name with
  | "bool" => if s = "true" then bool true else if s = "false" then bool false else bad
  | "int" => (integer? s.toList).getD bad
  | "float" => if isReal s then real s else bad
  | "null" => if s = "~" ∨ s = "null" then null else bad
  | _ => str s

/-- What the handle of the core types stands for. -/
def coreTypes : String := "tag:yaml.org,2002:"

def ofScalar (plain : Bool) (tag : Option (String × String)) (s : String) : Yaml :=
  if ! plain then str s
  else match tag with
    | some (handle, name) => if handle = coreTypes then ofTag name s else str s
    | none => ofPlain s

/-! ## Keys -/

/-- The text of a key; only scalars are keys. -/
def keyText? : Yaml → Option String
  | str s => some s
  | int n => some (String.ofList ((if n < 0 then ['-'] else []) ++ Nat.toDigits 10 n.natAbs))
  | bool b => some (if b then "true" else "false")
  | real s => some s
  | _ => none

/-- Whether two scalars are the same key. -/
def sameKey : Yaml → Yaml → Bool
  | str s, str t => s = t
  | int n, int m => n = m
  | bool a, bool b => a = b
  | real s, real t => s = t
  | _, _ => false

/-- Adds an entry to a mapping that has no such key. -/
def addEntry? (key value : Yaml) (entries : List (Yaml × Yaml)) : Option (List (Yaml × Yaml)) :=
  if key.keyText?.isNone ∨ entries.any fun (k, _) => sameKey k key then none else some (entries ++ [(key, value)])

/-! ## Nodes -/

/-- What is left to read, the anchors of the document, the nodes that are read, and the tag handles. -/
structure Draft where
  tokens : List Token
  anchors : List (String × Nat)
  nodes : List (Nat × Yaml)
  next : Nat
  handles : List (String × String)

abbrev Compose := StateT Draft Option

/-- The next token; there is none at the end. -/
def peek : Compose (Option TokenKind) := return (← get).tokens.head?.map (·.kind)

def drop : Compose Unit := modify fun d => { d with tokens := d.tokens.tail }

/-- Gives a node that is being read a number. -/
def anchored (name : String) : Compose Nat := do
  let d ← get
  set { d with anchors := (name, d.next) :: d.anchors, next := d.next + 1 }
  return d.next

/-- The full form of a tag. -/
def expandTag (handle suffix : String) : Compose (String × String) := do
  match (← get).handles.lookup handle with
  | some expansion => return (expansion, suffix)
  | none =>
    if handle = "!!" then return (coreTypes, suffix)
    else if 2 ≤ handle.length && handle.endsWith "!" then failure
    else return (handle, suffix)

/-- An anchor, if there is one. -/
def readAnchor? : Compose (Option Nat) := do
  match ← peek with
  | some (.anchor name) =>
    drop
    return some (← anchored name)
  | _ => return none

/-- A tag, if there is one. -/
def readTag? : Compose (Option (String × String)) := do
  match ← peek with
  | some (.tag handle suffix) =>
    drop
    return some (← expandTag handle suffix)
  | _ => return none

/-- The anchor and the tag in front of a node, in either order. -/
def readProperties : Compose (Option Nat × Option (String × String)) := do
  match ← readAnchor? with
  | some a => return (some a, ← readTag?)
  | none =>
    match ← readTag? with
    | some t => return (← readAnchor?, some t)
    | none => return (none, none)

/-- Whether a node of a block is left out in front of a token. -/
def endsEntry : Option TokenKind → Bool
  | some .key | some .value | some .blockEnd => true
  | _ => false

/-- Whether a node of a flow collection is left out in front of a token. -/
def endsItem : Option TokenKind → Bool
  | some .flowEntry | some .flowMappingEnd | some .flowSequenceEnd => true
  | _ => false

mutual

/-- A node. `block` says whether it may be a block, and `inline` whether it may be a sequence whose entries stand in the
column of the key. -/
def readNode : Nat → Bool → Bool → Compose Yaml
  | 0, _, _ => failure
  | fuel + 1, block, inline => do
    match ← peek with
    | some (.alias name) =>
      drop
      let d ← get
      let number ← d.anchors.lookup name
      return (d.nodes.lookup number).getD bad
    | _ =>
      let (anchor, tag) ← readProperties
      let y ← readContent fuel block inline anchor tag
      match anchor with
      | some number => modify fun d => { d with nodes := (number, y) :: d.nodes }
      | none => pure ()
      return y

/-- A node after its properties; with properties it may be empty. -/
def readContent : Nat → Bool → Bool → Option Nat → Option (String × String) → Compose Yaml
  | 0, _, _, _, _ => failure
  | fuel + 1, block, inline, anchor, tag => do
    let empty : Compose Yaml := if anchor.isSome || tag.isSome then return ofScalar true tag "" else failure
    match ← peek with
    | some (.scalar plain s) =>
      drop
      return ofScalar plain tag s
    | some .flowSequence =>
      drop
      return seq (← readFlowItems fuel true)
    | some .flowMapping =>
      drop
      return map (← readFlowPairs fuel true [])
    | some .blockEntry => if inline then return seq (← readInlineItems fuel) else empty
    | some .blockSequence =>
      if block then
        drop
        return seq (← readBlockItems fuel)
      else empty
    | some .blockMapping =>
      if block then
        drop
        return map (← readBlockPairs fuel [])
      else empty
    | _ => empty

/-- The entries of a block sequence and its end. -/
def readBlockItems : Nat → Compose (List Yaml)
  | 0 => failure
  | fuel + 1 => do
    match ← peek with
    | some .blockEnd =>
      drop
      return []
    | some .blockEntry =>
      drop
      let y ← match ← peek with
        | some .blockEntry | some .blockEnd => pure null
        | _ => readNode fuel true false
      return y :: (← readBlockItems fuel)
    | _ => failure

/-- The entries of a sequence in the column of its key. -/
def readInlineItems : Nat → Compose (List Yaml)
  | 0 => failure
  | fuel + 1 => do
    match ← peek with
    | some .blockEntry =>
      drop
      let next ← peek
      let y ← match next with
        | some .blockEntry => pure null
        | _ => if endsEntry next then pure null else readNode fuel true false
      return y :: (← readInlineItems fuel)
    | _ => return []

/-- The entries of a block mapping and its end. -/
def readBlockPairs : Nat → List (Yaml × Yaml) → Compose (List (Yaml × Yaml))
  | 0, _ => failure
  | fuel + 1, entries => do
    match ← peek with
    | some .blockEnd =>
      drop
      return entries
    | some .key =>
      drop
      let key ← if endsEntry (← peek) then pure null else readNode fuel true true
      let value ← readBlockValue fuel
      readBlockPairs fuel (← addEntry? key value entries)
    | some .value =>
      let value ← readBlockValue fuel
      readBlockPairs fuel (← addEntry? null value entries)
    | _ => failure

/-- The value of an entry of a block mapping; it may be left out. -/
def readBlockValue : Nat → Compose Yaml
  | 0 => failure
  | fuel + 1 => do
    match ← peek with
    | some .value =>
      drop
      if endsEntry (← peek) then return null else readNode fuel true true
    | _ => return null

/-- The items of a flow sequence and its end. A single pair counts as a mapping. -/
def readFlowItems : Nat → Bool → Compose (List Yaml)
  | 0, _ => failure
  | fuel + 1, first => do
    match ← peek, first with
    | some .flowSequenceEnd, _ | _, true => pure ()
    | some .flowEntry, false => drop
    | _, false => failure
    match ← peek with
    | some .flowSequenceEnd =>
      drop
      return []
    | some .key =>
      drop
      let key ← readNode fuel false false
      let value ← readFlowValue fuel
      return map (← addEntry? key value []) :: (← readFlowItems fuel false)
    | _ =>
      let y ← readNode fuel false false
      return y :: (← readFlowItems fuel false)

/-- The entries of a flow mapping and its end. -/
def readFlowPairs : Nat → Bool → List (Yaml × Yaml) → Compose (List (Yaml × Yaml))
  | 0, _, _ => failure
  | fuel + 1, first, entries => do
    match ← peek, first with
    | some .flowMappingEnd, _ | _, true => pure ()
    | some .flowEntry, false => drop
    | _, false => failure
    match ← peek with
    | some .flowMappingEnd =>
      drop
      return entries
    | some .key =>
      drop
      let next ← peek
      let key ← match next with
        | some .value => pure null
        | _ => if endsItem next then pure null else readNode fuel false false
      let value ← readFlowValue fuel
      readFlowPairs fuel false (← addEntry? key value entries)
    | some .value =>
      let value ← readFlowValue fuel
      readFlowPairs fuel false (← addEntry? null value entries)
    | _ =>
      let key ← readNode fuel false false
      readFlowPairs fuel false (← addEntry? key null entries)

/-- The value of an entry of a flow mapping; it may be left out. -/
def readFlowValue : Nat → Compose Yaml
  | 0 => failure
  | fuel + 1 => do
    match ← peek with
    | some .value =>
      drop
      if endsItem (← peek) then return null else readNode fuel false false
    | _ => return null

end

/-! ## Documents -/

/-- The directives in front of a document. -/
def readDirectives (version : Bool) : Nat → Compose Unit
  | 0 => failure
  | fuel + 1 => do
    match ← peek with
    | some .version =>
      if version then failure
      drop
      readDirectives true fuel
    | some (.tagHandle handle expansion) =>
      drop
      modify fun d => { d with handles := (handle, expansion) :: d.handles }
      readDirectives version fuel
    | _ => pure ()

/-- Whether a token stands between documents. -/
def betweenDocuments : Option TokenKind → Bool
  | none | some .version | some (.tagHandle _ _) | some .documentStart | some .documentEnd => true
  | _ => false

/-- Passes over the ends of documents. -/
def dropEnds : Nat → Compose Unit
  | 0 => failure
  | fuel + 1 => do
    match ← peek with
    | some .documentEnd =>
      drop
      dropEnds fuel
    | _ => pure ()

/-- The documents of a text. `bare` says whether the next one may do without the mark of its start. -/
def readDocuments (fuel : Nat) : Nat → Bool → Compose (List Yaml)
  | 0, _ => failure
  | count + 1, bare => do
    dropEnds fuel
    let next ← peek
    if next.isNone then return []
    modify ({ · with anchors := [], handles := [] })
    let y ←
      if betweenDocuments next then do
        readDirectives false fuel
        match ← peek with
        | some .documentStart =>
          drop
          if betweenDocuments (← peek) then pure null else readNode fuel true false
        | _ => failure
      else if bare then readNode fuel true false
      else failure
    let ended ← match ← peek with
      | some .documentEnd =>
        drop
        pure true
      | some .version | some (.tagHandle _ _) => failure
      | _ => pure false
    return y :: (← readDocuments fuel count ended)

/-- The documents of a YAML text. -/
def parse? (source : String) : Option (List Yaml) := do
  let ts ← tokens? source
  let fuel := 4 * ts.length + 4
  let (ys, _) ← (readDocuments fuel fuel true).run ⟨ts, [], [], 0, []⟩
  return ys

end Yaml

end Stepwise
