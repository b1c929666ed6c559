/-!
# Positions and spans of source text

An offset counts UTF-8 bytes from the start of the text. A position counts lines and characters, both from `0`; only a
line feed ends a line. A span keeps both readings of its two ends.
-/

namespace Stepwise

/-! ## Positions -/

/-- A line and a column, both counted from `0`; columns count characters. -/
structure Position where
  line : Nat
  col : Nat
deriving DecidableEq, Inhabited

namespace Position

/-- The position after one more character. -/
def advance (p : Position) (c : Char) : Position :=
  if c = '\n' then ⟨p.line + 1, 0⟩ else ⟨p.line, p.col + 1⟩

/-- The position of byte `offset`, when `seen` bytes before `text` lead to `p`. -/
def scan (offset : Nat) : List Char → Nat → Position → Position
  | [], _, p => p
  | c :: cs, seen, p => if offset ≤ seen then p else scan offset cs (seen + c.utf8Size) (p.advance c)

/-- The position of a byte offset in `text`. -/
def ofOffset (text : List Char) (offset : Nat) : Position := scan offset text 0 ⟨0, 0⟩

end Position

/-! ## Spans -/

/-- A stretch of source text: byte offsets and the positions of both ends. -/
structure Span where
  start : Nat
  stop : Nat
  startLine : Nat
  startCol : Nat
  stopLine : Nat
  stopCol : Nat
deriving DecidableEq, Inhabited

namespace Span

/-- The span of a node that was not read from a text. -/
def zero : Span := ⟨0, 0, 0, 0, 0, 0⟩

/-- The span between two byte offsets of `text`. -/
def ofOffsets (text : List Char) (start stop : Nat) : Span :=
  let p := Position.ofOffset text start
  let q := Position.ofOffset text stop
  ⟨start, stop, p.line, p.col, q.line, q.col⟩

/-- The least span that covers both; on equal offsets the first one's position is kept. -/
def merge (s t : Span) : Span :=
  let p := if s.start ≤ t.start then s else t
  let q := if t.stop ≤ s.stop then s else t
  ⟨p.start, q.stop, p.startLine, p.startCol, q.stopLine, q.stopCol⟩

/-- The line number shown to people, counted from `1`. -/
def line (s : Span) : Nat := s.startLine + 1

end Span

end Stepwise
