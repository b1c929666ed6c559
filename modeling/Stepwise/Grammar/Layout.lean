/-!
# Layout

Whitespace and comments, which may stand between any two pieces of a phrase. A line comment ends before the line feed,
which is whitespace again; a block comment that is never closed is no comment.
-/

namespace Stepwise.Layout

def isBlank (c : Char) : Bool := c = ' ' || c = '\t' || c = '\r' || c = '\n'

/-- Whether `*/` stands somewhere in a text. -/
def closes : List Char → Bool
  | '*' :: '/' :: _ => true
  | _ :: cs => closes cs
  | [] => false

/-- Where in the layout a character stands. -/
inductive Place where
  | outside
  | inLine
  | inBlock

/-- Divides a text into the layout at its start and the rest. -/
def split : Place → List Char → List Char × List Char
  | .outside, '/' :: '/' :: cs => let (taken, rest) := split .inLine cs; ('/' :: '/' :: taken, rest)
  | .outside, '/' :: '*' :: cs =>
    if closes cs then let (taken, rest) := split .inBlock cs; ('/' :: '*' :: taken, rest)
    else ([], '/' :: '*' :: cs)
  | .outside, c :: cs =>
    if isBlank c then let (taken, rest) := split .outside cs; (c :: taken, rest)
    else ([], c :: cs)
  | .inLine, c :: cs =>
    let (taken, rest) := split (if c = '\n' then .outside else .inLine) cs
    (c :: taken, rest)
  | .inBlock, '*' :: '/' :: cs => let (taken, rest) := split .outside cs; ('*' :: '/' :: taken, rest)
  | .inBlock, c :: cs => let (taken, rest) := split .inBlock cs; (c :: taken, rest)
  | _, [] => ([], [])

end Stepwise.Layout
