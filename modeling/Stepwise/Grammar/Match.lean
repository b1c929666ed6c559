import Stepwise.Grammar.Layout
import Stepwise.Grammar.Rule
import Stepwise.Syntax.Span

/-!
# Matching

Runs the grammar on a text. A match gives the trees of the rules it went through and the place where it ends. Beside the
match, `Attempts` keeps the furthest place where rules failed and which they were; this is what a message about a text
outside the grammar reports. It never influences the match.
-/

namespace Stepwise

/-! ## Trees -/

/-- What the rules found: the range of each rule, the lexeme of a token, the parts of a phrase. -/
inductive Tree where
  | token (rule : Rule) (start stop : Nat) (lexeme : List Char)
  | phrase (rule : Rule) (start stop : Nat) (parts : List Tree)

namespace Tree

def rule : Tree → Rule
  | token r _ _ _ | phrase r _ _ _ => r

def start : Tree → Nat
  | token _ s _ _ | phrase _ s _ _ => s

def stop : Tree → Nat
  | token _ _ e _ | phrase _ _ e _ => e

def parts : Tree → List Tree
  | token .. => []
  | phrase _ _ _ ts => ts

/-- The span of a tree of `text`. -/
def span (text : List Char) (t : Tree) : Span := Span.ofOffsets text t.start t.stop

end Tree

/-! ## Places -/

/-- A place in a text: the byte offset, and what follows. -/
structure Cursor where
  offset : Nat
  rest : List Char

namespace Cursor

/-- The number of bytes of a text. -/
def byteLength (cs : List Char) : Nat := cs.foldl (fun n c => n + c.utf8Size) 0

/-- The place after `taken`, with `rest` behind it. -/
def after (c : Cursor) (taken rest : List Char) : Cursor := ⟨c.offset + byteLength taken, rest⟩

/-- The place after the layout at `c`. -/
def skip (c : Cursor) : Cursor :=
  let (taken, rest) := Layout.split .outside c.rest
  c.after taken rest

/-- The place after a fixed text, if it stands here. -/
def eat? (c : Cursor) (s : String) : Option Cursor := (s.toList.isPrefixOf? c.rest).map (c.after s.toList)

end Cursor

/-! ## Failed attempts -/

/-- The furthest place where rules failed, and those rules in the order of their failure. -/
structure Attempts where
  offset : Nat
  rules : List Rule

namespace Attempts

def none : Attempts := ⟨0, []⟩

/-- How many rules are recorded at a place. -/
def countAt (a : Attempts) (offset : Nat) : Nat := if a.offset = offset then a.rules.length else 0

/-- Records that `r` failed at `offset`, where `before` rules were recorded when it started. If exactly one of its parts
was recorded there since, that part says more than `r`; otherwise `r` stands for all of them. -/
def fail (a : Attempts) (r : Rule) (offset before : Nat) : Attempts :=
  if a.countAt offset = before + 1 then a
  else if a.offset = offset then ⟨offset, a.rules.take before ++ [r]⟩
  else if a.offset < offset then ⟨offset, [r]⟩
  else a

/-- The recorded rules without repetition, in the order of the grammar. -/
def expected (a : Attempts) : List Rule := (a.rules.mergeSort fun r s => compare r s ≠ .gt).eraseReps

end Attempts

/-! ## Running patterns -/

/-- Where a match ends and the trees it found, or failure; and the attempts so far. -/
abbrev Reply := Option (List Tree × Cursor) × Attempts

abbrev Matcher := Cursor → Attempts → Reply

/-- Further repetitions of `step`, each after layout, at most `fuel` of them. Layout before a failed one is not
taken. -/
def repeatMatch (step : Matcher) : Nat → Cursor → Attempts → List Tree × Cursor × Attempts
  | 0, c, a => ([], c, a)
  | fuel + 1, c, a =>
    match step c.skip a with
    | (.none, a) => ([], c, a)
    | (some (ts, c), a) =>
      let (us, c, a) := repeatMatch step fuel c a
      (ts ++ us, c, a)

/-- Matches a pattern, given how rules match. Every repetition takes at least one character, so the text bounds their
number. -/
def Pattern.run (call : Rule → Matcher) : Pattern → Matcher
  | .text s, c, a => ((c.eat? s).map fun c => ([], c), a)
  | .rule r, c, a => call r c a
  | .seq p q, c, a =>
    match p.run call c a with
    | (none, a) => (none, a)
    | (some (ts, c), a) =>
      match q.run call c.skip a with
      | (none, a) => (none, a)
      | (some (us, c), a) => (some (ts ++ us, c), a)
  | .alt p q, c, a =>
    match p.run call c a with
    | (none, a) => q.run call c a
    | (some r, a) => (some r, a)
  | .opt p, c, a =>
    match p.run call c a with
    | (none, a) => (some ([], c), a)
    | (some r, a) => (some r, a)
  | .star p, c, a =>
    match p.run call c a with
    | (none, a) => (some ([], c), a)
    | (some (ts, c), a) =>
      let (us, c, a) := repeatMatch (p.run call) (c.rest.length + 1) c a
      (some (ts ++ us, c), a)

/-- Matches a rule, with at most `fuel` rules inside each other. -/
def Rule.run : Nat → Rule → Matcher
  | 0, _, _, a => (none, a)
  | fuel + 1, r, c, a =>
    let before := a.countAt c.offset
    match r.definition with
    | .token scan =>
      match scan c.rest with
      | none => (none, a.fail r c.offset before)
      | some (lexeme, rest) =>
        let stop := c.after lexeme rest
        (some ([.token r c.offset stop.offset lexeme], stop), a)
    | .phrase p =>
      match p.run (Rule.run fuel) c a with
      | (none, a) => (none, a.fail r c.offset before)
      | (some (ts, stop), a) => (some ([.phrase r c.offset stop.offset ts], stop), a)

/-- No rule starts with itself, so the rules inside each other at one place are at most as many as there are rules. -/
def Rule.depth (text : List Char) : Nat := 80 * (text.length + 1)

/-- The trees of a whole script, or the attempts that failed furthest. -/
def Tree.ofText (text : List Char) : Except Attempts (List Tree) :=
  match Rule.program.run (Rule.depth text) ⟨0, text⟩ Attempts.none with
  | (some (ts, _), _) => .ok ts
  | (none, a) => .error a

end Stepwise
