import Stepwise.Text.CaseTable

/-!
# Case mapping

Upper and lower case of whole texts. A character may map to several. A capital sigma that ends a word becomes a final
sigma: a cased character stands before it and none after it, where characters that case rules pass over do not count.
-/

namespace Stepwise.Text

/-- The characters that one character maps to. -/
def mapCase (runs : Array CaseRun) (special : List (Nat × List Nat)) (c : Char) : List Char :=
  match special.lookup c.toNat with
  | some cs => cs.map Char.ofNat
  | none =>
    match runs.findSome? (·.image? c.toNat) with
    | some n => [Char.ofNat n]
    | none => [c]

def upperChar (c : Char) : List Char :=
  if c.toNat < 0x80 then [c.toUpper] else mapCase upperRuns upperSpecial c

def lowerChar (c : Char) : List Char :=
  if c.toNat < 0x80 then [c.toLower] else mapCase lowerRuns lowerSpecial c

def toUpper (s : String) : String := String.ofList (s.toList.flatMap upperChar)

/-- Whether the first character that case rules do not pass over is cased. -/
def leadsCased (cs : List Char) : Bool :=
  match cs.dropWhile fun c => inClass caseIgnorableChanges c.toNat with
  | [] => false
  | c :: _ => inClass casedChanges c.toNat

/-- The lower case of a text whose characters `before`, nearest first, come before it. -/
def lowerFrom (before : List Char) : List Char → List Char
  | [] => []
  | c :: cs =>
    let lower := if c = 'Σ' ∧ leadsCased before ∧ ! leadsCased cs then ['ς'] else lowerChar c
    lower ++ lowerFrom (c :: before) cs

def toLower (s : String) : String := String.ofList (lowerFrom [] s.toList)

end Stepwise.Text
