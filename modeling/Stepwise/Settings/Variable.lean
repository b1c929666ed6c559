import Stepwise.Settings.Layer

/-!
# Settings in the environment

A variable whose name starts with the mark gives one setting. Two underscores in its name stand for a dot, and its value
is read as the plainest setting that it can write.
-/

namespace Stepwise

namespace Setting

/-- What the names of environment variables start with. -/
def variableMark : String := "stepjs__"

/-- The words for doubles without digits. -/
def wordFloat? (cs : List Char) : Option Float :=
  let (negative, word) := match cs with
    | '-' :: cs => (true, cs)
    | '+' :: cs => (false, cs)
    | cs => (false, cs)
  match String.ofList (word.map Char.toLower) with
  | "inf" | "infinity" => some (if negative then -infinity else infinity)
  | "nan" => some nan
  | _ => none

/-- The setting that a text writes: a truth value, an integer of 64 bits, a double, or the text itself. -/
def ofText (s : String) : Setting :=
  match Text.toLower s with
  | "true" => bool true
  | "false" => bool false
  | _ =>
    let number := do
      let n ← Decimal.readInt? s.toList
      if FitsSigned n then return int n else failure
    match number with
    | some n => n
    | none =>
      match (readDecimal? s.toList).or (wordFloat? s.toList) with
      | some x => float x
      | none => str s

/-- A text with a dot in the place of every two underscores. -/
def dotted : List Char → List Char
  | '_' :: '_' :: cs => '.' :: dotted cs
  | c :: cs => c :: dotted cs
  | [] => []

/-- The entry of an environment variable, if its name has the mark. -/
def ofVariable? (name value : String) : Option (String × Setting) := do
  let rest ← variableMark.toList.isPrefixOf? (Text.toLower name).toList
  return (String.ofList (dotted rest), ofText value)

end Setting

end Stepwise
