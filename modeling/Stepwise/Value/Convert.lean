import Stepwise.Number.Decimal
import Stepwise.Syntax.Render
import Stepwise.Text.Blank
import Stepwise.Text.Quoted
import Stepwise.Value.Basic

/-!
# Conversions

Every value has a truth value, a number, a text and a form for logs, in which strings are quoted.
-/

namespace Stepwise

/-! ## Numbers from text -/

/-- The radix that the first two characters of a numeral name. -/
def radixPrefix? : List Char → Option (Nat × List Char)
  | '0' :: x :: cs =>
    if x = 'x' ∨ x = 'X' then some (16, cs)
    else if x = 'o' ∨ x = 'O' then some (8, cs)
    else if x = 'b' ∨ x = 'B' then some (2, cs)
    else none
  | _ => none

/-- The number that a text writes: blanks around it do not count, no text is zero, and what is no numeral is not a
number. -/
def numberOfChars (text : List Char) : Float :=
  let cs := Text.trim text
  if cs = [] then 0.0
  else if cs = "Infinity".toList ∨ cs = "+Infinity".toList then infinity
  else if cs = "-Infinity".toList then -infinity
  else
    match radixPrefix? cs with
    | some (radix, ds) =>
      match readRadix? radix ds with
      | some n => Decimal.toFloat ⟨n, 0⟩
      | none => nan
    | none => (readDecimal? cs).getD nan

def numberOfString (s : String) : Float := numberOfChars s.toList

/-! ## Text -/

def HostObject.text : HostObject → String
  | .console => "[object console]"
  | .document => "[object HTMLDocument]"

namespace Value

mutual

/-- The text of a value, as concatenation and the console see it. -/
def text : Value → String
  | undefined => "undefined"
  | null => "null"
  | bool b => if b then "true" else "false"
  | num x => numberText x
  | str s => s
  | list items => ",".intercalate (itemTexts items)
  | func fn => String.ofList fn.header
  | builtin fn _ => "function " ++ fn.name ++ "() \x7b [native code] \x7d"
  | host object => object.text
  | element _ => "[object HTMLElement]"

/-- The texts of list items; one without a value is empty. -/
def itemTexts : List Value → List String
  | [] => []
  | undefined :: vs | null :: vs => "" :: itemTexts vs
  | v :: vs => v.text :: itemTexts vs

end

mutual

/-- The form of a value in logs and listings. -/
def shown : Value → String
  | str s => Text.quoted s
  | list items => "[" ++ ", ".intercalate (itemsShown items) ++ "]"
  | element handle => handle.text
  | v => v.text

def itemsShown : List Value → List String
  | [] => []
  | v :: vs => v.shown :: itemsShown vs

end

/-! ## Truth and number -/

def truthy : Value → Bool
  | undefined | null => false
  | bool b => b
  | num x => x != 0.0 && ! x.isNaN
  | str s => ! s.isEmpty
  | _ => true

def toNumber : Value → Float
  | undefined => nan
  | null => 0.0
  | bool b => if b then 1.0 else 0.0
  | num x => x
  | str s => numberOfString s
  | list [] => 0.0
  | list [v] => numberOfString v.text
  | _ => nan

end Value

end Stepwise
