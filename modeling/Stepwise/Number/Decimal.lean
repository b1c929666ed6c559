import Stepwise.Number.Magnitude

/-!
# Reading numerals

A decimal numeral is digits with an optional point and an optional power of ten; it is read as the double nearest to its
exact value. A radix numeral is digits of one radix; it is read if its value fits in 64 bits.
-/

namespace Stepwise

/-- The number `coefficient * 10 ^ exponent`. -/
structure Decimal where
  coefficient : Nat
  exponent : Int
deriving DecidableEq, Inhabited

/-- The value of a digit; letters of either case stand for ten and more. -/
def digitValue (c : Char) : Nat :=
  if c.isDigit then c.toNat - '0'.toNat
  else if c.isLower then c.toNat - 'a'.toNat + 10
  else if c.isUpper then c.toNat - 'A'.toNat + 10
  else 36

/-- The number that a list of digits writes in a radix. -/
def natOfDigits (radix : Nat) (ds : List Char) : Nat := ds.foldl (fun n d => radix * n + digitValue d) 0

namespace Decimal

/-- The double nearest to a decimal. Far outside the range of doubles no power of ten is computed. -/
def toFloat (d : Decimal) : Float :=
  if d.coefficient = 0 then 0.0
  else if 400 < d.exponent then infinity
  else if d.exponent + d.coefficient.log2 < -400 then 0.0
  else Float.ofScientific d.coefficient (d.exponent < 0) d.exponent.natAbs

/-- Reads digits after an optional sign; the text has to end there. -/
def readInt? (cs : List Char) : Option Int :=
  let (negative, ds) := match cs with
    | '-' :: ds => (true, ds)
    | '+' :: ds => (false, ds)
    | ds => (false, ds)
  if ds = [] ∨ ! ds.all Char.isDigit then none
  else
    let n : Int := natOfDigits 10 ds
    some (if negative then -n else n)

/-- Reads a numeral without sign that takes up the whole text. At least one digit stands before or after the point. -/
def read? (cs : List Char) : Option Decimal :=
  let whole := cs.takeWhile Char.isDigit
  let (part, rest) := match cs.dropWhile Char.isDigit with
    | '.' :: r => (r.takeWhile Char.isDigit, r.dropWhile Char.isDigit)
    | r => ([], r)
  if whole = [] ∧ part = [] then none
  else
    let value (e : Int) : Decimal := ⟨natOfDigits 10 (whole ++ part), e - part.length⟩
    match rest with
    | [] => some (value 0)
    | e :: power => if e = 'e' ∨ e = 'E' then (readInt? power).map value else none

end Decimal

/-- Reads a decimal numeral with an optional sign. -/
def readDecimal? : List Char → Option Float
  | '-' :: cs => (Decimal.read? cs).map fun d => -d.toFloat
  | '+' :: cs => (Decimal.read? cs).map Decimal.toFloat
  | cs => (Decimal.read? cs).map Decimal.toFloat

/-- Reads digits of a radix, with an optional plus sign, as a number below `2 ^ 64`. -/
def readRadix? (radix : Nat) (cs : List Char) : Option Nat :=
  let ds := match cs with
    | '+' :: ds => ds
    | ds => ds
  if ds = [] ∨ ds.any (radix ≤ digitValue ·) then none
  else
    let n := natOfDigits radix ds
    if n < wordSize then some n else none

end Stepwise
