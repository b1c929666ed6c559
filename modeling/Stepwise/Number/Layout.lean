import Stepwise.Number.Shortest

/-!
# Numbers as text

Two formats. Scripts see numbers as `numberText` writes them: whole numbers below `10 ^ 21` with all their digits, other
numbers with the fewest digits that read back, and an exponent from `10 ^ 21` on and below `10 ^ -6`. JSON texts carry
doubles as `Json` numbers with a fraction or an exponent, so that they are told apart from integers.
-/

namespace Stepwise

namespace Digits

/-- `count` zeros. -/
def zeros (count : Int) : List Char := List.replicate count.toNat '0'

/-- Digits, point and digits; a whole number has no point. -/
def positional (d : Digits) : List Char :=
  let n : Int := d.digits.length
  if d.point ≤ 0 then '0' :: '.' :: zeros (-d.point) ++ d.digits
  else if n ≤ d.point then d.digits ++ zeros (d.point - n)
  else d.digits.take d.point.toNat ++ '.' :: d.digits.drop d.point.toNat

/-- One digit before the point, and the power of ten with its sign after an `e`. -/
def scientific (d : Digits) : List Char :=
  let coefficient := match d.digits with
    | [] => []
    | [c] => [c]
    | c :: cs => c :: '.' :: cs
  let power := d.point - 1
  let sign := if power < 0 then '-' else '+'
  coefficient ++ 'e' :: sign :: Nat.toDigits 10 power.natAbs

end Digits

/-- The text of a number in scripts, logs and explanations. -/
def numberText (x : Float) : String :=
  if x.isNaN then "NaN"
  else if x.isInf then if 0.0 < x then "Infinity" else "-Infinity"
  else if x == 0.0 then "0"
  else
    let m := Magnitude.ofFloat x
    let body :=
      if 1e21 ≤ x.abs || x.abs < 1e-6 then (Shortest.digits .up m).scientific
      else match m.toNat? with
        | some n => Nat.toDigits 10 n
        | none => (Shortest.digits .up m).positional
    String.ofList (if signBit x then '-' :: body else body)

/-- The text of a finite double in JSON: positional from `10 ^ -5` to below `10 ^ 16`, always with a point or an
exponent. -/
def jsonFloatText (x : Float) : List Char :=
  let body :=
    if x == 0.0 then ['0', '.', '0']
    else
      let d := Shortest.digits .even (Magnitude.ofFloat x)
      if d.digits.length ≤ d.point ∧ d.point ≤ 16 then d.positional ++ ['.', '0']
      else if -5 < d.point ∧ d.point ≤ 16 then d.positional
      else d.scientific
  if signBit x then '-' :: body else body

end Stepwise
