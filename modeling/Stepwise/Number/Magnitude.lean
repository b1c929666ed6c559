import Stepwise.Number.Word

/-!
# The exact value of a double

The absolute value of a finite double is `coeff * 2 ^ exp` for integers `coeff < 2 ^ 53` and `exp ≥ -1074`. Everything
that has to be exact (digits, integers, remainders) is computed from this pair.
-/

namespace Stepwise

/-- The number `coeff * 2 ^ exp`. -/
structure Magnitude where
  coeff : Nat
  exp : Int
deriving DecidableEq, Inhabited

namespace Magnitude

/-- The leading bit of a normal double, which its fraction field leaves out. -/
def leadingBit : Nat := 0x10000000000000

/-- The absolute value of a finite double. -/
def ofFloat (x : Float) : Magnitude :=
  let bits := x.toBits.toNat
  let fraction : Nat := bits % leadingBit
  let field : Nat := bits / leadingBit % 2048
  if field = 0 then ⟨fraction, -1074⟩ else ⟨leadingBit + fraction, (field : Int) - 1075⟩

/-- The number as a natural number, if it is one. -/
def toNat? (m : Magnitude) : Option Nat :=
  if 0 ≤ m.exp then some (m.coeff <<< m.exp.toNat)
  else
    let unit := 1 <<< (-m.exp).toNat
    if m.coeff % unit = 0 then some (m.coeff / unit) else none

/-- The double of a number that one represents exactly, with the given sign. -/
def toFloat (negative : Bool) (m : Magnitude) : Float :=
  let sign := if negative then signedBound else 0
  if m.coeff = 0 then Float.ofBits (.ofNat sign)
  else
    let top := (m.coeff.log2 : Int) + m.exp
    if top < -1022 then Float.ofBits (.ofNat (sign + m.coeff <<< (m.exp + 1074).toNat))
    else
      let length := m.coeff.log2
      let fraction := if length ≤ 52 then m.coeff <<< (52 - length) else m.coeff >>> (length - 52)
      Float.ofBits (.ofNat (sign + (top + 1022).toNat * leadingBit + fraction))

/-- The remainder of the division of `m` by `n`; it is exact. -/
def mod (m n : Magnitude) : Magnitude :=
  let exp := min m.exp n.exp
  ⟨(m.coeff <<< (m.exp - exp).toNat) % (n.coeff <<< (n.exp - exp).toNat), exp⟩

end Magnitude

/-- Whether the sign bit of a double is set. -/
def signBit (x : Float) : Bool := signedBound ≤ x.toBits.toNat

/-- Not a number. -/
def nan : Float := 0.0 / 0.0

/-- Positive infinity. -/
def infinity : Float := 1.0 / 0.0

/-- The remainder of a division whose quotient is rounded toward zero; it takes the sign of the dividend. -/
def remainder (x y : Float) : Float :=
  if x.isNaN || y.isNaN || x.isInf || y == 0.0 then nan
  else if y.isInf then x
  else ((Magnitude.ofFloat x).mod (Magnitude.ofFloat y)).toFloat (signBit x)

end Stepwise
