import Stepwise.Number.Magnitude

/-!
# The shortest decimal that reads back

A positive finite double stands for every real number that rounds to it: an interval around its value whose ends belong
to it exactly if its coefficient is even. `Shortest.digits` finds the fewest decimal digits of a number in that interval
and, among numbers with so few digits, the nearest to the value. If two are equally near, the format decides.
-/

namespace Stepwise

/-- What happens when the value lies midway between two candidates. -/
inductive Tie where
  /-- The larger one is taken. -/
  | up
  /-- The one with an even last digit is taken. -/
  | even
deriving DecidableEq

/-- The number `0.d₁d₂… * 10 ^ point`, where `digits` is `d₁d₂…` as a natural number. -/
structure Digits where
  digits : List Char
  point : Int
deriving DecidableEq

namespace Shortest

/-- Numerators over a common denominator: the value, and the ends of the interval that rounds to it. -/
structure Interval where
  value : Nat
  low : Nat
  high : Nat
  closed : Bool

/-- The interval of a double in units of `2 ^ (exp - 2)`; below a power of two the doubles lie twice as close. -/
def interval (m : Magnitude) : Interval :=
  let value := 4 * m.coeff
  let gap := if m.coeff = Magnitude.leadingBit ∧ -1074 < m.exp then 1 else 2
  ⟨value, value - gap, value + 2, m.coeff % 2 = 0⟩

/-- The fraction `n * 2 ^ e / 10 ^ k` as numerator and denominator. -/
def fraction (n : Nat) (e k : Int) : Nat × Nat :=
  ((n <<< e.toNat) * Nat.pow 10 (-k).toNat, (1 <<< (-e).toNat) * Nat.pow 10 k.toNat)

/-- Whether `10 ^ k` is at most `m`. -/
def powerLe (k : Int) (m : Magnitude) : Bool :=
  let (n, d) := fraction m.coeff m.exp k
  d ≤ n

/-- The `k` with `10 ^ k ≤ m < 10 ^ (k + 1)`, for a positive `m`: an estimate, put right by one comparison. -/
def decimalExponent (m : Magnitude) : Int :=
  let guess := ((m.coeff.log2 : Int) + m.exp) * 1233 / 4096
  if powerLe (guess + 1) m then guess + 1 else if powerLe guess m then guess else guess - 1

/-- Whether `d` units of the grid lie in the interval; `scale` makes its numerators comparable with `d * den`. -/
def inside (i : Interval) (scale den d : Nat) : Bool :=
  if i.closed then i.low * scale ≤ d * den ∧ d * den ≤ i.high * scale
  else i.low * scale < d * den ∧ d * den < i.high * scale

/-- The best number of `n` digits in the interval, as a multiple of `10 ^ k`. -/
def onGrid? (tie : Tie) (m : Magnitude) (k : Int) : Option Nat :=
  let i := interval m
  let (scale, den) := fraction 1 (m.exp - 2) k
  let below := i.value * scale / den
  let above := below + 1
  match inside i scale den below, inside i scale den above with
  | false, false => none
  | true, false => some below
  | false, true => some above
  | true, true =>
    let left := 2 * (i.value * scale)
    let middle := (2 * below + 1) * den
    if left < middle then some below
    else if middle < left then some above
    else match tie with
      | .up => some above
      | .even => some (if below % 2 = 0 then below else above)

/-- The first hit on the grids of `n`, `n + 1`, ... digits, for `fuel` grids, with the grid's exponent. -/
def search (tie : Tie) (m : Magnitude) (top : Int) : Nat → Nat → Nat × Int
  | 0, n => (m.coeff, top + 1 - n)
  | fuel + 1, n =>
    let k := top + 1 - n
    match onGrid? tie m k with
    | some d => (d, k)
    | none => search tie m top fuel (n + 1)

/-- Drops the zeros at the end of a list of digits. -/
def trimZeros (ds : List Char) : List Char := (ds.reverse.dropWhile (· = '0')).reverse

/-- The shortest digits of a positive number; seventeen always suffice. -/
def digits (tie : Tie) (m : Magnitude) : Digits :=
  let (d, k) := search tie m (decimalExponent m) 17 1
  let ds := Nat.toDigits 10 d
  ⟨trimZeros ds, ds.length + k⟩

end Shortest

end Stepwise
