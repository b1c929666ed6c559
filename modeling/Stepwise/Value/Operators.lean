import Stepwise.Text.Units
import Stepwise.Value.Convert

/-!
# Operators

Equality, comparison and arithmetic on values of any kind.
-/

namespace Stepwise

namespace Value

/-! ## Equality -/

/-- Equality without conversion. Lists are results of the page, each one an object of its own. -/
def strictlyEquals : Value → Value → Bool
  | undefined, undefined => true
  | null, null => true
  | bool a, bool b => a == b
  | num x, num y => x == y
  | str s, str t => s == t
  | element e, element d => e.node == d.node
  | host o, host p => o == p
  | func f, func g => f.same g
  | builtin f r, builtin g q => f == g && optionSame r q
  | _, _ => false

/-- A truth value as a number; other values as they are. -/
def unBool : Value → Value
  | bool b => num (if b then 1.0 else 0.0)
  | v => v

/-- Equality after conversion. Truth values count as numbers; a list meets a number or a string by its text, and a
string meets a number by its number. -/
def looselyEquals (v w : Value) : Bool :=
  match v.unBool, w.unBool with
  | null, undefined | undefined, null => true
  | num x, str t => x == numberOfString t
  | str s, num y => numberOfString s == y
  | num x, list ws => x == numberOfString (list ws).text
  | list vs, num y => numberOfString (list vs).text == y
  | str s, list ws => s == (list ws).text
  | list vs, str t => (list vs).text == t
  | v, w => v.strictlyEquals w

/-! ## Comparison -/

/-- The order of two numbers, if both are numbers. -/
def compareFloats? (x y : Float) : Option Ordering :=
  if x < y then some .lt else if x == y then some .eq else if y < x then some .gt else none

/-- The order of two values: strings by their code units, others by their numbers. -/
def compare? : Value → Value → Option Ordering
  | str s, str t => some (Text.compareUnits s t)
  | v, w => compareFloats? v.toNumber w.toNumber

/-- Whether two values have an order that passes a test. -/
def comparesAs (test : Ordering → Bool) (v w : Value) : Bool := (v.compare? w).any test

/-! ## Binary operators -/

/-- Whether a sum with the value is a concatenation. -/
def textual : Value → Bool
  | undefined | null | bool _ | num _ => false
  | _ => true

def add (v w : Value) : Value :=
  if v.textual || w.textual then str (v.text ++ w.text) else num (v.toNumber + w.toNumber)

end Value

open Value

/-- The result of a binary operator. -/
def BinaryOp.apply (op : BinaryOp) (v w : Value) : Value :=
  match op with
  | .add => v.add w
  | .sub => num (v.toNumber - w.toNumber)
  | .mul => num (v.toNumber * w.toNumber)
  | .div => num (v.toNumber / w.toNumber)
  | .rem => num (remainder v.toNumber w.toNumber)
  | .eq => bool (v.looselyEquals w)
  | .ne => bool (! v.looselyEquals w)
  | .strictEq => bool (v.strictlyEquals w)
  | .strictNe => bool (! v.strictlyEquals w)
  | .lt => bool (v.comparesAs Ordering.isLT w)
  | .gt => bool (v.comparesAs Ordering.isGT w)
  | .lte => bool (v.comparesAs Ordering.isLE w)
  | .gte => bool (v.comparesAs Ordering.isGE w)

end Stepwise
