import Stepwise.NameMap
import Stepwise.Number.Decimal

/-!
# JSON values

Integers and doubles are kept apart: a number without fraction and exponent is an integer while it fits in 64 bits.
The members of an object are kept in order.
-/

namespace Stepwise

inductive Json where
  | null
  | bool (b : Bool)
  | int (n : Int)
  | float (x : Float)
  | str (s : String)
  | arr (items : List Json)
  | obj (members : List (String × Json))

namespace Json

instance : Inhabited Json := ⟨null⟩

/-- A natural number. -/
def nat (n : Nat) : Json := int n

/-- The value, or null. -/
def ofOption {α : Type} (f : α → Json) : Option α → Json
  | none => null
  | some a => f a

/-- The member of a name; of equal names the last one counts. -/
def get? (name : String) : Json → Option Json
  | obj members => (members.reverse.find? (·.1 == name)).map (·.2)
  | _ => none

def str? : Json → Option String
  | str s => some s
  | _ => none

def bool? : Json → Option Bool
  | bool b => some b
  | _ => none

def arr? : Json → Option (List Json)
  | arr items => some items
  | _ => none

def nat? : Json → Option Nat
  | int (.ofNat n) => some n
  | _ => none

/-- The double nearest to a number. -/
def float? : Json → Option Float
  | int (.ofNat n) => some (Decimal.toFloat ⟨n, 0⟩)
  | int (.negSucc n) => some (-Decimal.toFloat ⟨n + 1, 0⟩)
  | float x => some x
  | _ => none

/-! ## Canonical form -/

mutual

/-- The same value with the members of every object sorted by name; of equal names the last one is kept. -/
def sorted : Json → Json
  | arr items => arr (sortedItems items)
  | obj members => obj (sortedMembers members [])
  | j => j

def sortedItems : List Json → List Json
  | [] => []
  | j :: js => j.sorted :: sortedItems js

def sortedMembers : List (String × Json) → List (String × Json) → List (String × Json)
  | [], acc => acc
  | (n, j) :: rest, acc => sortedMembers rest (insertEntry n j.sorted acc)

end

end Json

end Stepwise
