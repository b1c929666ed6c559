/-!
# Words of 64 bits

Integers are unbounded here; these are the bounds where a format or a setting stops at one machine word.
-/

namespace Stepwise

/-- The number of values of a word. -/
def wordSize : Nat := 0x10000000000000000

/-- The number of values of a word that are negative when it has a sign. -/
def signedBound : Nat := 0x8000000000000000

/-- The integers that a word with sign holds. -/
def FitsSigned (n : Int) : Prop := -(signedBound : Int) ≤ n ∧ n < signedBound

instance (n : Int) : Decidable (FitsSigned n) := inferInstanceAs (Decidable (_ ∧ _))

end Stepwise
