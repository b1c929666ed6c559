/-!
# Classes of characters

A class is given by the code points where membership changes, in increasing order: the first one opens the first run of
members, the second one closes it, and so on.
-/

namespace Stepwise.Text

/-- Whether a code point belongs to the class that `changes` describes. -/
def inClass (changes : Array Nat) (c : Nat) : Bool :=
  changes.foldl (fun inside change => if change ≤ c then ! inside else inside) false

end Stepwise.Text
