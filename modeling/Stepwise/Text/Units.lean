/-!
# UTF-16 units

Scripts measure, index and compare texts by UTF-16 units: a character from U+10000 on counts as two.
-/

namespace Stepwise.Text

/-- The units of a character. -/
def charUnits (c : Char) : List Nat :=
  if c.toNat < 0x10000 then [c.toNat]
  else [0xD800 + (c.toNat - 0x10000) / 0x400, 0xDC00 + (c.toNat - 0x10000) % 0x400]

/-- The units of a text. -/
def units (s : String) : List Nat := s.toList.flatMap charUnits

/-- The text of a single unit; half of a pair is shown as the replacement character. -/
def unitText (u : Nat) : String :=
  String.singleton (if 0xD800 ≤ u ∧ u < 0xE000 then '�' else Char.ofNat u)

/-- The order of texts by their units. -/
def compareUnits (a b : String) : Ordering := compare (units a) (units b)

end Stepwise.Text
