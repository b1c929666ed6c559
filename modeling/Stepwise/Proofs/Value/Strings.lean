import Mathlib
import Stepwise.Value.Operators

/-!
# The order of strings

Strings are compared by their UTF-16 units, while strict equality compares their characters. The units of a character tell
it apart from all others whatever follows, so the two agree. Along the characters the order is that of code points with
one exception (`Text.Before`): a character outside the basic plane starts with a surrogate and so comes before the
characters from U+E000 to U+FFFF.

**`BinaryOp.strings_ordered`**: on strings the relational operators are a strict total order that agrees with strict
equality, and this order is the lexicographic one, by units as well as by characters.
-/

namespace Stepwise

namespace Text

/-! ## Characters -/

/-- One character is outside the basic plane and the other one from U+E000 on inside it. -/
def Inverted (x y : Char) : Prop :=
  (0x10000 ≤ x.toNat ∧ 0xE000 ≤ y.toNat ∧ y.toNat < 0x10000) ∨ (0x10000 ≤ y.toNat ∧ 0xE000 ≤ x.toNat ∧ x.toNat < 0x10000)

instance (x y : Char) : Decidable (Inverted x y) := inferInstanceAs (Decidable (_ ∨ _))

/-- Which of two characters has the smaller units: the one with the smaller code point, unless they are inverted. -/
def Before (x y : Char) : Prop := if Inverted x y then y < x else x < y

/-- The place of a character in the order of units: the end of the basic plane comes last. -/
def unitRank (x : Char) : Nat := if 0xE000 ≤ x.toNat ∧ x.toNat < 0x10000 then x.toNat + 0x110000 else x.toNat

/-- No character is a surrogate. -/
theorem toNat_bounds (x : Char) : (x.toNat < 0xD800 ∨ 0xE000 ≤ x.toNat) ∧ x.toNat < 0x110000 := by
  have h := x.valid
  change x.toNat < 0xD800 ∨ (0xDFFF < x.toNat ∧ x.toNat < 0x110000) at h
  omega

theorem lt_iff_toNat {x y : Char} : x < y ↔ x.toNat < y.toNat := Iff.rfl

theorem unitRank_lt_iff {x y : Char} : unitRank x < unitRank y ↔ Before x y := by
  have hx := toNat_bounds x
  have hy := toNat_bounds y
  unfold Before unitRank Inverted
  simp only [lt_iff_toNat]
  split_ifs <;> omega

theorem unitRank_inj {x y : Char} (h : unitRank x = unitRank y) : x = y := by
  have hx := toNat_bounds x
  have hy := toNat_bounds y
  apply Char.toNat_inj.1
  unfold unitRank at h
  split_ifs at h <;> omega

/-! ## Units -/

theorem compare_congr {m n k l : Nat} (hlt : m < n ↔ k < l) (hgt : n < m ↔ l < k) : compare m n = compare k l := by
  simp only [Nat.compare_eq_ite_lt, hlt, hgt]

/-- The two units of a surrogate pair are compared like the code point they stand for. -/
theorem compare_pair (m n : Nat) :
    (compare (0xD800 + m / 0x400) (0xD800 + n / 0x400)).then (compare (0xDC00 + m % 0x400) (0xDC00 + n % 0x400)) =
      compare m n := by
  rcases Nat.lt_trichotomy (m / 0x400) (n / 0x400) with h | h | h
  · rw [Nat.compare_eq_lt.2 (by omega), Nat.compare_eq_lt.2 (by omega : m < n)]
    rfl
  · rw [h, Nat.compare_eq_eq.2 rfl, Ordering.eq_then]
    exact compare_congr (by omega) (by omega)
  · rw [Nat.compare_eq_gt.2 (by omega), Nat.compare_eq_gt.2 (by omega : n < m)]
    rfl

/-- The units of two characters decide unless the characters are equal. -/
theorem compare_charUnits (x y : Char) (us vs : List Nat) :
    compare (charUnits x ++ us) (charUnits y ++ vs) = (compare (unitRank x) (unitRank y)).then (compare us vs) := by
  have hx := toNat_bounds x
  have hy := toNat_bounds y
  have hcons (m n : Nat) (us vs : List Nat) : compare (m :: us) (n :: vs) = (compare m n).then (compare us vs) := by
    simp only [List.compare_eq_compareLex, List.compareLex_cons_cons]
  have hdecided {m n : Nat} (hne : m ≠ n) (o p : Ordering) : (compare m n).then o = (compare m n).then p := by
    rcases Nat.lt_or_gt_of_ne hne with h | h
    · rw [Nat.compare_eq_lt.2 h, Ordering.lt_then, Ordering.lt_then]
    · rw [Nat.compare_eq_gt.2 h, Ordering.gt_then, Ordering.gt_then]
  have hthen {m n k l : Nat} (hlt : m < n ↔ k < l) (hgt : n < m ↔ l < k) (o : Ordering) :
      (compare m n).then o = (compare k l).then o := by
    rw [compare_congr hlt hgt]
  unfold charUnits unitRank
  by_cases hxb : x.toNat < 0x10000 <;> by_cases hyb : y.toNat < 0x10000
  · rw [if_pos hxb, if_pos hyb, List.singleton_append, List.singleton_append, hcons]
    apply hthen <;> split_ifs <;> omega
  · -- a surrogate lies between the two parts of the basic plane, so it is never equal to `x`
    rw [if_pos hxb, if_neg hyb, List.singleton_append, List.cons_append, hcons, hdecided (by omega) _ (compare us vs)]
    apply hthen <;> split_ifs <;> omega
  · rw [if_neg hxb, if_pos hyb, List.singleton_append, List.cons_append, hcons, hdecided (by omega) _ (compare us vs)]
    apply hthen <;> split_ifs <;> omega
  · rw [if_neg hxb, if_neg hyb]
    simp only [List.cons_append, List.nil_append]
    rw [hcons, hcons, ← Ordering.then_assoc, compare_pair]
    apply hthen <;> split_ifs <;> omega

theorem charUnits_ne_nil (x : Char) : charUnits x ≠ [] := by
  unfold charUnits
  split_ifs <;> simp

/-- Texts are compared character by character. -/
theorem compareUnits_eq (a b : String) :
    compareUnits a b = List.compareLex (fun x y => compare (unitRank x) (unitRank y)) a.toList b.toList := by
  unfold compareUnits units
  generalize a.toList = xs
  generalize b.toList = ys
  induction xs generalizing ys with
  | nil =>
    cases ys with
    | nil => rfl
    | cons y ys =>
      obtain ⟨u, us, hu⟩ := List.exists_cons_of_ne_nil (charUnits_ne_nil y)
      rw [List.flatMap_cons, hu]
      rfl
  | cons x xs ih =>
    cases ys with
    | nil =>
      obtain ⟨u, us, hu⟩ := List.exists_cons_of_ne_nil (charUnits_ne_nil x)
      rw [List.flatMap_cons, hu]
      rfl
    | cons y ys => rw [List.flatMap_cons, List.flatMap_cons, compare_charUnits, ih, List.compareLex_cons_cons]

/-! ## The order of texts -/

/-- A comparison of lists by their first difference is the lexicographic order. -/
theorem compareLex_eq_lt_iff {α : Type} {cmp : α → α → Ordering} (heq : ∀ x y, cmp x y = .eq ↔ x = y) (xs ys : List α) :
    List.compareLex cmp xs ys = .lt ↔ List.Lex (fun x y => cmp x y = .lt) xs ys := by
  induction xs generalizing ys with
  | nil => cases ys <;> simp [List.compareLex]
  | cons x xs ih =>
    cases ys with
    | nil => simp [List.compareLex]
    | cons y ys =>
      rw [List.compareLex_cons_cons, Ordering.then_eq_lt, heq, ih, List.cons_lex_cons_iff]

theorem unitRank_compare_eq_iff (x y : Char) : compare (unitRank x) (unitRank y) = .eq ↔ x = y :=
  Nat.compare_eq_eq.trans ⟨unitRank_inj, congrArg unitRank⟩

instance : Std.LawfulEqCmp fun x y => compare (unitRank x) (unitRank y) where
  compare_self := (unitRank_compare_eq_iff _ _).2 rfl
  eq_of_compare h := (unitRank_compare_eq_iff _ _).1 h

theorem compareUnits_eq_eq_iff {a b : String} : compareUnits a b = .eq ↔ a = b := by
  rw [compareUnits_eq, Std.LawfulEqCmp.compare_eq_iff_eq, String.toList_inj]

theorem compareUnits_swap (a b : String) : (compareUnits a b).swap = compareUnits b a := Std.OrientedOrd.eq_swap.symm

theorem compareUnits_trans {a b c : String} (hab : compareUnits a b = .lt) (hbc : compareUnits b c = .lt) :
    compareUnits a c = .lt := by
  change compare (units a) (units b) = .lt at hab
  change compare (units b) (units c) = .lt at hbc
  show compare (units a) (units c) = .lt
  exact Std.TransCmp.lt_trans hab hbc

theorem compareUnits_lt_iff_units {a b : String} : compareUnits a b = .lt ↔ List.Lex (· < ·) (units a) (units b) := by
  unfold compareUnits
  rw [List.compare_eq_compareLex, compareLex_eq_lt_iff fun _ _ => Nat.compare_eq_eq]
  simp only [Nat.compare_eq_lt]

theorem compareUnits_lt_iff_chars {a b : String} : compareUnits a b = .lt ↔ List.Lex Before a.toList b.toList := by
  rw [compareUnits_eq, compareLex_eq_lt_iff unitRank_compare_eq_iff]
  simp only [Nat.compare_eq_lt, unitRank_lt_iff]

end Text

/-! ## Operators on strings -/

namespace BinaryOp

/-- The operator gives true for two strings. -/
def Holds (op : BinaryOp) (a b : String) : Prop := op.apply (.str a) (.str b) = .bool true

section

variable {a b : String}

theorem holds_strictEq : strictEq.Holds a b ↔ Text.compareUnits a b = .eq := by
  rw [Text.compareUnits_eq_eq_iff, Holds, apply, Value.strictlyEquals]
  simp

/-- A relational operator tests how the units of the two strings compare. -/
theorem holds_compare {op : BinaryOp} {test : Ordering → Bool} (h : ∀ v w, op.apply v w = .bool (v.comparesAs test w)) :
    op.Holds a b ↔ test (Text.compareUnits a b) = true := by
  rw [Holds, h, Value.comparesAs, Value.compare?, Option.any_some, Value.bool.injEq]

theorem holds_lt : lt.Holds a b ↔ Text.compareUnits a b = .lt := by
  rw [holds_compare fun _ _ => rfl, Ordering.isLT_iff_eq_lt]

theorem holds_gt : gt.Holds a b ↔ Text.compareUnits a b = .gt := by
  rw [holds_compare fun _ _ => rfl, Ordering.isGT_iff_eq_gt]

theorem holds_lte : lte.Holds a b ↔ Text.compareUnits a b = .lt ∨ Text.compareUnits a b = .eq := by
  rw [holds_compare fun _ _ => rfl, Ordering.isLE_iff_eq_lt_or_eq_eq]

theorem holds_gte : gte.Holds a b ↔ Text.compareUnits a b = .gt ∨ Text.compareUnits a b = .eq := by
  rw [holds_compare fun _ _ => rfl, Ordering.isGE_iff_eq_gt_or_eq_eq]

/-- Which of three operators holds, by how the units of the two strings compare. -/
def ofOrdering : Ordering → BinaryOp
  | .lt => lt
  | .eq => strictEq
  | .gt => gt

theorem holds_iff_ofOrdering {op : BinaryOp} (hop : op ∈ [lt, strictEq, gt]) :
    op.Holds a b ↔ op = ofOrdering (Text.compareUnits a b) := by
  simp only [List.mem_cons, List.not_mem_nil, or_false] at hop
  rcases hop with rfl | rfl | rfl
  · rw [holds_lt]
    cases Text.compareUnits a b <;> simp [ofOrdering]
  · rw [holds_strictEq]
    cases Text.compareUnits a b <;> simp [ofOrdering]
  · rw [holds_gt]
    cases Text.compareUnits a b <;> simp [ofOrdering]

theorem existsUnique_holds (a b : String) : ∃! op, op ∈ [lt, strictEq, gt] ∧ op.Holds a b := by
  have hmem : ofOrdering (Text.compareUnits a b) ∈ [lt, strictEq, gt] := by
    cases Text.compareUnits a b <;> decide
  refine ⟨_, ⟨hmem, (holds_iff_ofOrdering hmem).2 rfl⟩, ?_⟩
  rintro op ⟨hop, h⟩
  exact (holds_iff_ofOrdering hop).1 h

theorem holds_gt_iff_lt : gt.Holds b a ↔ lt.Holds a b := by
  rw [holds_gt, holds_lt, ← Text.compareUnits_swap a b, Ordering.swap_eq_gt]

end

/-- **The order of strings**: exactly one of `a < b`, `a === b` and `a > b` holds, `<` is transitive and the converse of
`>`, and `<=` and `>=` add equality to them. One string is below another exactly if its UTF-16 units are, that is, if at
the first difference its character has the smaller code point, or the larger one and the two are inverted. -/
theorem strings_ordered (a b c : String) :
    (∃! op, op ∈ [lt, strictEq, gt] ∧ op.Holds a b) ∧
      (lt.Holds a b → lt.Holds b c → lt.Holds a c) ∧
      (lt.Holds a b ↔ gt.Holds b a) ∧
      (lte.Holds a b ↔ lt.Holds a b ∨ strictEq.Holds a b) ∧
      (gte.Holds a b ↔ gt.Holds a b ∨ strictEq.Holds a b) ∧
      (lt.Holds a b ↔ List.Lex (· < ·) (Text.units a) (Text.units b)) ∧
      (lt.Holds a b ↔ List.Lex Text.Before a.toList b.toList) := by
  refine ⟨existsUnique_holds a b, fun hab hbc => ?_, holds_gt_iff_lt.symm, ?_, ?_, ?_, ?_⟩
  · exact holds_lt.2 (Text.compareUnits_trans (holds_lt.1 hab) (holds_lt.1 hbc))
  · rw [holds_lte, holds_lt, holds_strictEq]
  · rw [holds_gte, holds_gt, holds_strictEq]
  · rw [holds_lt, Text.compareUnits_lt_iff_units]
  · rw [holds_lt, Text.compareUnits_lt_iff_chars]

/-- A character outside the basic plane is below one at the end of it, against the order of code points. -/
example : Text.compareUnits "😀" "～" = .lt ∧ "～" < "😀" := by decide

end BinaryOp

end Stepwise
