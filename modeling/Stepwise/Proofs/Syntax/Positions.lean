import Mathlib
import Stepwise.Proofs.Syntax.Outline

/-!
# Positions and the offsets they belong to

Every character leads to a later line or to a later column of the same line (`Position.key_lt_advance`). So positions
grow with the offsets that lie between characters (`Position.strictMonoOn_ofOffset`), and no two of these share a
position.

A span is measured in a text if its lines and columns are those that its offsets have there (`Span.Measured`); such a
span is given by its two offsets. Spans are ordered by inclusion, and `Span.merge` gives the least span around two
others (`Span.isLUB_merge`). Inclusion is a partial order only on the spans that are measured in one text: there the
merge is the join of a semilattice.

**`Span.position_and_merge_laws`** puts both together.
-/

namespace Stepwise

open Cursor (byteLength)

/-! ## Positions -/

/-- Between two boundaries of a text there is at least one character. -/
theorem IsBoundary.exists_between {text : List Char} {i j : Nat} (hi : IsBoundary text i) (hj : IsBoundary text j)
    (hlt : i < j) :
    ∃ before c more after, text = before ++ (c :: more ++ after) ∧ byteLength before = i ∧
      byteLength (before ++ c :: more) = j := by
  obtain ⟨before, rest, rfl, rfl⟩ := hi
  obtain ⟨before', after, heq, rfl⟩ := hj
  rcases List.append_eq_append_iff.1 heq with ⟨middle, rfl, rfl⟩ | ⟨middle, rfl, -⟩
  · cases middle with
    | nil => simp at hlt
    | cons c more => exact ⟨before, c, more, after, rfl, rfl, rfl⟩
  · rw [Cursor.byteLength_append] at hlt
    omega

namespace Position

/-- Positions are ordered by their lines, and those on one line by their columns. -/
def key (p : Position) : ℕ ×ₗ ℕ := toLex (p.line, p.col)

theorem key_lt_advance (p : Position) (c : Char) : p.key < (p.advance c).key := by
  rw [key, key, Prod.Lex.toLex_lt_toLex]
  unfold advance
  split
  · exact .inl (Nat.lt_succ_self _)
  · exact .inr ⟨rfl, Nat.lt_succ_self _⟩

theorem key_le_foldl_advance (text : List Char) (p : Position) : p.key ≤ (text.foldl advance p).key := by
  induction text generalizing p with
  | nil => exact le_rfl
  | cons c text ih => exact (key_lt_advance p c).le.trans (ih (p.advance c))

theorem ofOffset_byteLength (before after : List Char) :
    ofOffset (before ++ after) (byteLength before) = before.foldl advance ⟨0, 0⟩ := by
  have h := scan_append before after 0 ⟨0, 0⟩
  rwa [Nat.zero_add] at h

/-- Later boundaries have later positions. -/
theorem strictMonoOn_ofOffset (text : List Char) :
    StrictMonoOn (fun offset => (ofOffset text offset).key) {offset | IsBoundary text offset} := by
  intro i hi j hj hlt
  obtain ⟨before, c, more, after, rfl, rfl, rfl⟩ := hi.exists_between hj hlt
  have hstop : ofOffset (before ++ (c :: more ++ after)) (byteLength (before ++ c :: more)) =
      more.foldl advance ((before.foldl advance ⟨0, 0⟩).advance c) := by
    rw [← List.append_assoc, ofOffset_byteLength, List.foldl_append, List.foldl_cons]
  dsimp only
  rw [hstop, ofOffset_byteLength]
  exact (key_lt_advance _ c).trans_le (key_le_foldl_advance more _)

/-- The position of a boundary determines it. -/
theorem injOn_ofOffset (text : List Char) : Set.InjOn (ofOffset text) {offset | IsBoundary text offset} := by
  intro i hi j hj heq
  have hkey : (ofOffset text i).key = (ofOffset text j).key := by rw [heq]
  exact (strictMonoOn_ofOffset text).injOn hi hj hkey

end Position

/-! ## Spans -/

namespace Span

/-- A span is at most another one if it lies inside. -/
instance : Preorder Span where
  le s t := t.start ≤ s.start ∧ s.stop ≤ t.stop
  le_refl _ := ⟨le_rfl, le_rfl⟩
  le_trans _ _ _ h h' := ⟨h'.1.trans h.1, h.2.trans h'.2⟩

theorem le_iff {s t : Span} : s ≤ t ↔ t.start ≤ s.start ∧ s.stop ≤ t.stop := Iff.rfl

theorem start_merge (s t : Span) : (s.merge t).start = min s.start t.start := by
  unfold merge
  dsimp only
  split <;> omega

theorem stop_merge (s t : Span) : (s.merge t).stop = max s.stop t.stop := by
  unfold merge
  dsimp only
  split <;> omega

/-- The merge lies around both spans, and inside every span that does. -/
theorem isLUB_merge (s t : Span) : IsLUB {s, t} (s.merge t) := by
  constructor
  · rintro u (rfl | rfl) <;> rw [le_iff, start_merge, stop_merge] <;> omega
  · intro u hu
    have hs : s ≤ u := hu (Set.mem_insert ..)
    have ht : t ≤ u := hu (Set.mem_insert_of_mem _ rfl)
    rw [le_iff] at hs ht
    rw [le_iff, start_merge, stop_merge]
    omega

variable {text : List Char} {s t : Span}

/-- The lines and columns of the span are those of its offsets in the text. -/
def Measured (text : List Char) (s : Span) : Prop := s = ofOffsets text s.start s.stop

instance : Decidable (s.Measured text) := inferInstanceAs (Decidable (_ = _))

theorem Measured.eq_of_offsets (hs : s.Measured text) (ht : t.Measured text) (hstart : s.start = t.start)
    (hstop : s.stop = t.stop) : s = t :=
  calc s = ofOffsets text s.start s.stop := hs
    _ = ofOffsets text t.start t.stop := by rw [hstart, hstop]
    _ = t := ht.symm

/-- The start of a merge comes from one of the spans and its end from one of them, each with its position. -/
theorem Measured.merge (hs : s.Measured text) (ht : t.Measured text) : (s.merge t).Measured text := by
  unfold Measured at hs ht ⊢
  rw [hs, ht]
  unfold Span.merge ofOffsets
  dsimp only
  split <;> split <;> rfl

/-- The spans that are measured in a text. -/
abbrev Of (text : List Char) : Type := {s : Span // s.Measured text}

instance : PartialOrder (Of text) where
  le_antisymm s t h h' := Subtype.ext (s.2.eq_of_offsets t.2 (le_antisymm h'.1 h.1) (le_antisymm h.2 h'.2))

instance : SemilatticeSup (Of text) where
  sup s t := ⟨s.1.merge t.1, s.2.merge t.2⟩
  le_sup_left s t := (isLUB_merge s.1 t.1).1 (Set.mem_insert ..)
  le_sup_right s t := (isLUB_merge s.1 t.1).1 (Set.mem_insert_of_mem _ rfl)
  sup_le s t u hs ht := (isLUB_merge s.1 t.1).2 (by rintro v (rfl | rfl) <;> assumption)

theorem merge_comm (hs : s.Measured text) (ht : t.Measured text) : s.merge t = t.merge s :=
  congrArg Subtype.val (sup_comm (⟨s, hs⟩ : Of text) ⟨t, ht⟩)

-- Of two spans that start at one offset on different lines, the first one gives the line of the merge.
example : merge ⟨0, 1, 0, 0, 0, 1⟩ ⟨0, 1, 2, 0, 2, 1⟩ ≠ merge ⟨0, 1, 2, 0, 2, 1⟩ ⟨0, 1, 0, 0, 0, 1⟩ := by decide

theorem merge_assoc {u : Span} (hs : s.Measured text) (ht : t.Measured text) (hu : u.Measured text) :
    (s.merge t).merge u = s.merge (t.merge u) :=
  congrArg Subtype.val (sup_assoc (⟨s, hs⟩ : Of text) ⟨t, ht⟩ ⟨u, hu⟩)

theorem merge_self (s : Span) : s.merge s = s := by
  unfold merge
  rw [if_pos le_rfl, if_pos le_rfl]

/-- **Positions and spans of one text**: positions grow with the offsets that lie between characters, so that each
determines its offset. Merging spans that are measured in the text is commutative, associative and idempotent, and gives
the one such span that is least among the spans around both. -/
theorem position_and_merge_laws (source : String) :
    StrictMonoOn (fun offset => (Position.ofOffset source.toList offset).key)
      {offset | IsBoundary source.toList offset} ∧
    Set.InjOn (Position.ofOffset source.toList) {offset | IsBoundary source.toList offset} ∧
    ∀ s t u : Span, s.Measured source.toList → t.Measured source.toList → u.Measured source.toList →
      s.merge t = t.merge s ∧ (s.merge t).merge u = s.merge (t.merge u) ∧ s.merge s = s ∧
      (s.merge t).Measured source.toList ∧ IsLUB {s, t} (s.merge t) ∧
      ∀ v : Span, v.Measured source.toList → IsLUB {s, t} v → v = s.merge t := by
  refine ⟨Position.strictMonoOn_ofOffset _, Position.injOn_ofOffset _, ?_⟩
  intro s t u hs ht hu
  have hjoin := hs.merge ht
  have hlub := isLUB_merge s t
  refine ⟨merge_comm hs ht, merge_assoc hs ht hu, merge_self s, hjoin, hlub, ?_⟩
  intro v hv hleast
  have hle : v ≤ s.merge t := hleast.2 hlub.1
  have hge : s.merge t ≤ v := hlub.2 hleast.1
  exact hv.eq_of_offsets hjoin (le_antisymm hge.1 hle.1) (le_antisymm hle.2 hge.2)

/-- A letter of two bytes and an empty line. -/
def brokenSource : String := "aé\n\nb"

/-- Three of its spans: to the end of the first line, from there to the last line, and across the last line feed. -/
theorem position_and_merge_laws_brokenSource :
    IsBoundary brokenSource.toList 3 ∧ IsBoundary brokenSource.toList 4 ∧
    (Position.ofOffset brokenSource.toList 3).key < (Position.ofOffset brokenSource.toList 4).key ∧
    Measured brokenSource.toList ⟨0, 3, 0, 0, 0, 2⟩ ∧ Measured brokenSource.toList ⟨3, 5, 0, 2, 2, 0⟩ ∧
    Measured brokenSource.toList ⟨4, 6, 1, 0, 2, 1⟩ ∧
    merge ⟨0, 3, 0, 0, 0, 2⟩ ⟨3, 5, 0, 2, 2, 0⟩ = merge ⟨3, 5, 0, 2, 2, 0⟩ ⟨0, 3, 0, 0, 0, 2⟩ ∧
    merge (merge ⟨0, 3, 0, 0, 0, 2⟩ ⟨3, 5, 0, 2, 2, 0⟩) ⟨4, 6, 1, 0, 2, 1⟩ =
      merge ⟨0, 3, 0, 0, 0, 2⟩ (merge ⟨3, 5, 0, 2, 2, 0⟩ ⟨4, 6, 1, 0, 2, 1⟩) ∧
    IsLUB {(⟨0, 3, 0, 0, 0, 2⟩ : Span), ⟨3, 5, 0, 2, 2, 0⟩} (merge ⟨0, 3, 0, 0, 0, 2⟩ ⟨3, 5, 0, 2, 2, 0⟩) := by
  obtain ⟨hmono, -, hmerge⟩ := position_and_merge_laws brokenSource
  have hthree : IsBoundary brokenSource.toList 3 := ⟨['a', 'é'], ['\n', '\n', 'b'], by decide, by decide⟩
  have hfour : IsBoundary brokenSource.toList 4 := ⟨['a', 'é', '\n'], ['\n', 'b'], by decide, by decide⟩
  have hs : Measured brokenSource.toList ⟨0, 3, 0, 0, 0, 2⟩ := by decide
  have ht : Measured brokenSource.toList ⟨3, 5, 0, 2, 2, 0⟩ := by decide
  have hu : Measured brokenSource.toList ⟨4, 6, 1, 0, 2, 1⟩ := by decide
  obtain ⟨hcomm, hassoc, -, -, hlub, -⟩ := hmerge _ _ _ hs ht hu
  exact ⟨hthree, hfour, hmono hthree hfour (by decide), hs, ht, hu, hcomm, hassoc, hlub⟩

end Span

end Stepwise
