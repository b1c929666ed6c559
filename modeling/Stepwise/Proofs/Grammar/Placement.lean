import Stepwise.Proofs.Grammar.Derivation

/-!
# Where trees lie

The range of a tree starts and ends between two characters of the text, and the ranges of its parts lie in it one after
the other (`Tree.Placed`, `Spread`). It is empty for the whole script and the end of the text only. All trees inside a
tree that was read from a text are so (`Rule.find_placed`, `Tree.ofText_placed`). Layout may stand between the parts,
before the first one and behind the last one.
-/

namespace Stepwise

/-! ## Bytes -/

namespace Cursor

@[simp] theorem byteLength_nil : byteLength [] = 0 := rfl

theorem foldl_utf8Size (cs : List Char) (n : Nat) : cs.foldl (fun n c => n + c.utf8Size) n = n + byteLength cs := by
  induction cs generalizing n with
  | nil => rfl
  | cons c cs ih =>
    have h : byteLength (c :: cs) = cs.foldl (fun n c => n + c.utf8Size) (0 + c.utf8Size) := rfl
    rw [List.foldl_cons, ih, h, ih]
    omega

@[simp] theorem byteLength_cons (c : Char) (cs : List Char) : byteLength (c :: cs) = c.utf8Size + byteLength cs := by
  have h : byteLength (c :: cs) = cs.foldl (fun n c => n + c.utf8Size) (0 + c.utf8Size) := rfl
  rw [h, foldl_utf8Size, Nat.zero_add]

@[simp] theorem byteLength_append (cs ds : List Char) : byteLength (cs ++ ds) = byteLength cs + byteLength ds := by
  induction cs with
  | nil => simp
  | cons c cs ih => simp [ih, Nat.add_assoc]

end Cursor

open Cursor (byteLength)

/-- The offset lies between two characters of the text, or at one of its ends. -/
def IsBoundary (text : List Char) (offset : Nat) : Prop :=
  ∃ before after, text = before ++ after ∧ byteLength before = offset

/-! ## Ranges one after the other -/

/-- Ranges that lie between `lo` and `hi`, each of them before the next one. -/
inductive Spread : Nat → List (Nat × Nat) → Nat → Prop where
  | nil {lo hi : Nat} : lo ≤ hi → Spread lo [] hi
  | cons {lo start stop hi : Nat} {ranges : List (Nat × Nat)} :
    lo ≤ start → start ≤ stop → Spread stop ranges hi → Spread lo ((start, stop) :: ranges) hi

namespace Spread

variable {lo mid hi : Nat} {ranges more : List (Nat × Nat)}

theorem le (h : Spread lo ranges hi) : lo ≤ hi := by
  induction h with
  | nil h => exact h
  | cons h h' _ ih => omega

theorem mono {lo' hi' : Nat} (h : Spread lo ranges hi) (hlo : lo' ≤ lo) (hhi : hi ≤ hi') : Spread lo' ranges hi' := by
  induction h generalizing lo' with
  | nil h => exact .nil (by omega)
  | cons h h' _ ih => exact .cons (by omega) h' (ih (Nat.le_refl _) hhi)

theorem append (h : Spread lo ranges mid) (hm : Spread mid more hi) : Spread lo (ranges ++ more) hi := by
  induction h with
  | nil h => exact hm.mono h (Nat.le_refl _)
  | cons h h' _ ih => exact .cons h h' (ih hm)

/-- Some of the ranges. -/
theorem sublist (h : Spread lo ranges hi) (hs : more.Sublist ranges) : Spread lo more hi := by
  induction hs generalizing lo with
  | slnil => exact h
  | cons r _ ih =>
    cases h with
    | cons h h' h'' => exact (ih h'').mono (by omega) (Nat.le_refl _)
  | cons_cons r _ ih =>
    cases h with
    | cons h h' h'' => exact .cons h h' (ih h'')

theorem inside (h : Spread lo ranges hi) : ∀ r ∈ ranges, lo ≤ r.1 ∧ r.1 ≤ r.2 ∧ r.2 ≤ hi := by
  induction h with
  | nil _ => simp
  | cons h h' hrest ih =>
    have hle := hrest.le
    refine List.forall_mem_cons.2 ⟨⟨h, h', hle⟩, fun r hr => ?_⟩
    have hr := ih r hr
    exact ⟨by omega, hr.2⟩

/-- Ranges fill what lies between the start of the first one and the stop of the last one. -/
theorem tight {first last : Nat × Nat} (h : Spread lo ranges hi) (hf : ranges.head? = some first)
    (hl : ranges.getLast? = some last) : Spread first.1 ranges last.2 := by
  induction h generalizing first with
  | nil _ => cases hf
  | @cons _ start stop _ ranges _ h' hrest ih =>
    cases hf
    cases ranges with
    | nil =>
      cases hl
      exact .cons (Nat.le_refl _) h' (.nil (Nat.le_refl _))
    | cons r ranges =>
      rw [List.getLast?_cons_cons] at hl
      have hr := hrest.inside r List.mem_cons_self
      exact .cons (Nat.le_refl _) h' ((ih rfl hl).mono hr.1 (Nat.le_refl _))

theorem split (h : Spread lo (ranges ++ more) hi) : ∃ mid, Spread lo ranges mid ∧ Spread mid more hi := by
  induction ranges generalizing lo with
  | nil => exact ⟨lo, .nil (Nat.le_refl _), h⟩
  | cons r ranges ih =>
    cases h with
    | cons h h' hrest =>
      obtain ⟨mid, hranges, hmore⟩ := ih hrest
      exact ⟨mid, .cons h h' hranges, hmore⟩

theorem pairwise (h : Spread lo ranges hi) : ranges.Pairwise fun r s => r.2 ≤ s.1 := by
  induction h with
  | nil _ => exact .nil
  | cons _ _ hrest ih => exact .cons (fun r hr => (hrest.inside r hr).1) ih

end Spread

/-! ## Trees -/

namespace Tree

def range (t : Tree) : Nat × Nat := (t.start, t.stop)

/-- The tree lies between characters of the text, and its parts lie in it one after the other. -/
structure Placed (text : List Char) (t : Tree) : Prop where
  start : IsBoundary text t.start
  stop : IsBoundary text t.stop
  parts : Spread t.start (t.parts.map range) t.stop
  filled : t.rule.mayBeEmpty = false → t.start < t.stop

end Tree

/-! ## Places of a text -/

/-- The place is one of `text`. -/
def Cursor.On (text : List Char) (c : Cursor) : Prop := ∃ before, text = before ++ c.rest ∧ byteLength before = c.offset

namespace Cursor.On

variable {text : List Char} {c : Cursor}

theorem boundary (h : c.On text) : IsBoundary text c.offset := by
  obtain ⟨before, ht, ho⟩ := h
  exact ⟨before, c.rest, ht, ho⟩

theorem after (h : c.On text) {taken rest : List Char} (hr : c.rest = taken ++ rest) : (c.after taken rest).On text := by
  obtain ⟨before, ht, ho⟩ := h
  refine ⟨before ++ taken, ?_, ?_⟩
  · rw [ht, hr, List.append_assoc]
    rfl
  · rw [byteLength_append, ho]
    rfl

theorem skip (h : c.On text) : c.skip.On text := h.after (Layout.split_append .outside c.rest).symm

/-- Where less of the text is left, more bytes were taken. -/
theorem offset_lt {d : Cursor} (hc : c.On text) (hd : d.On text) (h : d.rest.length < c.rest.length) :
    c.offset < d.offset := by
  obtain ⟨before, ht, ho⟩ := hc
  obtain ⟨before', ht', ho'⟩ := hd
  rcases List.append_eq_append_iff.1 (ht.symm.trans ht') with ⟨taken, rfl, hrest⟩ | ⟨taken, rfl, hrest⟩
  · cases taken with
    | nil =>
      rw [hrest] at h
      exact absurd h (Nat.lt_irrefl _)
    | cons x taken =>
      have hx := x.utf8Size_pos
      rw [byteLength_append, byteLength_cons] at ho'
      omega
  · rw [hrest, List.length_append] at h
    omega

end Cursor.On

theorem Cursor.offset_le_after (c : Cursor) (taken rest : List Char) : c.offset ≤ (c.after taken rest).offset :=
  Nat.le_add_right _ _

theorem Cursor.offset_le_skip (c : Cursor) : c.offset ≤ c.skip.offset := c.offset_le_after _ _

/-! ## Matches -/

/-- What is found lies between the place where the match starts and the place where it ends. -/
def Places (text : List Char) (find : Cursor → Found) : Prop :=
  ∀ c ts d, c.On text → find c = some (ts, d) → d.On text ∧ Spread c.offset (ts.map Tree.range) d.offset ∧
    ∀ t ∈ ts, t.Everywhere (Tree.Placed text)

section

variable {text : List Char} {call : Rule → Cursor → Found}

theorem repeatFind_places {step : Cursor → Found} (h : Places text step) (fuel : Nat) {c : Cursor} (hc : c.On text) :
    (repeatFind step fuel c).2.On text ∧
    Spread c.offset ((repeatFind step fuel c).1.map Tree.range) (repeatFind step fuel c).2.offset ∧
    ∀ t ∈ (repeatFind step fuel c).1, t.Everywhere (Tree.Placed text) := by
  induction fuel generalizing c with
  | zero => exact ⟨hc, .nil (Nat.le_refl _), by simp [repeatFind]⟩
  | succ fuel ih =>
    rw [repeatFind]
    split
    · exact ⟨hc, .nil (Nat.le_refl _), by simp⟩
    · next r hr =>
      obtain ⟨hon, hspread, hall⟩ := h _ _ _ hc.skip hr
      obtain ⟨hon', hspread', hall'⟩ := ih hon
      refine ⟨hon', ?_, fun t ht => (List.mem_append.1 ht).elim (hall t) (hall' t)⟩
      rw [List.map_append]
      exact (hspread.mono c.offset_le_skip (Nat.le_refl _)).append hspread'

theorem Pattern.find_places (h : ∀ r, Places text (call r)) (p : Pattern) : Places text (p.find call) := by
  induction p with
  | text s =>
    intro c ts d hc hd
    obtain ⟨d, hd, heq⟩ := Option.map_eq_some_iff.1 hd
    cases heq
    obtain ⟨hrest, hd⟩ := Cursor.eat?_eq_some hd
    rw [hd]
    exact ⟨hc.after hrest, .nil (c.offset_le_after _ _), by simp⟩
  | rule r => exact h r
  | seq p q ihp ihq =>
    intro c ts d hc hd
    obtain ⟨r, hr, hd⟩ := Option.bind_eq_some_iff.1 hd
    obtain ⟨s, hs, heq⟩ := Option.map_eq_some_iff.1 hd
    cases heq
    obtain ⟨hon, hspread, hall⟩ := ihp _ _ _ hc hr
    obtain ⟨hon', hspread', hall'⟩ := ihq _ _ _ hon.skip hs
    refine ⟨hon', ?_, fun t ht => (List.mem_append.1 ht).elim (hall t) (hall' t)⟩
    rw [List.map_append]
    exact hspread.append (hspread'.mono r.2.offset_le_skip (Nat.le_refl _))
  | alt p q ihp ihq =>
    intro c ts d hc hd
    rcases Option.or_eq_some_iff.1 hd with hd | ⟨-, hd⟩
    · exact ihp _ _ _ hc hd
    · exact ihq _ _ _ hc hd
  | opt p ih =>
    intro c ts d hc hd
    rcases Option.or_eq_some_iff.1 hd with hd | ⟨-, hd⟩
    · exact ih _ _ _ hc hd
    · cases hd
      exact ⟨hc, .nil (Nat.le_refl _), by simp⟩
  | star p ih =>
    intro c ts d hc hd
    rcases Option.or_eq_some_iff.1 hd with hd | ⟨-, hd⟩
    · obtain ⟨r, hr, heq⟩ := Option.map_eq_some_iff.1 hd
      cases heq
      obtain ⟨hon, hspread, hall⟩ := ih _ _ _ hc hr
      obtain ⟨hon', hspread', hall'⟩ := repeatFind_places ih (r.2.rest.length + 1) hon
      refine ⟨hon', ?_, fun t ht => (List.mem_append.1 ht).elim (hall t) (hall' t)⟩
      rw [List.map_append]
      exact hspread.append hspread'
    · cases hd
      exact ⟨hc, .nil (Nat.le_refl _), by simp⟩

/-- A token is cut from the text. -/
theorem Rule.scan_append {r : Rule} {scan : Scanner} (hr : r.definition = .token scan) {cs l rest : List Char}
    (hs : scan cs = some (l, rest)) : cs = l ++ rest := by
  by_cases hend : r = .endOfInput
  · subst hend
    cases hr
    cases cs with
    | nil => cases hs; rfl
    | cons _ _ => cases hs
  · exact (Rule.scan_divides hend hr _ _ _ hs).1

theorem Definition.find_places (h : ∀ r, Places text (call r)) (hs : ∀ r, Shortens r.mayBeEmpty (call r)) (r : Rule) :
    Places text (r.definition.find call r) := by
  intro c ts d hc hd
  have hshort := (Definition.find_shortens hs r c ts d hd).2
  cases hr : r.definition with
  | token scan =>
    rw [hr] at hd
    obtain ⟨s, hs, heq⟩ := Option.map_eq_some_iff.1 hd
    cases heq
    have hon := hc.after (Rule.scan_append hr hs)
    have hle := c.offset_le_after s.1 s.2
    refine ⟨hon, .cons (Nat.le_refl _) hle (.nil (Nat.le_refl _)), fun t ht => ?_⟩
    cases List.mem_singleton.1 ht
    exact .token ⟨hc.boundary, hon.boundary, .nil hle, fun hne => hc.offset_lt hon (hshort hne)⟩
  | phrase p =>
    rw [hr] at hd
    obtain ⟨s, hs, heq⟩ := Option.map_eq_some_iff.1 hd
    cases heq
    obtain ⟨hon, hspread, hall⟩ := Pattern.find_places h p _ _ _ hc hs
    refine ⟨hon, .cons (Nat.le_refl _) hspread.le (.nil (Nat.le_refl _)), fun t ht => ?_⟩
    cases List.mem_singleton.1 ht
    exact .phrase ⟨hc.boundary, hon.boundary, hspread, fun hne => hc.offset_lt hon (hshort hne)⟩ hall

end

theorem Rule.within_places (text : List Char) (fuel : Nat) (r : Rule) : Places text (Rule.within fuel r) := by
  induction fuel generalizing r with
  | zero => intro c ts d _ h; cases h
  | succ fuel ih => exact Definition.find_places ih (Rule.within_shortens fuel) r

/-- What a rule finds in a text lies there. -/
theorem Rule.find_placed {text : List Char} {r : Rule} {c d : Cursor} {t : Tree} (hc : c.On text)
    (h : r.find c = some ([t], d)) : t.Everywhere (Tree.Placed text) :=
  (Rule.within_places text _ r c [t] d hc h).2.2 t List.mem_cons_self

/-- The tree of a text lies in it, and so do all trees inside. -/
theorem Tree.ofText_placed {text : List Char} {t : Tree} (h : Tree.ofText text = .ok [t]) :
    t.Everywhere (Tree.Placed text) := by
  obtain ⟨d, hd⟩ := Tree.ofText_eq_ok.1 h
  exact Rule.find_placed ⟨[], rfl, rfl⟩ hd

end Stepwise
