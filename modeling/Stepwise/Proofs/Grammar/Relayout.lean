import Stepwise.Proofs.Grammar.Scanning

/-!
# Texts that differ in layout

`Layout.Run` is complete layout: blanks, line comments with the line feed that ends them, and block comments. `Relaid cs
ds` says that `ds` is `cs` with some of its runs exchanged for others that begin with a blank. A string literal is taken
over as a whole, so what looks like layout inside of it stays.

Skipping the layout of two such texts leads to the same piece of a token: `Relaid.level`. From there on they can only
come apart at layout again, where `cs` has a blank or a comment and `ds` a blank (`Relaid.meet`, `Relaid.span`).
-/

namespace Stepwise

namespace Layout

/-! ## Runs -/

/-- Layout that is complete, so that anything may follow. -/
inductive Run : List Char → Prop where
  | nil : Run []
  | blank {c : Char} {cs : List Char} : isBlank c = true → Run cs → Run (c :: cs)
  | line {body cs : List Char} : '\n' ∉ body → Run cs → Run ('/' :: '/' :: (body ++ '\n' :: cs))
  | block {body cs : List Char} : closes (body ++ ['*']) = false → Run cs →
      Run ('/' :: '*' :: (body ++ '*' :: '/' :: cs))

/-- Whether a comment seems to start here. -/
def opens : List Char → Bool
  | '/' :: '/' :: _ => true
  | '/' :: '*' :: _ => true
  | _ => false

/-- Characters at which layout or a string literal may start. -/
def isMark (c : Char) : Bool := isBlank c || c = '/' || c = '"' || c = '\''

theorem closes_append (body cs : List Char) : closes (body ++ '*' :: '/' :: cs) = true := by
  induction body with
  | nil => rfl
  | cons c body ih =>
    rw [List.cons_append]
    unfold closes
    split
    · rfl
    · next heq => cases heq; exact ih
    · next heq => cases heq

theorem split_inLine {body : List Char} (h : '\n' ∉ body) (cs : List Char) :
    (split .inLine (body ++ '\n' :: cs)).2 = (split .outside cs).2 := by
  induction body with
  | nil => rfl
  | cons c body ih =>
    have hc : c ≠ '\n' := fun heq => h (heq ▸ List.mem_cons_self)
    simp only [List.cons_append, split, if_neg hc]
    exact ih fun hm => h (List.mem_cons_of_mem c hm)

/-- A line comment that no line feed ends takes the rest of the text. -/
theorem split_inLine_last {body : List Char} (h : '\n' ∉ body) : (split .inLine body).2 = [] := by
  induction body with
  | nil => rfl
  | cons c body ih =>
    have hc : c ≠ '\n' := fun heq => h (heq ▸ List.mem_cons_self)
    simp only [split, if_neg hc]
    exact ih fun hm => h (List.mem_cons_of_mem c hm)

theorem split_inBlock {body : List Char} (h : closes (body ++ ['*']) = false) (cs : List Char) :
    (split .inBlock (body ++ '*' :: '/' :: cs)).2 = (split .outside cs).2 := by
  induction body with
  | nil => rfl
  | cons c body ih =>
    rw [List.cons_append] at h ⊢
    unfold closes at h
    split at h
    · cases h
    · next hopen heq =>
      cases heq
      have hrest := ih h
      -- the first two characters close no comment, also where the body ends after the first
      rw [split]
      · exact hrest
      · intro cs' heq htail
        cases body with
        | nil => cases htail
        | cons d body => exact hopen _ heq (by rw [List.cons_append] at htail ⊢; injection htail with hd; rw [hd])
    · next heq => cases heq

end Layout

open Layout (isBlank isMark opens Run)

theorem skipped_blank {c : Char} (h : isBlank c = true) (cs : List Char) : skipped (c :: cs) = skipped cs := by
  have hc : c ≠ '/' := by
    rintro rfl
    cases h
  unfold skipped
  rw [Layout.split, if_pos h]
  · exact fun _ heq => absurd heq hc
  · exact fun _ heq => absurd heq hc

theorem skipped_of_opens {c : Char} {cs : List Char} (hc : isBlank c = false) (ho : opens (c :: cs) = false) :
    skipped (c :: cs) = c :: cs := by
  unfold skipped
  rw [Layout.split, if_neg (by simp [hc])]
  · rintro ds rfl rfl
    cases ho
  · rintro ds rfl rfl
    cases ho

theorem Layout.Run.skipped_append {g : List Char} (h : Run g) (cs : List Char) : skipped (g ++ cs) = skipped cs := by
  induction h with
  | nil => rfl
  | @blank c g hc _ ih => rw [List.cons_append, skipped_blank hc, ih]
  | @line body g hbody _ ih =>
    rw [List.cons_append, List.cons_append, List.append_assoc, List.cons_append, ← ih]
    exact Layout.split_inLine hbody (g ++ cs)
  | @block body g hbody _ ih =>
    rw [List.cons_append, List.cons_append, List.append_assoc, List.cons_append, List.cons_append, ← ih]
    unfold skipped
    rw [Layout.split, if_pos (Layout.closes_append body (g ++ cs))]
    exact Layout.split_inBlock hbody (g ++ cs)

theorem Layout.Run.skipped_eq_nil {g : List Char} (h : Run g) : skipped g = [] := by
  rw [← List.append_nil g, h.skipped_append]
  rfl

/-- A run starts with a blank or a comment. -/
theorem Layout.Run.head {g : List Char} (h : Run g) (hne : g ≠ []) : ∃ c cs, g = c :: cs ∧ isMark c = true := by
  cases h with
  | nil => exact absurd rfl hne
  | blank hc _ => exact ⟨_, _, rfl, by simp [isMark, hc]⟩
  | line _ _ => exact ⟨_, _, rfl, rfl⟩
  | block _ _ => exact ⟨_, _, rfl, rfl⟩

/-- Layout that begins with a blank. -/
structure Layout.Gap (g : List Char) : Prop where
  run : Run g
  blank : g.head?.any isBlank = true

theorem Layout.Gap.head {g : List Char} (h : Layout.Gap g) : ∃ c cs, g = c :: cs ∧ isBlank c = true := by
  obtain ⟨-, hblank⟩ := h
  cases g with
  | nil => cases hblank
  | cons c cs => exact ⟨c, cs, rfl, hblank⟩

/-! ## Exchanging runs -/

/-- The second text is the first with some of its layout exchanged. -/
inductive Relaid : List Char → List Char → Prop where
  /-- From here on nothing changes. -/
  | same (cs : List Char) : Relaid cs cs
  /-- A character outside of layout and string literals. -/
  | char {c : Char} {cs ds : List Char} : isBlank c = false → c ≠ '"' → c ≠ '\'' → opens (c :: cs) = false →
      Relaid cs ds → Relaid (c :: cs) (c :: ds)
  /-- A string literal. -/
  | string {l cs ds : List Char} : Scanner.string (l ++ cs) = some (l, cs) → Relaid cs ds →
      Relaid (l ++ cs) (l ++ ds)
  /-- Layout that stays. -/
  | kept {g cs ds : List Char} : Run g → g ≠ [] → Relaid cs ds → Relaid (g ++ cs) (g ++ ds)
  /-- Layout that is exchanged. -/
  | gap {g g' cs ds : List Char} : Run g → g ≠ [] → Layout.Gap g' → Relaid cs ds → Relaid (g ++ cs) (g' ++ ds)
  /-- Layout at the end of the text, whose line comment needs no line feed, is exchanged. -/
  | last {g body g' : List Char} : Run g → '\n' ∉ body → Layout.Gap g' → Relaid (g ++ '/' :: '/' :: body) g'

/-- Two such texts that start with the same piece of a token, or are equal. -/
inductive Level : List Char → List Char → Prop where
  | same (cs : List Char) : Level cs cs
  | char {c : Char} {cs ds : List Char} : isBlank c = false → c ≠ '"' → c ≠ '\'' → opens (c :: cs) = false →
      Relaid cs ds → Level (c :: cs) (c :: ds)
  | string {l cs ds : List Char} : Scanner.string (l ++ cs) = some (l, cs) → Relaid cs ds → Level (l ++ cs) (l ++ ds)

theorem Level.relaid {cs ds : List Char} (h : Level cs ds) : Relaid cs ds := by
  cases h with
  | same => exact .same cs
  | char hc hd hs ho h => exact .char hc hd hs ho h
  | string hl h => exact .string hl h

/-- A string literal starts with a quote. -/
theorem Scanner.string_head {l cs rest : List Char} (h : Scanner.string cs = some (l, rest)) :
    ∃ c l', l = c :: l' ∧ (c = '"' ∨ c = '\'') := by
  obtain ⟨rfl, hne⟩ := Scanner.divides_string _ _ _ h
  cases l with
  | nil => exact absurd rfl hne
  | cons c l =>
    refine ⟨c, l, rfl, ?_⟩
    by_contra hc
    rw [not_or] at hc
    rw [List.cons_append, Scanner.string_eq_none hc.1 hc.2] at h
    cases h

section

variable {cs ds : List Char}

/-- Where no piece of a token starts, both texts have layout, and the second has a blank unless it kept the first. -/
theorem Relaid.level_or (h : Relaid cs ds) : Level cs ds ∨ cs.head?.any isMark = true ∧
    (ds.head? = cs.head? ∨ ds.head?.any isBlank = true) := by
  cases h with
  | same => exact .inl (.same cs)
  | char hc hd hs ho h => exact .inl (.char hc hd hs ho h)
  | string hl h => exact .inl (.string hl h)
  | kept hg hne =>
    obtain ⟨c, g, rfl, hc⟩ := hg.head hne
    exact .inr ⟨hc, .inl rfl⟩
  | gap hg hne hg' =>
    obtain ⟨c, g, rfl, hc⟩ := hg.head hne
    obtain ⟨d, g', rfl, hd⟩ := hg'.head
    exact .inr ⟨hc, .inr hd⟩
  | @last g body g' hg _ hg' =>
    obtain ⟨d, g', rfl, hd⟩ := hg'.head
    refine .inr ⟨?_, .inr hd⟩
    by_cases hne : g = []
    · rw [hne]
      rfl
    · obtain ⟨c, g, rfl, hc⟩ := hg.head hne
      exact hc

/-- The second text starts as the first or with a blank. -/
theorem Relaid.heads (h : Relaid cs ds) : ds.head? = cs.head? ∨ ds.head?.any isBlank = true := by
  rcases h.level_or with hlevel | ⟨-, hhead⟩
  · cases hlevel with
    | same | char => exact .inl rfl
    | string hl =>
      obtain ⟨c, l, rfl, -⟩ := Scanner.string_head hl
      exact .inl rfl
  · exact hhead

/-- No comment starts in the second text where none starts in the first. -/
theorem Relaid.opens_cons (h : Relaid cs ds) {c : Char} (ho : opens (c :: cs) = false) : opens (c :: ds) = false := by
  unfold opens
  split
  · next heq =>
    cases heq
    rcases h.heads with heq | hblank
    · cases cs with
      | nil => cases heq
      | cons c' cs => cases heq; cases ho
    · cases hblank
  · next heq =>
    cases heq
    rcases h.heads with heq | hblank
    · cases cs with
      | nil => cases heq
      | cons c' cs => cases heq; cases ho
    · cases hblank
  · rfl

/-- Behind their layout, the texts start with the same piece of a token. -/
theorem Relaid.level (h : Relaid cs ds) : Level (skipped cs) (skipped ds) := by
  induction h with
  | same cs => exact .same _
  | char hc hd hs ho h =>
    rw [skipped_of_opens hc ho, skipped_of_opens hc (h.opens_cons ho)]
    exact .char hc hd hs ho h
  | @string l cs ds hl h =>
    obtain ⟨c, l, rfl, hc⟩ := Scanner.string_head hl
    have hskip : ∀ rest, skipped (c :: l ++ rest) = c :: l ++ rest := by
      intro rest
      rcases hc with rfl | rfl <;> exact skipped_of_opens rfl rfl
    rw [hskip, hskip]
    exact .string hl h
  | kept hg _ _ ih => rw [hg.skipped_append, hg.skipped_append]; exact ih
  | gap hg _ hg' _ ih => rw [hg.skipped_append, hg'.run.skipped_append]; exact ih
  | @last g body g' hg hbody hg' =>
    have hlast : skipped ('/' :: '/' :: body) = [] := Layout.split_inLine_last hbody
    rw [hg.skipped_append, hlast, hg'.run.skipped_eq_nil]
    exact .same _

/-- Characters at which neither layout nor string literals start. -/
theorem Relaid.plain {w : List Char} (hw : w.all (! isMark ·) = true) (h : Relaid cs ds) : Relaid (w ++ cs) (w ++ ds) := by
  induction w with
  | nil => exact h
  | cons c w ih =>
    simp only [List.all_cons, Bool.and_eq_true, Bool.not_eq_true'] at hw
    have hc : isBlank c = false ∧ c ≠ '/' ∧ c ≠ '"' ∧ c ≠ '\'' := by simpa [isMark, and_assoc] using hw.1
    refine .char hc.1 hc.2.2.1 hc.2.2.2 ?_ (ih hw.2)
    unfold opens
    split
    · next heq => exact absurd (List.cons.inj heq).1 hc.2.1
    · next heq => exact absurd (List.cons.inj heq).1 hc.2.1
    · rfl

/-! ## Reading on -/

/-- Either both texts go on with `x`, or neither does. -/
def Meet (x : Char) (cs ds : List Char) : Prop :=
  (∃ cs' ds', cs = x :: cs' ∧ ds = x :: ds' ∧ Relaid cs' ds') ∨ cs.head? ≠ some x ∧ ds.head? ≠ some x

theorem Level.meet (h : Level cs ds) {x : Char} (hd : x ≠ '"') (hs : x ≠ '\'') : Meet x cs ds := by
  cases h with
  | same =>
    cases cs with
    | nil => exact .inr ⟨nofun, nofun⟩
    | cons c cs =>
      by_cases hc : c = x
      · exact .inl ⟨cs, cs, by rw [hc], by rw [hc], .same cs⟩
      · exact .inr (by simp [hc])
  | @char c cs ds _ _ _ _ h =>
    by_cases hc : c = x
    · exact .inl ⟨cs, ds, by rw [hc], by rw [hc], h⟩
    · exact .inr (by simp [hc])
  | string hl =>
    obtain ⟨c, l, rfl, hc⟩ := Scanner.string_head hl
    have hne : c ≠ x := by rcases hc with rfl | rfl <;> exact Ne.symm ‹_›
    exact .inr (by simp [hne])

/-- Behind layout a slash may start a comment in one of the texts only; other characters may not. -/
theorem Relaid.meet (h : Relaid cs ds) {x : Char} (hx : isMark x = false) : Meet x cs ds := by
  rcases h.level_or with hlevel | ⟨hc, hds⟩
  · refine hlevel.meet ?_ ?_ <;> (rintro rfl; cases hx)
  · have hne : cs.head? ≠ some x := by
      intro heq
      rw [heq] at hc
      exact absurd (hc.symm.trans hx) (by decide)
    refine .inr ⟨hne, ?_⟩
    rcases hds with heq | hd
    · rwa [heq]
    · intro heq
      rw [heq] at hd
      have hblank : isBlank x = true := hd
      simp [isMark, hblank] at hx

/-- Either both texts go on with the same character of `p`, or neither goes on with one. -/
theorem Relaid.meet_any {p : Char → Bool} (hp : ∀ c, isMark c = true → p c = false) (h : Relaid cs ds) :
    (∃ x cs' ds', p x = true ∧ cs = x :: cs' ∧ ds = x :: ds' ∧ Relaid cs' ds') ∨
      cs.head?.any p = false ∧ ds.head?.any p = false := by
  have hmeet : ∀ x, p x = true → Meet x cs ds := by
    intro x hx
    refine h.meet ?_
    cases hm : isMark x with
    | false => rfl
    | true => rw [hp x hm] at hx; cases hx
  by_cases hcs : ∃ x, cs.head? = some x ∧ p x = true
  · obtain ⟨x, hhead, hx⟩ := hcs
    rcases hmeet x hx with ⟨cs', ds', hc, hd, h'⟩ | ⟨hne, -⟩
    · exact .inl ⟨x, cs', ds', hx, hc, hd, h'⟩
    · exact absurd hhead hne
  · by_cases hds : ∃ x, ds.head? = some x ∧ p x = true
    · obtain ⟨x, hhead, hx⟩ := hds
      rcases hmeet x hx with ⟨cs', ds', hc, hd, h'⟩ | ⟨-, hne⟩
      · exact .inl ⟨x, cs', ds', hx, hc, hd, h'⟩
      · exact absurd hhead hne
    · have hnone : ∀ l : List Char, (¬∃ x, l.head? = some x ∧ p x = true) → l.head?.any p = false := by
        intro l hl
        rw [Option.any_eq_false]
        intro x hx
        exact Bool.eq_false_iff.2 fun hpx => hl ⟨x, hx, hpx⟩
      exact .inr ⟨hnone cs hcs, hnone ds hds⟩

end

/-- A run of characters at which neither layout nor string literals start is the same in both texts. -/
theorem Relaid.span {p : Char → Bool} {cs ds : List Char} (hp : ∀ c, isMark c = true → p c = false) (h : Relaid cs ds) :
    cs.takeWhile p = ds.takeWhile p ∧ Relaid (cs.dropWhile p) (ds.dropWhile p) := by
  rcases h.meet_any hp with ⟨x, cs', ds', hx, rfl, rfl, h'⟩ | ⟨hc, hd⟩
  · obtain ⟨htake, hdrop⟩ := Relaid.span hp h'
    rw [List.takeWhile_cons_of_pos hx, List.takeWhile_cons_of_pos hx, List.dropWhile_cons_of_pos hx,
      List.dropWhile_cons_of_pos hx, htake]
    exact ⟨rfl, hdrop⟩
  · have hcs := span_append (l := []) rfl hc
    have hds := span_append (l := []) rfl hd
    rw [List.nil_append] at hcs hds
    rw [hcs.1, hcs.2, hds.1, hds.2]
    exact ⟨rfl, h⟩
termination_by cs.length

end Stepwise
