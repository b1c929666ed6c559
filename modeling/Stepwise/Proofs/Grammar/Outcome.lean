import Stepwise.Proofs.Grammar.Recognition

/-!
# Outcomes of patterns

Two judgements about a pattern at the start of a text, wherever the text stands:

* `p.Gives cs P rest`: `p` matches at `cs`, its trees have `P`, and up to layout `rest` follows;
* `p.Fails cs`: `p` does not match at `cs`.

Every way to match and every way to fail is a rule of the calculus. A repetition is built from the left by
`Pattern.Series`: a first match of `p`, then matches of `q`, after which more may still follow (`Series.snoc`) until `q`
fails (`Series.gives`).
-/

namespace Stepwise

namespace Pattern

/-- `p` matches at `cs`; the trees have `P`, and up to layout `rest` follows. -/
def Gives (p : Pattern) (cs : List Char) (P : List Tree → Prop) (rest : List Char) : Prop :=
  ∀ offset, ∃ ts d, p.find Rule.find ⟨offset, cs⟩ = some (ts, d) ∧ P ts ∧ skipped d.rest = skipped rest

/-- `p` does not match at `cs`. -/
def Fails (p : Pattern) (cs : List Char) : Prop := ∀ offset, p.find Rule.find ⟨offset, cs⟩ = none

section

variable {p q : Pattern} {cs mid rest : List Char} {P Q : List Tree → Prop}

theorem Gives.mono (h : p.Gives cs P rest) (hPQ : ∀ ts, P ts → Q ts) : p.Gives cs Q rest := by
  intro offset
  obtain ⟨ts, d, hd, hts, hrest⟩ := h offset
  exact ⟨ts, d, hd, hPQ ts hts, hrest⟩

theorem Gives.rest_congr (h : p.Gives cs P mid) (hrest : skipped mid = skipped rest) : p.Gives cs P rest := by
  intro offset
  obtain ⟨ts, d, hd, hts, hmid⟩ := h offset
  exact ⟨ts, d, hd, hts, hmid.trans hrest⟩

/-- What matches some text does not match the empty one. -/
theorem Fails.nil (h : p.mayBeEmpty = false) : p.Fails [] := by
  intro offset
  cases hfind : p.find Rule.find ⟨offset, []⟩ with
  | none => rfl
  | some found => exact absurd ((find_shortens Rule.find_shortens p _ _ _ hfind).2 h) (Nat.not_lt_zero _)

/-! ## Punctuation -/

theorem Gives.text (s : String) (rest : List Char) : (Pattern.text s).Gives (s.toList ++ rest) (· = []) rest := by
  intro offset
  refine ⟨[], Cursor.after ⟨offset, s.toList ++ rest⟩ s.toList rest, ?_, rfl, rfl⟩
  simp [find, Cursor.eat?, List.isPrefixOf?_eq_some_iff_append_eq.2 rfl]

theorem Fails.text {s : String} (h : s.toList.isPrefixOf? cs = none) : (Pattern.text s).Fails cs := by
  intro offset
  simp [find, Cursor.eat?, h]

/-! ## Sequences -/

theorem Gives.seq (hp : p.Gives cs P mid) (hq : q.Gives (skipped mid) Q rest) :
    (Pattern.seq p q).Gives cs (fun ts => ∃ us vs, P us ∧ Q vs ∧ ts = us ++ vs) rest := by
  intro offset
  obtain ⟨us, d, hd, hus, hmid⟩ := hp offset
  obtain ⟨vs, e, he, hvs, hrest⟩ := hq d.skip.offset
  have hskip : d.skip = ⟨d.skip.offset, skipped mid⟩ := by rw [← hmid]; rfl
  refine ⟨us ++ vs, e, ?_, ⟨us, vs, hus, hvs, rfl⟩, hrest⟩
  rw [find, hd, Option.bind_some, hskip, he, Option.map_some]

/-- A second part without trees. -/
theorem Gives.seq_nil (hp : p.Gives cs P mid) (hq : q.Gives (skipped mid) (· = []) rest) :
    (Pattern.seq p q).Gives cs P rest := by
  refine (hp.seq hq).mono ?_
  rintro _ ⟨us, _, hus, rfl, rfl⟩
  rwa [List.append_nil]

/-- A first part without trees. -/
theorem Gives.nil_seq (hp : p.Gives cs (· = []) mid) (hq : q.Gives (skipped mid) Q rest) :
    (Pattern.seq p q).Gives cs Q rest := by
  refine (hp.seq hq).mono ?_
  rintro _ ⟨_, vs, rfl, hvs, rfl⟩
  exact hvs

theorem Fails.seq_left (hp : p.Fails cs) : (Pattern.seq p q).Fails cs := by
  intro offset
  rw [find, hp offset, Option.bind_none]

theorem Fails.seq_right (hp : p.Gives cs P mid) (hq : q.Fails (skipped mid)) : (Pattern.seq p q).Fails cs := by
  intro offset
  obtain ⟨us, d, hd, -, hmid⟩ := hp offset
  have hskip : d.skip = ⟨d.skip.offset, skipped mid⟩ := by rw [← hmid]; rfl
  rw [find, hd, Option.bind_some, hskip, hq, Option.map_none]

/-! ## Choices -/

theorem Gives.left (hp : p.Gives cs P rest) : (Pattern.alt p q).Gives cs P rest := by
  intro offset
  obtain ⟨ts, d, hd, hts⟩ := hp offset
  exact ⟨ts, d, by rw [find, hd, Option.some_or], hts⟩

theorem Gives.right (hp : p.Fails cs) (hq : q.Gives cs Q rest) : (Pattern.alt p q).Gives cs Q rest := by
  intro offset
  obtain ⟨ts, d, hd, hts⟩ := hq offset
  exact ⟨ts, d, by rw [find, hp offset, Option.none_or, hd], hts⟩

theorem Fails.alt (hp : p.Fails cs) (hq : q.Fails cs) : (Pattern.alt p q).Fails cs := by
  intro offset
  rw [find, hp offset, hq offset, Option.none_or]

theorem Gives.present (hp : p.Gives cs P rest) : (Pattern.opt p).Gives cs P rest := by
  intro offset
  obtain ⟨ts, d, hd, hts⟩ := hp offset
  exact ⟨ts, d, by rw [find, hd, Option.some_or], hts⟩

theorem Gives.absent (hp : p.Fails cs) : (Pattern.opt p).Gives cs (· = []) cs := by
  intro offset
  exact ⟨[], ⟨offset, cs⟩, by rw [find, hp offset, Option.none_or], rfl, rfl⟩

/-- An optional second part that is not there. -/
theorem Gives.seq_absent (hp : p.Gives cs P rest) (hq : q.Fails (skipped rest)) :
    (Pattern.seq p (.opt q)).Gives cs P rest :=
  (hp.seq_nil (.absent hq)).rest_congr (skipped_skipped rest)

/-! ## Rules -/

theorem Gives.token {r : Rule} {scan : Scanner} {lexeme : List Char} (hr : r.definition = .token scan)
    (hs : scan cs = some (lexeme, rest)) :
    (Pattern.rule r).Gives cs (fun ts => ∃ start stop, ts = [.token r start stop lexeme]) rest := by
  intro offset
  exact ⟨_, _, by rw [find, Rule.find_eq, hr, Definition.find, hs, Option.map_some], ⟨_, _, rfl⟩, rfl⟩

theorem Fails.token {r : Rule} {scan : Scanner} (hr : r.definition = .token scan) (hs : scan cs = none) :
    (Pattern.rule r).Fails cs := by
  intro offset
  rw [find, Rule.find_eq, hr, Definition.find, hs, Option.map_none]

theorem Gives.phrase {r : Rule} (hr : r.definition = .phrase p) (hp : p.Gives cs P rest) :
    (Pattern.rule r).Gives cs (fun ts => ∃ start stop us, P us ∧ ts = [.phrase r start stop us]) rest := by
  intro offset
  obtain ⟨ts, d, hd, hts, hrest⟩ := hp offset
  exact ⟨_, d, by rw [find, Rule.find_eq, hr, Definition.find, hd, Option.map_some], ⟨_, _, ts, hts, rfl⟩, hrest⟩

theorem Fails.phrase {r : Rule} (hr : r.definition = .phrase p) (hp : p.Fails cs) : (Pattern.rule r).Fails cs := by
  intro offset
  rw [find, Rule.find_eq, hr, Definition.find, hp offset, Option.map_none]

end

/-! ## Repetitions -/

/-- Matches of `q` one after the other, each after layout, with their trees. -/
inductive Repeats (q : Pattern) : Cursor → List Tree → Cursor → Prop where
  | done (c : Cursor) : Repeats q c [] c
  | more {c d e : Cursor} {ts us : List Tree} : q.find Rule.find c.skip = some (ts, d) → Repeats q d us e →
      Repeats q c (ts ++ us) e

theorem Repeats.snoc {q : Pattern} {c d e : Cursor} {ts us : List Tree} (h : Repeats q c ts d)
    (hq : q.find Rule.find d.skip = some (us, e)) : Repeats q c (ts ++ us) e := by
  induction h with
  | done c => simpa using Repeats.more hq (.done e)
  | more hfirst _ ih => rw [List.append_assoc]; exact .more hfirst (ih hq)

theorem repeatFind_of_repeats {q : Pattern} (hne : q.mayBeEmpty = false) {c d : Cursor} {ts : List Tree}
    (h : Repeats q c ts d) (hend : q.find Rule.find d.skip = none) (fuel : Nat) (hfuel : c.rest.length < fuel) :
    repeatFind (q.find Rule.find) fuel c = (ts, d) := by
  induction h generalizing fuel with
  | done c =>
    cases fuel with
    | zero => omega
    | succ fuel => rw [repeatFind, hend]
  | @more c d e ts us hfirst _ ih =>
    have hlt := (find_shortens Rule.find_shortens q _ _ _ hfirst).2 hne
    have hskip := c.skip_length_le
    cases fuel with
    | zero => omega
    | succ fuel =>
      rw [repeatFind, hfirst]
      simp only [ih hend fuel (by omega)]

/-- `p` matches at `cs` and then some matches of `q` follow, up to layout before `rest`; the trees of `p` and those of
the repetition have `P`. -/
def Series (p q : Pattern) (cs : List Char) (P : List Tree → List Tree → Prop) (rest : List Char) : Prop :=
  ∀ offset, ∃ ts c us d, p.find Rule.find ⟨offset, cs⟩ = some (ts, c) ∧ Repeats q c us d ∧ P ts us ∧
    skipped d.rest = skipped rest

section

variable {p q : Pattern} {cs mid rest : List Char} {P : List Tree → Prop} {S : List Tree → List Tree → Prop}

theorem Gives.series (h : p.Gives cs P rest) : Series p q cs (fun ts us => P ts ∧ us = []) rest := by
  intro offset
  obtain ⟨ts, c, hc, hts, hrest⟩ := h offset
  exact ⟨ts, c, [], c, hc, .done c, ⟨hts, rfl⟩, hrest⟩

theorem Series.snoc (h : Series p q cs S mid) (hq : q.Gives (skipped mid) P rest) :
    Series p q cs (fun ts us => ∃ vs ws, S ts vs ∧ P ws ∧ us = vs ++ ws) rest := by
  intro offset
  obtain ⟨ts, c, us, d, hc, hus, hS, hmid⟩ := h offset
  obtain ⟨vs, e, he, hvs, hrest⟩ := hq d.skip.offset
  have hskip : d.skip = ⟨d.skip.offset, skipped mid⟩ := by rw [← hmid]; rfl
  exact ⟨ts, c, us ++ vs, e, hc, hus.snoc (by rw [hskip]; exact he), ⟨us, vs, hS, hvs, rfl⟩, hrest⟩

theorem Series.mono {T : List Tree → List Tree → Prop} (h : Series p q cs S rest) (hST : ∀ ts us, S ts us → T ts us) :
    Series p q cs T rest := by
  intro offset
  obtain ⟨ts, c, us, d, hc, hus, hS, hrest⟩ := h offset
  exact ⟨ts, c, us, d, hc, hus, hST ts us hS, hrest⟩

/-- A repetition without a match. -/
theorem Gives.never (hq : q.Fails cs) : (Pattern.star q).Gives cs (· = []) cs := by
  intro offset
  exact ⟨[], ⟨offset, cs⟩, by rw [find, hq offset, Option.map_none, Option.none_or], rfl, rfl⟩

/-- A repetition of one match. -/
theorem Gives.once (hne : q.mayBeEmpty = false) (h : q.Gives cs P rest) (hend : q.Fails (skipped rest)) :
    (Pattern.star q).Gives cs P rest := by
  intro offset
  obtain ⟨ts, d, hd, hts, hrest⟩ := h offset
  have hskip : d.skip = ⟨d.skip.offset, skipped rest⟩ := by rw [← hrest]; rfl
  have hstop : q.find Rule.find d.skip = none := by rw [hskip]; exact hend _
  refine ⟨ts, d, ?_, hts, hrest⟩
  rw [find, hd]
  simp [repeatFind_of_repeats hne (.done d) hstop _ (Nat.lt_succ_self _)]

/-- A series ends where `q` fails. -/
theorem Series.gives (hne : q.mayBeEmpty = false) (h : Series p q cs S rest) (hend : q.Fails (skipped rest)) :
    (Pattern.seq p (.star q)).Gives cs (fun ts => ∃ us vs, S us vs ∧ ts = us ++ vs) rest := by
  intro offset
  obtain ⟨ts, c, us, d, hc, hus, hS, hrest⟩ := h offset
  have hskip : d.skip = ⟨d.skip.offset, skipped rest⟩ := by rw [← hrest]; rfl
  have hstop : q.find Rule.find d.skip = none := by rw [hskip]; exact hend _
  cases hus with
  | done =>
    refine ⟨ts, c.skip, ?_, ⟨ts, [], hS, by simp⟩, ?_⟩
    · rw [find, hc, Option.bind_some, find, hstop]
      simp
    · rw [Cursor.skip_rest, skipped_skipped, hrest]
  | @more c' e d vs ws hfirst hmore =>
    refine ⟨ts ++ (vs ++ ws), d, ?_, ⟨ts, vs ++ ws, hS, rfl⟩, hrest⟩
    rw [find, hc, Option.bind_some, find, hfirst]
    simp [repeatFind_of_repeats hne hmore hstop _ (Nat.lt_succ_self _)]

end

end Pattern

end Stepwise
