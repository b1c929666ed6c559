import Stepwise.Proofs.Grammar.Recognition
import Stepwise.Proofs.Grammar.Rescanning

/-!
# Phrases do not see their layout

Two trees are alike when they have the same rules, parts and lexemes; `Tree.Alike S` asks in addition that `S` relates
each node to its counterpart. On texts that differ in layout only, every rule finds alike trees or fails on both
(`Rule.find_alike`), so if one of them is a script, the other is an alike one (`Tree.ofText_alike`).
-/

namespace Stepwise

/-! ## Alike trees -/

mutual

/-- The trees differ in their places only, and `S` relates their nodes. -/
inductive Tree.Alike (S : Tree → Tree → Prop) : Tree → Tree → Prop where
  | token {r : Rule} {start stop start' stop' : Nat} {lexeme : List Char} :
      S (.token r start stop lexeme) (.token r start' stop' lexeme) →
      Tree.Alike S (.token r start stop lexeme) (.token r start' stop' lexeme)
  | phrase {r : Rule} {start stop start' stop' : Nat} {ts us : List Tree} :
      S (.phrase r start stop ts) (.phrase r start' stop' us) → Tree.ListAlike S ts us →
      Tree.Alike S (.phrase r start stop ts) (.phrase r start' stop' us)

inductive Tree.ListAlike (S : Tree → Tree → Prop) : List Tree → List Tree → Prop where
  | nil : Tree.ListAlike S [] []
  | cons {t u : Tree} {ts us : List Tree} : Tree.Alike S t u → Tree.ListAlike S ts us →
      Tree.ListAlike S (t :: ts) (u :: us)

end

namespace Tree

variable {S : Tree → Tree → Prop} {ts us ts' us' : List Tree}

theorem ListAlike.append (h : ListAlike S ts us) (h' : ListAlike S ts' us') : ListAlike S (ts ++ ts') (us ++ us') := by
  induction ts generalizing us with
  | nil => cases h; exact h'
  | cons t ts ih =>
    cases h with
    | cons ht hts => exact .cons ht (ih hts)

end Tree

/-- Trees that are alike wherever they stand. -/
abbrev Tree.SameForm : Tree → Tree → Prop := Tree.Alike fun _ _ => True

abbrev Tree.ListSameForm : List Tree → List Tree → Prop := Tree.ListAlike fun _ _ => True

/-! ## Patterns -/

/-- Both matches fail, or both find alike trees and end before texts that differ in layout only. -/
inductive Rematch : Found → Found → Prop where
  | none : Rematch none none
  | some {ts us : List Tree} {c d : Cursor} : Tree.ListSameForm ts us → Relaid c.rest d.rest →
      Rematch (some (ts, c)) (some (us, d))

/-- Where the texts stand level, both are matched or neither is. -/
def Resumes (find : Cursor → Found) : Prop := ∀ c d, Level c.rest d.rest → Rematch (find c) (find d)

/-- Repetitions go on together, and each has fuel for all of them. -/
theorem repeatFind_alike {step : Cursor → Found} (hs : Shortens false step) (h : Resumes step) {n m : Nat}
    {c d : Cursor} (hn : c.rest.length < n) (hm : d.rest.length < m) (hcd : Relaid c.rest d.rest) :
    Tree.ListSameForm (repeatFind step n c).1 (repeatFind step m d).1 ∧
      Relaid (repeatFind step n c).2.rest (repeatFind step m d).2.rest := by
  induction n generalizing m c d with
  | zero => omega
  | succ n ih =>
    cases m with
    | zero => omega
    | succ m =>
      have hstep := h c.skip d.skip hcd.level
      have hc := c.skip_length_le
      have hd := d.skip_length_le
      rw [repeatFind, repeatFind]
      generalize hx : step c.skip = x at hstep ⊢
      generalize hy : step d.skip = y at hstep ⊢
      cases hstep with
      | none => exact ⟨.nil, hcd⟩
      | some hts hrest =>
        have hlt := (hs _ _ _ hx).2 rfl
        have hlt' := (hs _ _ _ hy).2 rfl
        obtain ⟨hmore, hend⟩ := ih (m := m) (by omega) (by omega) hrest
        exact ⟨hts.append hmore, hend⟩

/-- Whether the punctuation of a pattern holds nothing at which layout starts, and its repetitions always take
something. -/
def Pattern.isSteady : Pattern → Bool
  | .text s => s.toList.all (! Layout.isMark ·)
  | .rule _ => true
  | .seq p q | .alt p q => p.isSteady && q.isSteady
  | .opt p => p.isSteady
  | .star p => ! p.mayBeEmpty && p.isSteady

theorem Rule.phrase_isSteady {r : Rule} {p : Pattern} (h : r.definition = .phrase p) : p.isSteady = true := by
  cases r <;> cases h <;> decide

theorem Rematch.or {x y x' y' : Found} (h : Rematch x y) (h' : Rematch x' y') : Rematch (x.or x') (y.or y') := by
  cases h with
  | none => exact h'
  | some hts hrest => exact .some hts hrest

theorem Pattern.find_alike {call : Rule → Cursor → Found} (hs : ∀ r, Shortens r.mayBeEmpty (call r))
    (h : ∀ r, Resumes (call r)) {p : Pattern} (hp : p.isSteady = true) : Resumes (p.find call) := by
  induction p with
  | text s =>
    intro c d hcd
    simp only [find, Cursor.eat?]
    rcases hcd.relaid.meetAll hp with ⟨cs, ds, hc, hd, hrest⟩ | ⟨hc, hd⟩
    · rw [hc, hd]
      exact .some .nil hrest
    · rw [hc, hd]
      exact .none
  | rule r => exact h r
  | seq p q ihp ihq =>
    intro c d hcd
    simp only [isSteady, Bool.and_eq_true] at hp
    have hfirst := ihp hp.1 c d hcd
    rw [find, find]
    generalize p.find call c = x at hfirst ⊢
    generalize p.find call d = y at hfirst ⊢
    cases hfirst with
    | none => exact .none
    | @some ts us c d hts hrest =>
      have hsecond := ihq hp.2 c.skip d.skip hrest.level
      simp only [Option.bind_some]
      generalize q.find call c.skip = x at hsecond ⊢
      generalize q.find call d.skip = y at hsecond ⊢
      cases hsecond with
      | none => exact .none
      | some hmore hend => exact .some (hts.append hmore) hend
  | alt p q ihp ihq =>
    intro c d hcd
    simp only [isSteady, Bool.and_eq_true] at hp
    exact (ihp hp.1 c d hcd).or (ihq hp.2 c d hcd)
  | opt p ih =>
    intro c d hcd
    exact (ih hp c d hcd).or (.some .nil hcd.relaid)
  | star p ih =>
    intro c d hcd
    simp only [isSteady, Bool.and_eq_true, Bool.not_eq_true'] at hp
    have hshort : Shortens false (p.find call) := hp.1 ▸ find_shortens hs p
    have hfirst := ih hp.2 c d hcd
    rw [find, find]
    refine .or ?_ (.some .nil hcd.relaid)
    generalize p.find call c = x at hfirst ⊢
    generalize p.find call d = y at hfirst ⊢
    cases hfirst with
    | none => exact .none
    | some hts hrest =>
      obtain ⟨hmore, hend⟩ := repeatFind_alike hshort (ih hp.2) (Nat.lt_succ_self _) (Nat.lt_succ_self _) hrest
      exact .some (hts.append hmore) hend

/-! ## Rules -/

theorem Definition.find_alike {call : Rule → Cursor → Found} (hs : ∀ r, Shortens r.mayBeEmpty (call r))
    (h : ∀ r, Resumes (call r)) (r : Rule) : Resumes (r.definition.find call r) := by
  intro c d hcd
  cases hr : r.definition with
  | token scan =>
    have hscan := Rule.scan_steady hr _ _ hcd
    rw [find, find]
    generalize scan c.rest = x at hscan ⊢
    generalize scan d.rest = y at hscan ⊢
    cases hscan with
    | none => exact .none
    | some hrest => exact .some (.cons (.token trivial) .nil) hrest
  | phrase p =>
    have hfind := Pattern.find_alike hs h (Rule.phrase_isSteady hr) c d hcd
    rw [find, find]
    generalize p.find call c = x at hfind ⊢
    generalize p.find call d = y at hfind ⊢
    cases hfind with
    | none => exact .none
    | some hts hrest => exact .some (.cons (.phrase trivial hts) .nil) hrest

theorem Rule.within_alike (fuel : Nat) (r : Rule) : Resumes (Rule.within fuel r) := by
  induction fuel generalizing r with
  | zero => exact fun _ _ _ => .none
  | succ fuel ih => exact Definition.find_alike (Rule.within_shortens fuel) ih r

/-- On texts that differ in layout only, a rule finds alike trees or fails on both. -/
theorem Rule.find_alike (r : Rule) : Resumes r.find := by
  intro c d hcd
  have hrank := r.rank_lt
  -- fuel that is enough for the longer of the texts
  have hc : Rule.within (80 * (c.rest.length + d.rest.length + 1)) r c = r.find c := Rule.within_eq_find (by omega)
  have hd : Rule.within (80 * (c.rest.length + d.rest.length + 1)) r d = r.find d := Rule.within_eq_find (by omega)
  rw [← hc, ← hd]
  exact Rule.within_alike _ r c d hcd

/-- A script may start with layout. -/
theorem Rule.find_program (c : Cursor) : Rule.program.find c =
    ((Pattern.seq (.star Rule.statement) Rule.endOfInput).find Rule.find c.skip).map fun s =>
      ([.phrase .program c.offset s.2.offset s.1], s.2) := by
  have hempty : (Pattern.text "").find Rule.find c = some ([], c) := by
    simp [Pattern.find, Cursor.eat?, Cursor.after, Cursor.byteLength, List.isPrefixOf?]
  rw [Rule.find_eq, Rule.definition, Definition.find, Pattern.all, Pattern.find, hempty, Option.bind_some,
    Option.map_map]
  rfl

/-- What differs in layout only from a script is an alike script. -/
theorem Tree.ofText_alike {text text' : List Char} {t : Tree} (h : Relaid text text') (ht : Tree.ofText text = .ok [t]) :
    ∃ u, Tree.ofText text' = .ok [u] ∧ t.SameForm u := by
  obtain ⟨c, hc⟩ := Tree.ofText_eq_ok.1 ht
  have hparts := Pattern.find_alike Rule.find_shortens Rule.find_alike
    (p := .seq (.star Rule.statement) Rule.endOfInput) rfl (Cursor.skip ⟨0, text⟩) (Cursor.skip ⟨0, text'⟩) h.level
  simp only [Tree.ofText_eq_ok, Rule.find_program] at hc ⊢
  generalize Pattern.find Rule.find _ (Cursor.skip ⟨0, text⟩) = x at hparts hc
  generalize Pattern.find Rule.find _ (Cursor.skip ⟨0, text'⟩) = y at hparts ⊢
  cases hparts with
  | none => cases hc
  | some hts _ =>
    cases hc
    exact ⟨_, ⟨_, rfl⟩, .phrase trivial hts⟩

end Stepwise
