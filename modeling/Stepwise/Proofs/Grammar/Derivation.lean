import Stepwise.Proofs.Grammar.Recognition

/-!
# Matches are derivations

The trees of a match follow the grammar: a token holds a lexeme of its scanner, and the parts of a phrase are derived by
the pattern of its rule (`Tree.Derived`, `Pattern.Derives`). What a rule finds is one derived tree of that rule
(`Rule.find_derived`).
-/

namespace Stepwise

mutual

/-- A tree that follows the grammar. -/
inductive Tree.Derived : Tree → Prop where
  | token {r : Rule} {scan : Scanner} {cs lexeme rest : List Char} {start stop : Nat} (hr : r.definition = .token scan)
      (hs : scan cs = some (lexeme, rest)) : Tree.Derived (.token r start stop lexeme)
  | phrase {r : Rule} {p : Pattern} {parts : List Tree} {start stop : Nat} (hr : r.definition = .phrase p)
      (hp : Pattern.Derives p parts) : Tree.Derived (.phrase r start stop parts)

/-- The trees that a pattern stands for. -/
inductive Pattern.Derives : Pattern → List Tree → Prop where
  | text (s : String) : Pattern.Derives (.text s) []
  | rule {r : Rule} {t : Tree} (hr : t.rule = r) (ht : Tree.Derived t) : Pattern.Derives (.rule r) [t]
  | seq {p q : Pattern} {ts us : List Tree} (hp : Pattern.Derives p ts) (hq : Pattern.Derives q us) :
      Pattern.Derives (.seq p q) (ts ++ us)
  | left {p q : Pattern} {ts : List Tree} (hp : Pattern.Derives p ts) : Pattern.Derives (.alt p q) ts
  | right {p q : Pattern} {ts : List Tree} (hq : Pattern.Derives q ts) : Pattern.Derives (.alt p q) ts
  | absent (p : Pattern) : Pattern.Derives (.opt p) []
  | present {p : Pattern} {ts : List Tree} (hp : Pattern.Derives p ts) : Pattern.Derives (.opt p) ts
  | none (p : Pattern) : Pattern.Derives (.star p) []
  | more {p : Pattern} {ts us : List Tree} (hp : Pattern.Derives p ts) (hmore : Pattern.Derives (.star p) us) :
      Pattern.Derives (.star p) (ts ++ us)

end

/-- `P` holds of a tree and of all trees inside it. -/
inductive Tree.Everywhere (P : Tree → Prop) : Tree → Prop where
  | token {r : Rule} {start stop : Nat} {lexeme : List Char} (h : P (.token r start stop lexeme)) :
      Everywhere P (.token r start stop lexeme)
  | phrase {r : Rule} {start stop : Nat} {parts : List Tree} (h : P (.phrase r start stop parts))
      (hparts : ∀ t ∈ parts, Everywhere P t) : Everywhere P (.phrase r start stop parts)

theorem Tree.Everywhere.here {P : Tree → Prop} {t : Tree} (h : t.Everywhere P) : P t := by
  cases h with
  | token h | phrase h _ => exact h

theorem Tree.Everywhere.parts {P : Tree → Prop} {r : Rule} {start stop : Nat} {parts : List Tree}
    (h : Tree.Everywhere P (.phrase r start stop parts)) : ∀ t ∈ parts, t.Everywhere P := by
  cases h with
  | phrase _ hparts => exact hparts

theorem Tree.Everywhere.inside {P : Tree → Prop} {t : Tree} (h : t.Everywhere P) : ∀ u ∈ t.parts, u.Everywhere P := by
  cases h with
  | token => exact fun _ hu => nomatch hu
  | phrase _ hparts => exact hparts

mutual

theorem Tree.Derived.everywhere : ∀ {t : Tree}, t.Derived → t.Everywhere Tree.Derived
  | _, .token hr hs => .token (.token hr hs)
  | _, .phrase hr hp => .phrase (.phrase hr hp) hp.everywhere

theorem Pattern.Derives.everywhere : ∀ {p : Pattern} {ts : List Tree}, p.Derives ts →
    ∀ t ∈ ts, t.Everywhere Tree.Derived
  | _, _, .text _ | _, _, .absent _ | _, _, .none _ => fun _ ht => absurd ht List.not_mem_nil
  | _, _, .rule _ h => fun _ ht => List.mem_singleton.1 ht ▸ h.everywhere
  | _, _, .seq hp hq => fun t ht => (List.mem_append.1 ht).elim (hp.everywhere t) (hq.everywhere t)
  | _, _, .left h | _, _, .right h | _, _, .present h => h.everywhere
  | _, _, .more hp hmore => fun t ht => (List.mem_append.1 ht).elim (hp.everywhere t) (hmore.everywhere t)

end

/-! ## What is found is derived -/

/-- One derived tree of rule `r`. -/
def Rule.Derives (r : Rule) (ts : List Tree) : Prop := ∃ t, ts = [t] ∧ t.rule = r ∧ t.Derived

section

variable {call : Rule → Cursor → Found}

theorem repeatFind_derives {p : Pattern} (hp : ∀ c ts d, p.find call c = some (ts, d) → p.Derives ts) (fuel : Nat)
    (c : Cursor) : (Pattern.star p).Derives (repeatFind (p.find call) fuel c).1 := by
  induction fuel generalizing c with
  | zero => exact .none p
  | succ fuel ih =>
    rw [repeatFind]
    split
    · exact .none p
    · next r hr => exact .more (hp _ _ _ hr) (ih r.2)

theorem Pattern.find_derives (h : ∀ r c ts d, call r c = some (ts, d) → r.Derives ts) (p : Pattern) :
    ∀ c ts d, p.find call c = some (ts, d) → p.Derives ts := by
  induction p with
  | text s =>
    intro c ts d hd
    obtain ⟨_, -, heq⟩ := Option.map_eq_some_iff.1 hd
    cases heq
    exact .text s
  | rule r =>
    intro c ts d hd
    obtain ⟨t, rfl, hr, ht⟩ := h r c ts d hd
    exact .rule hr ht
  | seq p q ihp ihq =>
    intro c ts d hd
    obtain ⟨r, hr, hd⟩ := Option.bind_eq_some_iff.1 hd
    obtain ⟨s, hs, heq⟩ := Option.map_eq_some_iff.1 hd
    cases heq
    exact .seq (ihp _ _ _ hr) (ihq _ _ _ hs)
  | alt p q ihp ihq =>
    intro c ts d hd
    rcases Option.or_eq_some_iff.1 hd with hd | ⟨-, hd⟩
    · exact .left (ihp _ _ _ hd)
    · exact .right (ihq _ _ _ hd)
  | opt p ih =>
    intro c ts d hd
    rcases Option.or_eq_some_iff.1 hd with hd | ⟨-, hd⟩
    · exact .present (ih _ _ _ hd)
    · cases hd; exact .absent p
  | star p ih =>
    intro c ts d hd
    rcases Option.or_eq_some_iff.1 hd with hd | ⟨-, hd⟩
    · obtain ⟨r, hr, heq⟩ := Option.map_eq_some_iff.1 hd
      cases heq
      exact .more (ih _ _ _ hr) (repeatFind_derives ih _ _)
    · cases hd; exact .none p

theorem Definition.find_derives (h : ∀ r c ts d, call r c = some (ts, d) → r.Derives ts) {r : Rule} {c d : Cursor}
    {ts : List Tree} (hd : r.definition.find call r c = some (ts, d)) : r.Derives ts := by
  cases hr : r.definition with
  | token scan =>
    rw [hr] at hd
    obtain ⟨s, hs, heq⟩ := Option.map_eq_some_iff.1 hd
    cases heq
    exact ⟨_, rfl, rfl, .token hr hs⟩
  | phrase p =>
    rw [hr] at hd
    obtain ⟨s, hs, heq⟩ := Option.map_eq_some_iff.1 hd
    cases heq
    exact ⟨_, rfl, rfl, .phrase hr (Pattern.find_derives h p _ _ _ hs)⟩

end

theorem Rule.within_derives (fuel : Nat) : ∀ r c ts d, Rule.within fuel r c = some (ts, d) → r.Derives ts := by
  induction fuel with
  | zero => intro r c ts d h; cases h
  | succ fuel ih => exact fun r c ts d h => Definition.find_derives ih h

/-- What a rule finds is one derived tree of that rule. -/
theorem Rule.find_derived {r : Rule} {c d : Cursor} {ts : List Tree} (h : r.find c = some (ts, d)) : r.Derives ts :=
  Rule.within_derives _ r c ts d h

/-- A script is one derived tree. -/
theorem Tree.ofText_derived {text : List Char} {ts : List Tree} (h : Tree.ofText text = .ok ts) :
    Rule.program.Derives ts := by
  obtain ⟨c, hc⟩ := Tree.ofText_eq_ok.1 h
  exact Rule.find_derived hc

/-- The parts of a derived phrase. -/
theorem Tree.Derived.parts {r : Rule} {start stop : Nat} {parts : List Tree} (h : Tree.Derived (.phrase r start stop parts)) :
    ∃ p, r.definition = .phrase p ∧ p.Derives parts := by
  cases h with
  | phrase hr hp => exact ⟨_, hr, hp⟩

/-- The lexeme of a derived token. -/
theorem Tree.Derived.lexeme {r : Rule} {start stop : Nat} {l : List Char} (h : Tree.Derived (.token r start stop l)) :
    ∃ scan cs rest, r.definition = .token scan ∧ scan cs = some (l, rest) := by
  cases h with
  | token hr hs => exact ⟨_, _, _, hr, hs⟩

end Stepwise
