import Stepwise.Grammar.Match
import Stepwise.Proofs.Grammar.Lexeme

/-!
# Recognition without fuel

`Rule.run` carries the failed attempts along and stops at a bound on the rules inside each other. Neither matters for
what it finds:

* **attempts**: `Rule.within` computes the match alone (`Rule.run_fst`);
* **progress**: a match never ends before its start, and only the whole script and the end of the text match nothing
  (`Rule.within_shortens`);
* **fuel**: a rule only calls rules of lower rank before it has taken a character, so beyond `80` calls for each
  character left the bound changes nothing (`Rule.within_stable`).

So `Rule.find`, which has no fuel, satisfies the equation of the grammar (`Rule.find_eq`), and a script is read by it
(`Tree.ofText_eq_ok`).
-/

namespace Stepwise

/-- The trees of a match and where it ends. -/
abbrev Found := Option (List Tree × Cursor)

/-! ## Matches without attempts -/

/-- Further repetitions of `step`, each after layout, at most `fuel` of them. -/
def repeatFind (step : Cursor → Found) : Nat → Cursor → List Tree × Cursor
  | 0, c => ([], c)
  | fuel + 1, c =>
    match step c.skip with
    | none => ([], c)
    | some r => (r.1 ++ (repeatFind step fuel r.2).1, (repeatFind step fuel r.2).2)

/-- What a pattern matches, given what rules match. -/
def Pattern.find (call : Rule → Cursor → Found) : Pattern → Cursor → Found
  | .text s, c => (c.eat? s).map fun c => ([], c)
  | .rule r, c => call r c
  | .seq p q, c => (p.find call c).bind fun r => (q.find call r.2.skip).map fun s => (r.1 ++ s.1, s.2)
  | .alt p q, c => (p.find call c).or (q.find call c)
  | .opt p, c => (p.find call c).or (some ([], c))
  | .star p, c =>
    let more (r : List Tree × Cursor) := repeatFind (p.find call) (r.2.rest.length + 1) r.2
    ((p.find call c).map fun r => (r.1 ++ (more r).1, (more r).2)).or (some ([], c))

/-- What the definition of `r` matches, given what rules match. -/
def Definition.find (call : Rule → Cursor → Found) (r : Rule) : Definition → Cursor → Found
  | .token scan, c => (scan c.rest).map fun s =>
    ([.token r c.offset (c.after s.1 s.2).offset s.1], c.after s.1 s.2)
  | .phrase p, c => (p.find call c).map fun s => ([.phrase r c.offset s.2.offset s.1], s.2)

/-- What a rule matches, with at most `fuel` rules inside each other. -/
def Rule.within : Nat → Rule → Cursor → Found
  | 0, _, _ => none
  | fuel + 1, r, c => r.definition.find (Rule.within fuel) r c

theorem repeatMatch_eq {step : Matcher} {find : Cursor → Found} (h : ∀ c a, (step c a).1 = find c) (fuel : Nat)
    (c : Cursor) (a : Attempts) : ((repeatMatch step fuel c a).1, (repeatMatch step fuel c a).2.1) =
      repeatFind find fuel c := by
  induction fuel generalizing c a with
  | zero => rfl
  | succ fuel ih =>
    have hstep := h c.skip a
    rw [repeatMatch, repeatFind, ← hstep]
    split
    · next hs => simp [hs]
    · next ts d b hs =>
      have hrest := ih d b
      simp only [hs]
      rw [← hrest]

theorem Pattern.run_fst {call : Rule → Matcher} {find : Rule → Cursor → Found}
    (h : ∀ r c a, (call r c a).1 = find r c) (p : Pattern) (c : Cursor) (a : Attempts) :
    (p.run call c a).1 = p.find find c := by
  induction p generalizing c a with
  | text s => rfl
  | rule r => exact h r c a
  | seq p q ihp ihq =>
    rw [Pattern.find, ← ihp c a, Pattern.run]
    split
    · next hp => simp [hp]
    · next ts d b hp =>
      simp only [hp, Option.bind_some]
      rw [← ihq d.skip b]
      split <;> simp_all
  | alt p q ihp ihq =>
    rw [Pattern.find, ← ihp c a, Pattern.run]
    split
    · next b hp => simp [hp, ihq]
    · next hp => simp [hp]
  | opt p ih =>
    rw [Pattern.find, ← ih c a, Pattern.run]
    split <;> simp_all
  | star p ih =>
    rw [Pattern.find, ← ih c a, Pattern.run]
    split
    · next hp => simp [hp]
    · next ts d b hp =>
      have hrest := repeatMatch_eq (ih · ·) (d.rest.length + 1) d b
      simp [hp, ← hrest]

/-- The attempts never influence the match. -/
theorem Rule.run_fst (fuel : Nat) (r : Rule) (c : Cursor) (a : Attempts) :
    (Rule.run fuel r c a).1 = Rule.within fuel r c := by
  induction fuel generalizing r c a with
  | zero => rfl
  | succ fuel ih =>
    rw [Rule.run, Rule.within]
    split
    · next scan hr =>
      rw [hr, Definition.find]
      split <;> simp_all
    · next p hr =>
      rw [hr, Definition.find, ← Pattern.run_fst ih p c a]
      split <;> simp_all

/-! ## Progress -/

theorem Cursor.skip_rest (c : Cursor) : c.skip.rest = skipped c.rest := rfl

theorem Cursor.skip_length_le (c : Cursor) : c.skip.rest.length ≤ c.rest.length := skipped_length_le c.rest

/-- What `find` matches never ends before its start, and after it unless it may be empty. -/
def Shortens (mayBeEmpty : Bool) (find : Cursor → Found) : Prop :=
  ∀ c ts d, find c = some (ts, d) →
    d.rest.length ≤ c.rest.length ∧ (mayBeEmpty = false → d.rest.length < c.rest.length)

/-- The rules that match the empty text. -/
def Rule.mayBeEmpty : Rule → Bool
  | .program | .endOfInput => true
  | _ => false

def Pattern.mayBeEmpty : Pattern → Bool
  | .text s => s.isEmpty
  | .rule r => r.mayBeEmpty
  | .seq p q => p.mayBeEmpty && q.mayBeEmpty
  | .alt p q => p.mayBeEmpty || q.mayBeEmpty
  | .opt _ | .star _ => true

theorem Cursor.eat?_eq_some {c d : Cursor} {s : String} (h : c.eat? s = some d) :
    c.rest = s.toList ++ d.rest ∧ d = c.after s.toList d.rest := by
  obtain ⟨rest, hrest, rfl⟩ := Option.map_eq_some_iff.1 h
  exact ⟨(List.append_eq_of_isPrefixOf?_eq_some hrest).symm, rfl⟩

theorem repeatFind_length_le {step : Cursor → Found} {b : Bool} (h : Shortens b step) (fuel : Nat) (c : Cursor) :
    (repeatFind step fuel c).2.rest.length ≤ c.rest.length := by
  induction fuel generalizing c with
  | zero => exact Nat.le_refl _
  | succ fuel ih =>
    rw [repeatFind]
    split
    · exact Nat.le_refl _
    · next r hr =>
      have hstep := (h _ _ _ hr).1
      have hskip := c.skip_length_le
      have hmore := ih r.2
      exact Nat.le_trans hmore (Nat.le_trans hstep hskip)

theorem Pattern.find_shortens {call : Rule → Cursor → Found} (h : ∀ r, Shortens r.mayBeEmpty (call r)) (p : Pattern) :
    Shortens p.mayBeEmpty (p.find call) := by
  induction p with
  | text s =>
    intro c ts d hd
    obtain ⟨d, hd, heq⟩ := Option.map_eq_some_iff.1 hd
    cases heq
    obtain ⟨hc, -⟩ := Cursor.eat?_eq_some hd
    rw [hc, List.length_append]
    refine ⟨Nat.le_add_left _ _, fun hs => ?_⟩
    have hne : s.toList ≠ [] := by simpa [mayBeEmpty] using hs
    have := List.length_pos_iff.2 hne
    omega
  | rule r => exact h r
  | seq p q ihp ihq =>
    intro c ts d hd
    obtain ⟨r, hr, hd⟩ := Option.bind_eq_some_iff.1 hd
    obtain ⟨s, hs, hd⟩ := Option.map_eq_some_iff.1 hd
    cases hd
    obtain ⟨hp, hp'⟩ := ihp _ _ _ hr
    obtain ⟨hq, hq'⟩ := ihq _ _ _ hs
    have hskip := r.2.skip_length_le
    refine ⟨by omega, fun hne => ?_⟩
    rcases Bool.and_eq_false_iff.1 hne with hpe | hqe
    · have := hp' hpe; omega
    · have := hq' hqe; omega
  | alt p q ihp ihq =>
    intro c ts d hd
    rw [find, Option.or_eq_some_iff] at hd
    rw [mayBeEmpty, Bool.or_eq_false_iff]
    rcases hd with hd | ⟨-, hd⟩
    · exact ⟨(ihp _ _ _ hd).1, fun hne => (ihp _ _ _ hd).2 hne.1⟩
    · exact ⟨(ihq _ _ _ hd).1, fun hne => (ihq _ _ _ hd).2 hne.2⟩
  | opt p ih =>
    intro c ts d hd
    rw [find, Option.or_eq_some_iff] at hd
    refine ⟨?_, fun hne => by cases hne⟩
    rcases hd with hd | ⟨-, hd⟩
    · exact (ih _ _ _ hd).1
    · cases hd; exact Nat.le_refl _
  | star p ih =>
    intro c ts d hd
    rw [find, Option.or_eq_some_iff] at hd
    refine ⟨?_, fun hne => by cases hne⟩
    rcases hd with hd | ⟨-, hd⟩
    · obtain ⟨r, hr, hd⟩ := Option.map_eq_some_iff.1 hd
      cases hd
      exact Nat.le_trans (repeatFind_length_le ih _ _) (ih _ _ _ hr).1
    · cases hd; exact Nat.le_refl _

theorem Rule.phrase_mayBeEmpty {r : Rule} {p : Pattern} (h : r.definition = .phrase p) :
    p.mayBeEmpty = r.mayBeEmpty := by
  cases r <;> cases h <;> rfl

theorem Definition.find_shortens {call : Rule → Cursor → Found} (h : ∀ r, Shortens r.mayBeEmpty (call r)) (r : Rule) :
    Shortens r.mayBeEmpty (r.definition.find call r) := by
  intro c ts d hd
  cases hr : r.definition with
  | token scan =>
    rw [hr] at hd
    obtain ⟨s, hs, hd⟩ := Option.map_eq_some_iff.1 hd
    cases hd
    by_cases hend : r = .endOfInput
    · subst hend
      cases hr
      refine ⟨?_, fun hne => by cases hne⟩
      cases hc : c.rest with
      | nil => rw [hc] at hs; cases hs; exact Nat.le_refl _
      | cons x cs => rw [hc] at hs; cases hs
    · obtain ⟨hcut, hne⟩ := Rule.scan_divides hend hr _ _ _ hs
      have hlen := congrArg List.length hcut
      have hpos := List.length_pos_iff.2 hne
      rw [List.length_append] at hlen
      show s.2.length ≤ _ ∧ (_ → s.2.length < _)
      omega
  | phrase p =>
    rw [hr] at hd
    obtain ⟨s, hs, hd⟩ := Option.map_eq_some_iff.1 hd
    cases hd
    rw [← Rule.phrase_mayBeEmpty hr]
    exact Pattern.find_shortens h p _ _ _ hs

theorem Rule.within_shortens (fuel : Nat) (r : Rule) : Shortens r.mayBeEmpty (Rule.within fuel r) := by
  induction fuel generalizing r with
  | zero => intro c ts d h; cases h
  | succ fuel ih => exact Definition.find_shortens ih r

/-! ## Fuel -/

/-- The rules that a pattern may call before it has taken a character. -/
def Pattern.heads : Pattern → List Rule
  | .text _ => []
  | .rule r => [r]
  | .seq p q => p.heads ++ if p.mayBeEmpty then q.heads else []
  | .alt p q => p.heads ++ q.heads
  | .opt p | .star p => p.heads

/-- How many rules may stand inside each other at one place, at most. -/
def Rule.rank : Rule → Nat
  | .program => 17
  | .statement => 16
  | .exprStmt | .forInit | .forTest | .forUpdate => 15
  | .expression | .arrowBody | .argList => 14
  | .assignment => 13
  | .ternaryExpr => 12
  | .logicalOrExpr => 11
  | .logicalAndExpr => 10
  | .equalityExpr => 9
  | .comparisonExpr => 8
  | .additiveExpr => 7
  | .multiplicativeExpr => 6
  | .unaryExpr => 5
  | .updateAfter | .assignExpr => 4
  | .callExpr => 3
  | .primary | .declareStmt | .arrowFunction => 2
  | .literal | .functionExpr | .declaration | .declarator | .functionDecl | .paramList | .ifStmt | .elseClause | .forStmt
  | .whileStmt | .breakStmt | .continueStmt | .returnStmt | .arrowParams | .updateBefore | .accessor | .objectProp => 1
  | _ => 0

theorem Rule.rank_lt (r : Rule) : r.rank < 80 := by cases r <;> decide

/-- No rule starts with itself. -/
theorem Rule.rank_heads {r : Rule} {p : Pattern} (h : r.definition = .phrase p) : ∀ s ∈ p.heads, s.rank < r.rank := by
  cases r <;> cases h <;> decide

theorem repeatFind_congr {step step' : Cursor → Found} {b : Bool} (hs : Shortens b step) {n : Nat}
    (h : ∀ c, c.rest.length ≤ n → step c = step' c) (fuel : Nat) (c : Cursor) (hc : c.rest.length ≤ n) :
    repeatFind step fuel c = repeatFind step' fuel c := by
  induction fuel generalizing c with
  | zero => rfl
  | succ fuel ih =>
    have hskip := c.skip_length_le
    rw [repeatFind, repeatFind, ← h c.skip (by omega)]
    split
    · rfl
    · next r hr =>
      have hle := (hs _ _ _ hr).1
      rw [ih r.2 (by omega)]

/-- A pattern finds the same if the rules it calls do: its heads where it starts, and all rules further on. -/
theorem Pattern.find_congr {call call' : Rule → Cursor → Found} (hs : ∀ r, Shortens r.mayBeEmpty (call r)) (p : Pattern)
    (n : Nat) (hlater : ∀ r c, c.rest.length < n → call r c = call' r c)
    (hhere : ∀ r ∈ p.heads, ∀ c, c.rest.length ≤ n → call r c = call' r c) :
    ∀ c, c.rest.length ≤ n → p.find call c = p.find call' c := by
  induction p generalizing n with
  | text s => intro c _; rfl
  | rule r => exact hhere r (by simp [heads])
  | seq p q ihp ihq =>
    intro c hc
    rw [find, find, ← ihp n hlater (fun r hr => hhere r (by simp [heads, hr])) c hc]
    cases hp : p.find call c with
    | none => rfl
    | some r =>
      obtain ⟨hle, hlt⟩ := find_shortens hs p _ _ _ hp
      have hskip := r.2.skip_length_le
      have hq : q.find call r.2.skip = q.find call' r.2.skip := by
        cases he : p.mayBeEmpty with
        | true => exact ihq n hlater (fun r hr => hhere r (by simp [heads, he, hr])) _ (by omega)
        | false =>
          have hlt := hlt he
          exact ihq r.2.skip.rest.length (fun r c h => hlater r c (by omega)) (fun r _ c h => hlater r c (by omega)) _
            (Nat.le_refl _)
      simp only [Option.bind_some, hq]
  | alt p q ihp ihq =>
    intro c hc
    rw [find, find, ihp n hlater (fun r hr => hhere r (by simp [heads, hr])) c hc,
      ihq n hlater (fun r hr => hhere r (by simp [heads, hr])) c hc]
  | opt p ih =>
    intro c hc
    rw [find, find, ih n hlater hhere c hc]
  | star p ih =>
    intro c hc
    rw [find, find, ← ih n hlater hhere c hc]
    cases hp : p.find call c with
    | none => rfl
    | some r =>
      have hle := (find_shortens hs p _ _ _ hp).1
      simp only [Option.map_some]
      rw [repeatFind_congr (find_shortens hs p) (ih n hlater hhere) _ r.2 (by omega)]

/-- A rule finds the same if it calls the same rules: those of lower rank where it starts, and all rules further on. -/
theorem Rule.definition_find_congr {call call' : Rule → Cursor → Found} (hs : ∀ r, Shortens r.mayBeEmpty (call r))
    (r : Rule) (c : Cursor) (hlater : ∀ s d, d.rest.length < c.rest.length → call s d = call' s d)
    (hhere : ∀ s d, s.rank < r.rank → d.rest.length ≤ c.rest.length → call s d = call' s d) :
    r.definition.find call r c = r.definition.find call' r c := by
  cases hr : r.definition with
  | token scan => rfl
  | phrase p =>
    have hp := Pattern.find_congr hs p c.rest.length hlater (fun s h d => hhere s d (Rule.rank_heads hr s h)) c
      (Nat.le_refl _)
    rw [Definition.find, Definition.find, hp]

/-- Beyond `80` calls for each character left the fuel changes nothing. -/
theorem Rule.within_stable (n m : Nat) (r : Rule) (c : Cursor) (hn : 80 * c.rest.length + r.rank < n)
    (hm : 80 * c.rest.length + r.rank < m) : Rule.within n r c = Rule.within m r c := by
  induction n generalizing m r c with
  | zero => omega
  | succ n ih =>
    cases m with
    | zero => omega
    | succ m =>
      refine Rule.definition_find_congr (Rule.within_shortens n) r c (fun s d hd => ?_) (fun s d hs hd => ?_)
      · have hrank := s.rank_lt
        exact ih m s d (by omega) (by omega)
      · exact ih m s d (by omega) (by omega)

/-! ## Matches without fuel -/

/-- What a rule matches. -/
def Rule.find (r : Rule) (c : Cursor) : Found := Rule.within (80 * (c.rest.length + 1)) r c

theorem Rule.within_eq_find {fuel : Nat} {r : Rule} {c : Cursor} (h : 80 * c.rest.length + r.rank < fuel) :
    Rule.within fuel r c = r.find c := by
  have hrank := r.rank_lt
  exact Rule.within_stable _ _ r c h (by omega)

/-- The equation of the grammar. -/
theorem Rule.find_eq (r : Rule) (c : Cursor) : r.find c = r.definition.find Rule.find r c := by
  have hrank := r.rank_lt
  rw [← Rule.within_eq_find (Nat.lt_succ_self (80 * c.rest.length + r.rank)), within]
  refine Rule.definition_find_congr (Rule.within_shortens _) r c (fun s d hd => ?_) (fun s d hs hd => ?_)
  · have hrank := s.rank_lt
    exact Rule.within_eq_find (by omega)
  · exact Rule.within_eq_find (by omega)

theorem Rule.find_shortens (r : Rule) : Shortens r.mayBeEmpty r.find :=
  fun c ts d h => Rule.within_shortens _ r c ts d h

/-- A script is read without fuel. -/
theorem Tree.ofText_eq_ok {text : List Char} {ts : List Tree} :
    Tree.ofText text = .ok ts ↔ ∃ c, Rule.program.find ⟨0, text⟩ = some (ts, c) := by
  have h : (Rule.program.run (Rule.depth text) ⟨0, text⟩ Attempts.none).1 = Rule.program.find ⟨0, text⟩ :=
    Rule.run_fst _ _ _ _
  rw [← h]
  unfold ofText
  split
  · next hs => simp [hs]
  · next hs => simp [hs]

end Stepwise
