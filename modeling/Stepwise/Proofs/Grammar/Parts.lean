import Stepwise.Proofs.Grammar.Derivation
import Stepwise.Syntax.OfTree

/-!
# The parts of derived trees

A derived phrase has the parts that its pattern allows. The lemmas here take derivations apart by the form of the pattern:
a sequence, a choice of rules (`Derives.of_choice`), something optional, a list with commas (`Derives.of_commaList`), a
chain of operands and operators (`Derives.of_chain`). The rules of the parts are rules that the pattern mentions
(`Derives.rule_mem`). The lexeme of a derived token is one that its scanner yields (`Tree.Derived.lexeme_mem`).
-/

namespace Stepwise

/-! ## Patterns -/

/-- The rules of a choice between rules. -/
def Pattern.choices : Pattern → List Rule
  | rule r => [r]
  | alt p q => p.choices ++ q.choices
  | _ => []

/-- Whether a pattern is a choice between rules. -/
def Pattern.isChoice : Pattern → Bool
  | rule _ => true
  | alt p q => p.isChoice && q.isChoice
  | _ => false

/-- The rules that a pattern mentions. -/
def Pattern.mentioned : Pattern → List Rule
  | text _ => []
  | rule r => [r]
  | seq p q | alt p q => p.mentioned ++ q.mentioned
  | opt p | star p => p.mentioned

/-- Operators and operands by turns. -/
inductive Chained (operand operator : Rule) : List Tree → Prop where
  | nil : Chained operand operator []
  | cons {op t : Tree} {rest : List Tree} (hop : op.rule = operator) (ht : t.rule = operand)
      (hrest : Chained operand operator rest) : Chained operand operator (op :: t :: rest)

namespace Pattern.Derives

variable {p q : Pattern} {ts : List Tree}

theorem of_seq (h : (Pattern.seq p q).Derives ts) : ∃ us vs, ts = us ++ vs ∧ p.Derives us ∧ q.Derives vs := by
  cases h with
  | seq hp hq => exact ⟨_, _, rfl, hp, hq⟩

theorem of_rule {r : Rule} (h : (Pattern.rule r).Derives ts) : ∃ t, ts = [t] ∧ t.rule = r := by
  cases h with
  | rule hr _ => exact ⟨_, rfl, hr⟩

theorem of_text {mark : String} (h : (Pattern.text mark).Derives ts) : ts = [] := by
  cases h
  rfl

/-- Punctuation leaves no tree. -/
theorem behind_text {mark : String} (h : (Pattern.seq (.text mark) q).Derives ts) : q.Derives ts := by
  obtain ⟨us, vs, rfl, hmark, hq⟩ := h.of_seq
  cases hmark
  exact hq

theorem before_text {mark : String} (h : (Pattern.seq p (.text mark)).Derives ts) : p.Derives ts := by
  obtain ⟨us, vs, rfl, hp, hmark⟩ := h.of_seq
  cases hmark
  simpa using hp

theorem of_parens (h : (Pattern.parens p).Derives ts) : p.Derives ts := h.behind_text.before_text

/-- The rule at the start of a sequence. -/
theorem of_rule_seq {r : Rule} (h : (Pattern.seq (.rule r) q).Derives ts) :
    ∃ t us, ts = t :: us ∧ t.rule = r ∧ q.Derives us := by
  obtain ⟨_, us, rfl, hp, hq⟩ := h.of_seq
  obtain ⟨t, rfl, hr⟩ := hp.of_rule
  exact ⟨t, us, rfl, hr, hq⟩

theorem of_alt (h : (Pattern.alt p q).Derives ts) : p.Derives ts ∨ q.Derives ts := by
  cases h with
  | left hp => exact .inl hp
  | right hq => exact .inr hq

theorem of_opt (h : (Pattern.opt p).Derives ts) : ts = [] ∨ p.Derives ts := by
  cases h with
  | absent _ => exact .inl rfl
  | present hp => exact .inr hp

/-- Punctuation that may be missing leaves no tree either. -/
theorem of_opt_text {mark : String} (h : (Pattern.opt (.text mark)).Derives ts) : ts = [] :=
  h.of_opt.elim id of_text

theorem of_opt_rule {r : Rule} (h : (Pattern.opt (.rule r)).Derives ts) : ts = [] ∨ ∃ t, ts = [t] ∧ t.rule = r :=
  h.of_opt.imp id of_rule

theorem of_choice (hp : p.isChoice) (h : p.Derives ts) : ∃ t, ts = [t] ∧ t.rule ∈ p.choices := by
  induction p generalizing ts with
  | rule r =>
    obtain ⟨t, rfl, hr⟩ := h.of_rule
    exact ⟨t, rfl, by simp [choices, hr]⟩
  | alt p q ihp ihq =>
    obtain ⟨hpc, hqc⟩ := Bool.and_eq_true_iff.1 hp
    rcases h.of_alt with h | h
    · obtain ⟨t, rfl, ht⟩ := ihp hpc h
      exact ⟨t, rfl, List.mem_append_left _ ht⟩
    · obtain ⟨t, rfl, ht⟩ := ihq hqc h
      exact ⟨t, rfl, List.mem_append_right _ ht⟩
  | _ => cases hp

theorem rounds_of_eq : ∀ {s : Pattern} {ts : List Tree}, s.Derives ts → s = .star p →
    ∃ rounds : List (List Tree), ts = rounds.flatten ∧ ∀ us ∈ rounds, p.Derives us
  | _, _, .none _, _ => ⟨[], rfl, by simp⟩
  | _, _, .more hfirst hmore, hs => by
    obtain ⟨rounds, rfl, hrounds⟩ := rounds_of_eq hmore hs
    cases hs
    exact ⟨_ :: rounds, rfl, List.forall_mem_cons.2 ⟨hfirst, hrounds⟩⟩
  | _, _, .text _, hs | _, _, .rule _ _, hs | _, _, .seq _ _, hs | _, _, .left _, hs | _, _, .right _, hs
  | _, _, .absent _, hs | _, _, .present _, hs => by cases hs

/-- A repetition gives its rounds one after the other. -/
theorem of_star (h : (Pattern.star p).Derives ts) :
    ∃ rounds : List (List Tree), ts = rounds.flatten ∧ ∀ us ∈ rounds, p.Derives us := rounds_of_eq h rfl

/-- The trees have rules that the pattern mentions. -/
theorem rule_mem (h : p.Derives ts) : ∀ t ∈ ts, t.rule ∈ p.mentioned := by
  induction p generalizing ts with
  | text mark => simp [h.of_text]
  | rule r =>
    obtain ⟨t, rfl, ht⟩ := h.of_rule
    simpa [mentioned] using ht
  | seq p q ihp ihq =>
    obtain ⟨us, vs, rfl, hp, hq⟩ := h.of_seq
    exact List.forall_mem_append.2
      ⟨fun t ht => List.mem_append_left _ (ihp hp t ht), fun t ht => List.mem_append_right _ (ihq hq t ht)⟩
  | alt p q ihp ihq =>
    intro t ht
    rcases h.of_alt with h | h
    · exact List.mem_append_left _ (ihp h t ht)
    · exact List.mem_append_right _ (ihq h t ht)
  | opt p ih =>
    rcases h.of_opt with rfl | h
    · simp
    · exact ih h
  | star p ih =>
    obtain ⟨rounds, rfl, hrounds⟩ := h.of_star
    intro t ht
    obtain ⟨us, hus, ht⟩ := List.mem_flatten.1 ht
    exact ih (hrounds us hus) t ht

theorem rule_eq {r : Rule} (h : p.Derives ts) (hp : p.mentioned ⊆ [r]) : ∀ t ∈ ts, t.rule = r := fun t ht =>
  List.mem_singleton.1 (hp (h.rule_mem t ht))

theorem of_commaList {r : Rule} (h : (commaList (.rule r)).Derives ts) : ∀ t ∈ ts, t.rule = r :=
  h.rule_eq (by simp [commaList, mentioned])

theorem of_chain {operand operator : Rule} (h : (chain operand operator).Derives ts) :
    ∃ t rest, ts = t :: rest ∧ t.rule = operand ∧ Chained operand operator rest := by
  obtain ⟨t, _, rfl, ht, hrest⟩ := h.of_rule_seq
  obtain ⟨rounds, rfl, hrounds⟩ := hrest.of_star
  refine ⟨t, rounds.flatten, rfl, ht, ?_⟩
  clear hrest h
  induction rounds with
  | nil => exact .nil
  | cons us rounds ih =>
    obtain ⟨hus, hmore⟩ := List.forall_mem_cons.1 hrounds
    obtain ⟨op, _, rfl, hop, hoperand⟩ := hus.of_rule_seq
    obtain ⟨u, rfl, hu⟩ := hoperand.of_rule
    exact .cons hop hu (ih hmore)

end Pattern.Derives

/-- The parts of a loop: a keyword, the parts of the header that are there, and the body. -/
theorem forStmt_parts {start stop : Nat} {parts : List Tree} (h : Tree.Derived (.phrase .forStmt start stop parts)) :
    ∃ kw inits tests updates body, parts = kw :: (inits ++ (tests ++ (updates ++ [body]))) ∧ kw.rule = .kwFor ∧
      (Pattern.opt (.rule .forInit)).Derives inits ∧ (Pattern.opt (.rule .forTest)).Derives tests ∧
      (Pattern.opt (.rule .forUpdate)).Derives updates ∧ body.rule = .statement := by
  obtain ⟨p, hr, hp⟩ := h.parts
  cases hr
  obtain ⟨kw, _, hparts, hrule, hheader⟩ := hp.of_rule_seq
  obtain ⟨inits, _, rfl, hinits, htail⟩ := hheader.behind_text.of_seq
  obtain ⟨tests, _, rfl, htests, htail⟩ := htail.behind_text.of_seq
  obtain ⟨updates, _, rfl, hupdates, htail⟩ := htail.behind_text.of_seq
  obtain ⟨body, rfl, hbody⟩ := htail.behind_text.of_rule
  exact ⟨kw, inits, tests, updates, body, hparts, hrule, hinits, htests, hupdates, hbody⟩

/-! ## Trees of a rule -/

namespace Tree.Derived

variable {t : Tree}

/-- The tree of a phrase rule is a phrase. -/
theorem eq_phrase {p : Pattern} (h : t.Derived) (hr : t.rule.definition = .phrase p) :
    ∃ start stop parts, t = .phrase t.rule start stop parts ∧ p.Derives parts := by
  cases h with
  | token hr' hs => cases hr.symm.trans hr'
  | phrase hr' hp =>
    cases hr.symm.trans hr'
    exact ⟨_, _, _, rfl, hp⟩

/-- The tree of a token rule is a token. -/
theorem eq_token {scan : Scanner} (h : t.Derived) (hr : t.rule.definition = .token scan) :
    ∃ start stop l cs rest, t = .token t.rule start stop l ∧ scan cs = some (l, rest) := by
  cases h with
  | token hr' hs =>
    cases hr.symm.trans hr'
    exact ⟨_, _, _, _, _, rfl, hs⟩
  | phrase hr' hp => cases hr.symm.trans hr'

end Tree.Derived

/-! ## Lexemes -/

namespace Scanner

/-- All lexemes of the scanner are listed. -/
def Yields (scan : Scanner) (lexemes : List String) : Prop :=
  ∀ cs l rest, scan cs = some (l, rest) → String.ofList l ∈ lexemes

theorem Yields.orElse {a b : Scanner} {ls ms : List String} (ha : a.Yields ls) (hb : b.Yields ms) :
    (orElse a b).Yields (ls ++ ms) := by
  intro cs l rest h
  unfold Scanner.orElse at h
  split at h
  · next r hr => cases h; exact List.mem_append_left _ (ha _ _ _ hr)
  · exact List.mem_append_right _ (hb _ _ _ h)

theorem yields_symbol (s : String) (notBefore : List Char) : (symbol s notBefore).Yields [s] := by
  intro cs l rest h
  unfold symbol at h
  split at h
  · cases h
  · split at h
    · cases h; simp
    · split at h
      · cases h
      · cases h; simp

theorem yields_plain (symbols : List String) : (plain symbols).Yields symbols := by
  induction symbols with
  | nil => intro _ _ _ h; cases h
  | cons s symbols ih => exact (yields_symbol s []).orElse ih

theorem yields_multiplicativeOp : multiplicativeOp.Yields ["*", "/", "%"] :=
  (yields_symbol _ _).orElse ((yields_symbol _ _).orElse ((yields_symbol _ _).orElse (yields_plain [])))

theorem yields_keyword (words : List String) : (keyword words).Yields words := by
  intro cs l rest h
  unfold keyword at h
  split at h
  next w r _ =>
  split at h
  · next hany =>
    cases h
    obtain ⟨k, hk, heq⟩ := List.any_eq_true.1 hany
    rw [← eq_of_beq heq, String.ofList_toList]
    exact hk
  · cases h

end Scanner

/-- The lexeme of a derived token is one that its scanner yields. -/
theorem Tree.Derived.lexeme_mem {t : Tree} {scan : Scanner} {lexemes : List String} (h : t.Derived)
    (hr : t.rule.definition = .token scan) (hs : scan.Yields lexemes) : t.lexeme ∈ lexemes := by
  obtain ⟨start, stop, l, cs, rest, ht, hl⟩ := h.eq_token hr
  rw [ht]
  exact hs cs l rest hl

end Stepwise
