import Stepwise.Proofs.Grammar.Outcome
import Stepwise.Proofs.Syntax.Legible
import Stepwise.Proofs.Syntax.Shape

/-!
# Trees that build an expression

What the text of an expression is read as is `Expr.reread`, up to spans, and nothing if the text is refused. An outcome
agrees with that (`Agrees`) if both are expressions of the same shape, or both are none.

Trees build an expression when, as part of any text, they are turned into what it is read as: a single tree (`Builds`),
or a tree that further ones extend (`Extends`), as the operands of a chain and the accessors of a call do. Since the
trees behind are not read when an earlier one is refused, what they do is stated as a step from one outcome to the next
(`Extension.Leads`).
-/

namespace Stepwise

/-! ## Outcomes -/

/-- The outcome is the expected value, up to what `shape` forgets; it is a fault where nothing is expected. -/
def Agrees {ε α β : Type} (shape : α → β) (expected : Option α) (outcome : Except ε α) : Prop :=
  outcome.toOption.map shape = expected.map shape

namespace Agrees

variable {ε α α' β β' : Type} {shape : α → α'} {shape' : β → β'} {a b : α} {expected : Option α} {outcome : Except ε α}

theorem ok (h : shape a = shape b) : Agrees shape (some b) (.ok a : Except ε α) := congrArg some h

theorem error (fault : ε) : Agrees shape none (.error fault) := rfl

/-- An expected value is there. -/
theorem exists_ok (h : Agrees shape (some b) outcome) : ∃ a, outcome = .ok a ∧ shape a = shape b := by
  cases outcome with
  | error fault => cases h
  | ok a => exact ⟨a, rfl, Option.some.inj h⟩

theorem exists_error (h : Agrees shape none outcome) : ∃ fault, outcome = .error fault := by
  cases outcome with
  | error fault => exact ⟨fault, rfl⟩
  | ok a => cases h

theorem bind {f : α → Option β} {g : α → Except ε β} (h : Agrees shape expected outcome)
    (hfg : ∀ a b, shape a = shape b → Agrees shape' (f b) (g a)) :
    Agrees shape' (expected.bind f) (outcome >>= g) := by
  cases expected with
  | none =>
    obtain ⟨fault, rfl⟩ := h.exists_error
    rfl
  | some b =>
    obtain ⟨a, rfl, hab⟩ := h.exists_ok
    exact hfg a b hab

theorem map {f g : α → β} (h : Agrees shape expected outcome)
    (hfg : ∀ a b, shape a = shape b → shape' (g a) = shape' (f b)) :
    Agrees shape' (expected.map f) (outcome >>= fun a => .ok (g a)) := by
  rw [Option.map_eq_bind]
  exact h.bind fun a b hab => .ok (hfg a b hab)

end Agrees

/-! ## Building -/

/-- A single tree that is turned into what the expression is read as. -/
def Builds (e : Expr) (ts : List Tree) : Prop :=
  ∃ t, ts = [t] ∧ ∀ text, Agrees Expr.shape e.reread (Expr.ofTree text t)

/-- How trees extend an expression; the text and the span give the spans of the result. -/
abbrev Extension := List Char → Span → Expr → List Tree → Except BuildError Expr

/-- The trees are a step from what one expression is read as to what the other is; others may follow them. -/
def Extension.Leads (extend : Extension) (e : Expr) (vs : List Tree) (e' : Expr) : Prop :=
  ∀ text span, ∃ step : Expr → Except BuildError Expr,
    (∀ a ws, extend text span a (vs ++ ws) = step a >>= fun b => extend text span b ws) ∧
      ∀ outcome, Agrees Expr.shape e.reread outcome → Agrees Expr.shape e'.reread (outcome >>= step)

/-- A first tree that the others extend to what the expression is read as; more may follow them. -/
def Extends (extend : Extension) (e : Expr) (ts us : List Tree) : Prop :=
  ∃ t, ts = [t] ∧ ∀ text span, ∃ outcome, Agrees Expr.shape e.reread outcome ∧
    ∀ vs, (Expr.ofTree text t >>= fun a => extend text span a (us ++ vs)) = outcome >>= fun b => extend text span b vs

section

variable {extend : Extension} {e e' : Expr} {ts us vs : List Tree}

theorem Builds.extends (h : Builds e ts) : Extends extend e ts [] := by
  obtain ⟨t, rfl, ht⟩ := h
  exact ⟨t, rfl, fun text span => ⟨_, ht text, fun vs => rfl⟩⟩

theorem Extends.snoc (h : Extends extend e ts us) (hvs : extend.Leads e vs e') : Extends extend e' ts (us ++ vs) := by
  obtain ⟨t, rfl, ht⟩ := h
  refine ⟨t, rfl, fun text span => ?_⟩
  obtain ⟨outcome, hagrees, hmore⟩ := ht text span
  obtain ⟨step, hstep, hleads⟩ := hvs text span
  refine ⟨outcome >>= step, hleads outcome hagrees, fun ws => ?_⟩
  rw [List.append_assoc, hmore, bind_assoc]
  exact congrArg (outcome >>= ·) (funext fun b => hstep b ws)

/-- The tree and those that extend it, with none behind them. -/
theorem Extends.agrees {t : Tree} (hnil : ∀ text span a, extend text span a [] = .ok a) (h : Extends extend e [t] us)
    (text : List Char) (span : Span) :
    Agrees Expr.shape e.reread (Expr.ofTree text t >>= fun a => extend text span a us) := by
  obtain ⟨_, heq, ht⟩ := h
  cases heq
  obtain ⟨outcome, hagrees, hmore⟩ := ht text span
  have hall := hmore []
  simp only [List.append_nil, hnil] at hall
  rw [hall]
  exact (bind_pure outcome).symm ▸ hagrees

end

/-! ## Rules that build -/

section

variable {p : Pattern} {r : Rule} {cs rest : List Char} {e : Expr}

/-- A phrase of one part that stands for the part; only their faults may differ. -/
theorem Pattern.Gives.wrap (hr : r.definition = .phrase p)
    (hwrap : ∀ text start stop t,
      (Expr.ofTree text (.phrase r start stop [t])).toOption = (Expr.ofTree text t).toOption)
    (h : p.Gives cs (Builds e) rest) : (Pattern.rule r).Gives cs (Builds e) rest := by
  refine (Gives.phrase hr h).mono ?_
  rintro _ ⟨start, stop, us, ⟨t, rfl, ht⟩, rfl⟩
  exact ⟨_, rfl, fun text => by rw [Agrees, hwrap]; exact ht text⟩

theorem Pattern.Gives.leaf {scan : Scanner} {lexeme : List Char} (hr : r.definition = .token scan)
    (hs : scan cs = some (lexeme, rest))
    (hleaf : ∀ span, Agrees Expr.shape e.reread (Expr.ofToken r lexeme span)) :
    (Pattern.rule r).Gives cs (Builds e) rest := by
  refine (Gives.token hr hs).mono ?_
  rintro _ ⟨start, stop, rfl⟩
  exact ⟨_, rfl, fun text => by rw [Expr.ofTree]; exact hleaf _⟩

end

end Stepwise
