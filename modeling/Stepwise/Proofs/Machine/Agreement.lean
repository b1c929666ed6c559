import Stepwise.Proofs.Machine.Simulation

/-!
# The machine and the reference agree

The other direction: where the machine ends, the reference has a derivation (`covered`). A unit takes a step, so the
number of steps that the machine still takes goes down with every unit; the induction is on a bound for it, and inside
on the statement for blocks. With the simulation this gives **agreement** for whole scripts: the reference ends if and
only if the machine does, and then they show the same (`ofProgram_yields_iff`).
-/

namespace Stepwise

open Machine

/-! ## Units are counted -/

section Counting

variable {scoping : Scoping}

mutual

theorem UnitRuns.steps_lt {α : Type} {act : Eval α} {span : Span} {l : Option Scope} {s t : Store}
    {res : Except RuntimeError (α × Option Scope)} : UnitRuns scoping act span l s res t → s.steps < t.steps
  | .done _ hc => hc.steps_le
  | .callFails _ hc => hc.steps_le
  | .fails _ => Nat.lt_succ_self _

theorem CallsRun.steps_le {calls : List Activation} {s t : Store} {e : Option RuntimeError} :
    CallsRun scoping calls s e t → s.steps ≤ t.steps
  | .nil => Nat.le_refl _
  | .cons hb _ hc => Nat.le_trans hb.steps_le hc.steps_le
  | .fails hb => hb.steps_le

theorem StmtRuns.steps_le {name : String} {st : Stmt} {l : Option Scope} {s t : Store} {x : Exit} :
    StmtRuns scoping name st l s x t → s.steps ≤ t.steps
  | .block hb => hb.steps_le
  | .empty => Nat.le_refl _
  | .plain _ hu | .plainFails _ hu | .ifFails hu | .loopPassed hu | .loopFails hu | .ret hu | .retFails hu =>
    Nat.le_of_lt hu.steps_lt
  | .ifElse hu hb => Nat.le_trans (Nat.le_of_lt hu.steps_lt) hb.steps_le
  | .loop hu hb => Nat.le_trans (Nat.le_of_lt hu.steps_lt) hb.steps_le

theorem BodyRuns.steps_le {name : String} {body : List Stmt} {l : Option Scope} {s t : Store} {x : Exit} :
    BodyRuns scoping name body l s x t → s.steps ≤ t.steps
  | .nil => Nat.le_refl _
  | .cons hs hb => Nat.le_trans hs.steps_le hb.steps_le
  | .stop hs _ => hs.steps_le

theorem RoundsRun.steps_le {name : String} {test update : Option Expr} {body : Stmt} {sp : Span} {l : Option Scope}
    {s t : Store} {x : Exit} : RoundsRun scoping name test update body sp l s x t → s.steps ≤ t.steps
  | .again hs hu ht hr =>
    Nat.le_trans hs.steps_le (Nat.le_trans hu.steps_le (Nat.le_trans (Nat.le_of_lt ht.steps_lt) hr.steps_le))
  | .passed hs hu ht | .testFails hs hu ht =>
    Nat.le_trans hs.steps_le (Nat.le_trans hu.steps_le (Nat.le_of_lt ht.steps_lt))
  | .updateFails hs hu => Nat.le_trans hs.steps_le hu.steps_le
  | .stop hs _ => hs.steps_le

theorem UpdateRuns.steps_le {update : Option Expr} {l : Option Scope} {s t : Store}
    {res : Except RuntimeError (Option Scope)} : UpdateRuns scoping update l s res t → s.steps ≤ t.steps
  | .none => Nat.le_refl _
  | .some hu | .fails hu => Nat.le_of_lt hu.steps_lt

end

end Counting

/-! ## Where the machine ends -/

section Covered

variable (m : Machine) (r : Summary)

/-- The reference runs `st` to an exit wherever the machine ends within fewer than `n` further units. -/
def Covered (n : Nat) (st : Stmt) : Prop :=
  ∀ (p : Place) (l : Option Scope) (s : Store) (queue : List Work), l.isSome = p.inCall → r.steps < s.steps + n →
    (m.inside p s [] l (.stmt st :: queue)).Ends r → ∃ x t, StmtRuns m.scoping p.name st l s x t

variable {m r} {n : Nat}

theorem calls_covered (h : ∀ st, Covered m r n st) (below : List Activation) (queue : List Work) :
    ∀ (calls : List Activation) (s : Store), (∀ a ∈ calls, a.IsFresh) → r.steps < s.steps + n →
      (m.resume s (calls ++ below) queue).Ends r → ∃ e t, CallsRun m.scoping calls s e t
  | [], s, _, _, _ => ⟨none, s, .nil⟩
  | a :: calls, s, hf, hn, he => by
    obtain ⟨scope, body, name, rfl⟩ := hf a List.mem_cons_self
    let p : Place := .call name (calls ++ below) queue
    obtain ⟨x, t, hx⟩ := h body p (some scope) s [] rfl hn he
    have ht := hx.steps_le
    have he := (hx.ends (p := p) rfl rfl []).2.1 he
    have more (he : (m.outside p t []).Ends r) (hc : x.error? = none) :
        ∃ e t, CallsRun m.scoping (⟨⟨scope, [.stmt body]⟩, name, none⟩ :: calls) s e t := by
      obtain ⟨e, u, hu⟩ := calls_covered h below queue calls t (fun b hb => hf b (List.mem_cons_of_mem _ hb)) (by omega) he
      exact ⟨e, u, .cons hx hc hu⟩
    cases x with
    | next k => exact more ((ends_inside_done rfl).1 he) rfl
    | left => exact more he rfl
    | failed e => exact ⟨some e, t, .fails hx⟩

/-- A unit after which the machine ends has a derivation. -/
theorem unit_covered (h : ∀ st, Covered m r n st) {α : Type} {act : Eval α} {span : Span} {l : Option Scope} {s : Store}
    (hn : r.steps < s.steps + (n + 1))
    (he : ∀ a c, act (s.context m.scoping l span) = .ok a c → (∀ b ∈ c.pushed, b.IsFresh) ∧
      ∃ calls queue, (m.resume (s.after span c) (c.pushed ++ calls) queue).Ends r) :
    ∃ res t, UnitRuns m.scoping act span l s res t := by
  cases ha : act (s.context m.scoping l span) with
  | error e c => exact ⟨_, _, .fails ha⟩
  | ok a c =>
    obtain ⟨hf, calls, queue, he⟩ := he a c ha
    have hs : (s.after span c).steps = s.steps + 1 := rfl
    obtain ⟨e, t, hc⟩ := calls_covered h calls queue c.pushed (s.after span c) hf (by omega) he
    cases e with
    | none => exact ⟨_, _, .done ha hc⟩
    | some e => exact ⟨_, _, .callFails ha hc⟩

theorem next_covered (h : ∀ st, Covered m r n st) {p : Place} {α : Type} {act : Eval α} {l : Option Scope} {s : Store}
    {unit : Work} {f : α → List Work} {queue rest : List Work} (hu : unit.run = act >>= fun a => pure (.next (f a)))
    (hq : takeUnit? queue = some (unit, rest)) (hl : l.isSome = p.inCall) (hn : r.steps < s.steps + (n + 1))
    (he : (m.inside p s [] l queue).Ends r) : ∃ res t, UnitRuns m.scoping act unit.span l s res t := by
  refine unit_covered h hn fun a c ha => ?_
  have hr : unit.run (s.context m.scoping l unit.span) = .ok (.next (f a)) c := by rw [hu, Eval.bind_pure_apply, ha]
  exact ⟨(Work.run_proper hr).fresh, _, _, (ends_inside_next hq hl hr).1 he⟩

theorem body_covered {p : Place} (queue : List Work) : ∀ (body : List Stmt) (_ : ∀ st ∈ body, Covered m r n st)
    (l : Option Scope) (s : Store), l.isSome = p.inCall → r.steps < s.steps + n →
      (m.inside p s [] l (body.map Work.stmt ++ queue)).Ends r → ∃ x t, BodyRuns m.scoping p.name body l s x t
  | [], _, l, s, _, _, _ => ⟨.next l, s, .nil⟩
  | st :: body, h, l, s, hl, hn, he => by
    obtain ⟨x, t, hx⟩ := h st List.mem_cons_self p l s _ hl hn he
    have ht := hx.steps_le
    have ⟨hk, he'⟩ := hx.ends (r := r) rfl hl (body.map Work.stmt ++ queue)
    cases x with
    | next k =>
      obtain ⟨y, u, hy⟩ := body_covered queue body (fun st hst => h st (List.mem_cons_of_mem _ hst)) k t hk (by omega)
        (he'.1 he)
      exact ⟨y, u, .cons hx hy⟩
    | left => exact ⟨_, _, .stop hx rfl⟩
    | failed e => exact ⟨_, _, .stop hx rfl⟩

theorem update_covered (h : ∀ st, Covered m r n st) {p : Place} {l : Option Scope} {s : Store} {queue : List Work}
    (hl : l.isSome = p.inCall) (hn : r.steps < s.steps + (n + 1)) : ∀ update : Option Expr,
    (m.inside p s [] l ((update.map Work.loopUpdate).toList ++ queue)).Ends r →
      ∃ res t, UpdateRuns m.scoping update l s res t
  | none, _ => ⟨.ok l, s, .none⟩
  | some e, he => by
    obtain ⟨res, t, hu⟩ := next_covered h (run_loopUpdate e) rfl hl hn he
    cases res with
    | ok a => exact ⟨_, _, .some hu⟩
    | error err => exact ⟨_, _, .fails hu⟩

/-- The rounds of a loop. Every round has a test, which is a unit, so the bound goes down with it. -/
theorem rounds_covered {p : Place} {init : Option ForInit} {test update : Option Expr} {body : Stmt} {span : Span}
    {queue : List Work} : ∀ (n : Nat), (∀ k ≤ n, ∀ st, Covered m r k st) → ∀ (l : Option Scope) (s : Store),
      l.isSome = p.inCall → r.steps < s.steps + n →
      (m.inside p s [] l (loopRound (.for init test update body span) ++ queue)).Ends r →
      ∃ x t, RoundsRun m.scoping p.name test update body (testSpan test span) l s x t
  | 0, _, l, s, _, hn, he => absurd he.steps_le (Nat.not_le.2 hn)
  | n + 1, h, l, s, hl, hn, he => by
    have hn' := h n (Nat.le_succ n)
    rw [loopRound_append] at he
    let check := Work.loopCheck (.for init test update body span)
    obtain ⟨x, t, hb⟩ := h (n + 1) (Nat.le_refl _) body p l s _ hl hn he
    have ⟨hk, hbe⟩ := hb.ends (r := r) rfl hl ((update.map Work.loopUpdate).toList ++ check :: queue)
    have ht := hb.steps_le
    cases x with
    | left => exact ⟨_, _, .stop hb rfl⟩
    | failed e => exact ⟨_, _, .stop hb rfl⟩
    | next k =>
      replace he := hbe.1 he
      obtain ⟨res, u, hu⟩ := update_covered hn' hk (by omega) update he
      have hut := hu.steps_le
      cases res with
      | error e => exact ⟨_, _, .updateFails hb hu⟩
      | ok j =>
        have ⟨hj, hue⟩ := hu.ends (r := r) hk (check :: queue)
        replace he := hue.1 he
        have hrun := run_loopCheck init test update body span
        obtain ⟨res, v, hv⟩ := next_covered hn' hrun rfl hj (by omega) he
        rw [span_loopCheck] at hv
        have hvt := hv.steps_lt
        rcases res with e | ⟨go, i⟩
        · exact ⟨_, _, .testFails hb hu hv⟩
        · have hq : takeUnit? (check :: queue) = some (check, queue) := rfl
          have ⟨hi, hve⟩ := hv.ends.next (r := r) hrun (span_loopCheck ..) hq hj
          cases go with
          | false => exact ⟨_, _, .passed hb hu hv⟩
          | true =>
            obtain ⟨x, w, hr⟩ := rounds_covered n (fun k hk => h k (Nat.le_succ_of_le hk)) i v hi (by omega)
              (hve.1 he)
            exact ⟨x, w, .again hb hu hv hr⟩

theorem plain_covered (h : ∀ st, Covered m r n st) {st : Stmt} (hp : st.isPlain) : Covered m r (n + 1) st := by
  intro p l s queue hl hn he
  obtain ⟨res, t, hu⟩ := next_covered h (run_plain hp) (takeUnit?_visible (Stmt.transparent_of_isPlain hp) queue) hl hn he
  rcases res with e | ⟨_, k⟩
  · exact ⟨_, _, .plainFails hp hu⟩
  · exact ⟨_, _, .plain hp hu⟩

mutual

theorem stmt_covered (h : ∀ k ≤ n, ∀ st, Covered m r k st) : ∀ st, Covered m r (n + 1) st
  | .block body span, p, l, s, queue, hl, hn, he => by
    obtain ⟨x, t, hb⟩ := body_covered queue body (list_covered h body) l s hl hn
      ((ends_inside_congr (takeUnit?_block body span queue) hl).1 he)
    exact ⟨x, t, .block hb⟩
  | .empty span, p, l, s, queue, _, _, _ => ⟨.next l, s, .empty⟩
  | .declare _ _ _, p, l, s, queue, hl, hn, he => plain_covered (h n (Nat.le_refl n)) rfl p l s queue hl hn he
  | .function _, p, l, s, queue, hl, hn, he => plain_covered (h n (Nat.le_refl n)) rfl p l s queue hl hn he
  | .expr _ _, p, l, s, queue, hl, hn, he => plain_covered (h n (Nat.le_refl n)) rfl p l s queue hl hn he
  | .unsupported _ _, p, l, s, queue, hl, hn, he => plain_covered (h n (Nat.le_refl n)) rfl p l s queue hl hn he
  | .ifElse test thenS elseS span, p, l, s, queue, hl, hn, he => by
    have hrun := run_ifElse test thenS elseS span
    obtain ⟨res, t, hu⟩ := next_covered (h n (Nat.le_refl n)) hrun rfl hl hn he
    have ht := hu.steps_lt
    rcases res with e | ⟨v, k⟩
    · exact ⟨_, _, .ifFails hu⟩
    · have ⟨hk, hue⟩ := hu.ends.next (r := r) hrun rfl (takeUnit?_visible rfl queue) hl
      obtain ⟨x, w, hb⟩ := body_covered queue _ (fun st _ => h n (Nat.le_refl n) st) k t hk (by omega) (hue.1 he)
      exact ⟨x, w, .ifElse hu hb⟩
  | .for init test update body span, p, l, s, queue, hl, hn, he => by
    have hrun := run_for init test update body span
    obtain ⟨res, t, hu⟩ := next_covered (h n (Nat.le_refl n)) hrun rfl hl hn he
    have ht := hu.steps_lt
    rcases res with e | ⟨go, k⟩
    · exact ⟨_, _, .loopFails hu⟩
    · have ⟨hk, hue⟩ := hu.ends.next (r := r) hrun rfl (takeUnit?_visible rfl queue) hl
      cases go with
      | false => exact ⟨_, _, .loopPassed hu⟩
      | true =>
        obtain ⟨x, w, hr⟩ := rounds_covered n h k t hk (by omega) (hue.1 he)
        exact ⟨x, w, .loop hu hr⟩
  | .ret value span, p, l, s, queue, hl, hn, he => by
    have hu : ∃ res t, UnitRuns m.scoping (returnValue p.name value) span l s res t := by
      refine unit_covered (h n (Nat.le_refl n)) hn fun a c ha => ?_
      have ⟨hf, hr⟩ := ends_return (r := r) ha hl queue
      exact ⟨hf, _, _, hr.1 he⟩
    obtain ⟨res, t, hu⟩ := hu
    rcases res with e | ⟨_, k⟩
    · exact ⟨_, _, .retFails hu⟩
    · exact ⟨_, _, .ret hu⟩

theorem list_covered (h : ∀ k ≤ n, ∀ st, Covered m r k st) : ∀ body : List Stmt, ∀ st ∈ body, Covered m r (n + 1) st
  | st :: _, _, .head _ => stmt_covered h st
  | _ :: body, st, .tail _ hst => list_covered h body st hst

end

/-- **Coverage.** Where the machine ends, the reference has a derivation. -/
theorem covered (m : Machine) (r : Summary) (n : Nat) : ∀ st, Covered m r n st := by
  induction n using Nat.strongRecOn with
  | ind n ih =>
    cases n with
    | zero => exact fun st p l s queue _ hn he => absurd he.steps_le (Nat.not_le.2 hn)
    | succ n => exact stmt_covered fun k hk => ih k (Nat.lt_succ_of_le hk)

end Covered

/-! ## Whole scripts -/

/-- A script yields what its machine ends with. -/
theorem ofProgram_yields_iff (program : Program) (warnings : List Finding) (scoping : Scoping)
    (document : Option Document) (r : Summary) :
    program.Yields scoping document r ↔ (ofProgram program warnings scoping document).Ends r := by
  let m := ofProgram program warnings scoping document
  have hm : m.inside .top (.start document) [] none [.stmt program.body] = m := rfl
  have main {x : Exit} {t : Store} (h : StmtRuns scoping "(global)" program.body none (.start document) x t) :
      m.Ends r ↔ t.summary x.error? = r := by
    rw [← hm, (StmtRuns.ends (m := m) h (p := .top) rfl rfl []).2]
    cases x with
    | next l => exact ends_idle rfl
    | left => exact ends_idle rfl
    | failed e => exact Iff.rfl
  constructor
  · rintro ⟨x, t, h, hr⟩
    exact (main h).2 hr
  · intro he
    have hn : r.steps < (Store.start document).steps + (r.steps + 1) := by
      rw [Nat.add_comm]
      exact Nat.lt_succ_self _
    obtain ⟨x, t, h⟩ := covered m r (r.steps + 1) program.body .top none (.start document) [] rfl hn he
    exact ⟨x, t, h, (main h).1 he⟩

/-- **Agreement.** The reference ends for a loaded script if and only if stepping its machine finishes. Then both show
the same global scope, logs, listeners, document and error, and an observer is shown as many steps as there are units. -/
theorem load_agrees {source : String} {document : Option Document} {scoping : Scoping} {m : Machine}
    (h : load source document scoping = .ok m) : ∃ program, Program.parse source = .ok program ∧
      ((∃ r, program.Yields scoping document r) ↔ ∃ n, (m.stepN n).finished = true) ∧
      ∀ n, (m.stepN n).finished = true →
        (∀ r, program.Yields scoping document r ↔ (m.stepN n).summary = r) ∧ m.shownIn n = (m.stepN n).summary.steps := by
  obtain ⟨program, hp, -, rfl⟩ := load_ok h
  have hy := ofProgram_yields_iff program program.findings scoping document
  refine ⟨program, hp, ⟨?_, ?_⟩, fun n hn => ⟨fun r => (hy r).trans (ends_iff_of_stepN_finished r n hn), ?_⟩⟩
  · rintro ⟨r, hr⟩
    obtain ⟨n, hn, -⟩ := (hy r).1 hr
    exact ⟨n, hn⟩
  · rintro ⟨n, hn⟩
    exact ⟨_, (hy _).2 ⟨n, hn, rfl⟩⟩
  · show _ = (stepN n _).steps
    rw [stepN_steps]
    exact (Nat.zero_add _).symm

/-- A call that returns from inside a loop. -/
def loopScript : String := "function f(n) { for (let i = 0; i < n; i++) { if (i) return i; } }\nf(3);"

/-- The script of eight units that has a `return` in a loop. -/
theorem load_agrees_loopScript : ∃ m program, load loopScript none .snapshot = .ok m ∧
    Program.parse loopScript = .ok program ∧ (m.stepN 8).finished = true ∧
    (∀ r, program.Yields .snapshot none r ↔ (m.stepN 8).summary = r) ∧ m.shownIn 8 = (m.stepN 8).summary.steps := by
  have hrun : (load loopScript none .snapshot).toOption.any (fun m => (m.stepN 8).finished) = true := by decide +kernel
  obtain ⟨m, h, hf⟩ := exists_loaded hrun
  obtain ⟨program, hp, -, hn⟩ := load_agrees h
  exact ⟨m, program, h, hp, hf, hn 8 hf⟩

end Stepwise
