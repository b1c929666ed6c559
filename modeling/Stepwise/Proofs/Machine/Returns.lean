import Stepwise.Proofs.Machine.Addressed
import Stepwise.Proofs.Machine.Origin
import Stepwise.Proofs.Machine.Units

/-!
# Returns leave their own call

A `return` outside of a function is an error of the script, and a script with errors is not loaded. So the top level
never has a `return` in its queue (`topWithin_invariant`), whatever commands a machine gets. A `return` is then always a
unit of a call. It takes that call off the stack and leaves all other calls as they are, those below it and those that
were made while its value was evaluated.
-/

namespace Stepwise

/-! ## The queue of the top level -/

/-- The top level has no work but that of the script outside of functions. -/
def TopWithin (p : Program) (stack : Stack) : Prop := ∀ w ∈ stack.global.queue, w.visits 0 ⊆ p.visits

theorem Work.run_within {w : Work} {c d : Context} {o : Outcome} (depth : Nat) (hp : c.pushed = [])
    (h : w.run c = .ok o d) : o.Within depth w := by
  have hc : c.Proper c.scoping c.line c.locals.isSome := ⟨rfl, rfl, rfl, by simp [hp]⟩
  exact ((w.run_keeps Context.proper_closed depth fun _ _ => trivial).of_ok hc h).2

theorem topWithin_invariant (p : Program) : Machine.Invariant fun stack _ => TopWithin p stack where
  dropped h := h
  noted _ _ h := h
  call_line _ _ := trivial
  call_next _ h _ _ := h
  call_leave _ h _ _ := h
  call_error _ h _ _ := h
  top_line _ _ := trivial
  top_next _ h ht hu := by
    have ⟨hw, hr⟩ := takeUnit?_visits ht h
    exact List.forall_mem_append.2 ⟨fun w hwork => List.Subset.trans (Work.run_within 0 rfl hu w hwork) hw, hr⟩
  top_leave _ _ _ _ := by simp [TopWithin]
  top_error _ h ht _ := (takeUnit?_visits ht h).2
  idle _ := by simp [TopWithin]
  fired _ h _ _ := h

/-! ## Calls that are left -/

namespace Machine

/-- The next unit of an unfinished machine, and the depth of the frame that it is taken from: `0` is the top level. -/
def nextUnit? (m : Machine) : Option (Nat × Work) :=
  match nextReady m.stack.calls with
  | (_, some r) => some (r.below.length + 1, r.unit)
  | (_, none) => (takeUnit? m.stack.global.queue).map fun u => (0, u.1)

section Returns

variable {source : String} {document : Option Document} {scoping : Scoping} {m : Machine} {value : Option Expr}
  {span : Span}

theorem ret_not_visited {p : Program} (hf : ∀ f ∈ p.findings, f.isError = false) :
    ⟨.stmt (.ret value span), 0⟩ ∉ p.visits := by
  intro hx
  have h := hf _ (mem_findings.2 ⟨.returnOutside, by simp [CheckRule.all], _, hx, rfl⟩)
  cases h

/-- No `return` is ever the next unit of the top level. -/
theorem takeUnit?_ne_ret (h : load source document scoping = .ok m) (commands : List Command) (queue : List Work) :
    takeUnit? (m.performAll commands).stack.global.queue ≠ some (.stmt (.ret value span), queue) := by
  intro ht
  obtain ⟨program, -, hf, rfl⟩ := load_ok h
  have htop : TopWithin program (ofProgram program program.findings scoping document).stack := by
    simp [TopWithin, ofProgram, Stack.start, Work.visits, Program.visits]
  have hx := (takeUnit?_visits ht ((topWithin_invariant program).performAll commands htop)).1
  have hr : ⟨.stmt (.ret value span), 0⟩ ∈ (Work.stmt (.ret value span)).visits 0 := by simp [Work.visits, Stmt.visits]
  exact ret_not_visited hf (hx hr)

/-- **Returns.** When the next unit is a `return`, it belongs to a call. If its value can be evaluated, the step takes
that call off the stack that the evaluation left, at the depth where the unit was taken from, and nothing else: the calls
below it and those that the evaluation pushed stay as they are, and so does the queue of the top level. Only then are
calls that have no work left taken off. -/
theorem return_leaves_own_call (h : load source document scoping = .ok m) (commands : List Command) {depth : Nat}
    (hf : (m.performAll commands).finished = false)
    (hu : (m.performAll commands).nextUnit? = some (depth, .stmt (.ret value span))) :
    0 < depth ∧ ∃ done owner queue below,
      (m.performAll commands).stack.calls = done ++ { owner with queue } :: below ∧ depth = below.length + 1 ∧
      (∀ a ∈ done, takeUnit? a.queue = none) ∧ takeUnit? queue = some (.stmt (.ret value span), owner.queue) ∧
      ∀ v c, evalOption value ((((m.performAll commands).dropped done (owner :: below)).announce
          (.stmt (.ret value span))).context (some owner.scope)) = .ok v c →
        ∃ left : Machine, (m.performAll commands).step = ⟨left.settle, true⟩ ∧
          Stack.remove? ⟨left.stack.global, c.pushed ++ owner.after c [] :: below⟩ depth =
            some (owner.after c [], left.stack) ∧
          left.stack.calls = c.pushed ++ below ∧
          left.stack.global.queue = (m.performAll commands).stack.global.queue := by
  generalize hn : m.performAll commands = n at hf hu ⊢
  obtain ⟨done, ready, hr⟩ : ∃ done ready, nextReady n.stack.calls = (done, ready) := ⟨_, _, rfl⟩
  rw [nextUnit?, hr] at hu
  cases ready with
  | none =>
    obtain ⟨u, hq, hd⟩ := Option.map_eq_some_iff.1 hu
    obtain ⟨unit, queue⟩ := u
    cases hd
    exact absurd (hn ▸ hq) (takeUnit?_ne_ret h commands queue)
  | some r =>
    obtain ⟨unit, owner, below⟩ := r
    cases hu
    obtain ⟨hd, queue, hc, hq⟩ := nextReady_some hr
    refine ⟨Nat.succ_pos _, done, owner, queue, below, hc, rfl, hd, hq, fun v c hv => ?_⟩
    have hrun : (Work.stmt (.ret value span)).run
        (((n.dropped done (owner :: below)).announce (.stmt (.ret value span))).context (some owner.scope)) =
          .ok (.leave v) c := by
      rw [run_ret, Eval.bind_pure_apply, hv]
    refine ⟨_, by rw [step_ready hf hr, runCall_leave hrun], ?_⟩
    have hs (k : Machine) : (k.concluded owner).stack = k.stack := k.concludedAll_stack [owner]
    rw [hs, dropped_eq]
    exact ⟨Stack.remove?_middle _ _ _ _, rfl, rfl⟩

/-- The names of the calls that the value of a `return` makes, if that is the next unit of the only call. -/
def returnCalls? (m : Machine) : Option (List String) :=
  match m.nextUnit?, m.stack.calls with
  | some (_, .stmt (.ret value span)), [a] =>
    match evalOption value ((m.announce (.stmt (.ret value span))).context (some a.scope)) with
    | .ok _ c => some (c.pushed.map (·.name))
    | .error _ _ => none
  | _, _ => none

theorem returnCalls?_some {names : List String} (h : m.returnCalls? = some names) : ∃ depth value span a v c,
    m.nextUnit? = some (depth, .stmt (.ret value span)) ∧ m.stack.calls = [a] ∧
      evalOption value ((m.announce (.stmt (.ret value span))).context (some a.scope)) = .ok v c ∧
      c.pushed.map (·.name) = names := by
  unfold returnCalls? at h
  split at h
  · rename_i depth value span a hu hc
    split at h
    · rename_i v c hv
      cases h
      exact ⟨depth, value, span, a, v, c, hu, hc, hv, rfl⟩
    · cases h
  · cases h

/-- A call in a returned value. -/
def returnScript : String := "function g() {}\nfunction f() { return g(); }\nf();"

/-- After three steps the script returns from `f`. The value calls `g`, and when `f` is taken off, this call stays. -/
theorem return_leaves_own_call_returnScript : ∃ m value span, load returnScript none .chained = .ok m ∧
    let n := m.performAll [.step, .step, .step]
    n.finished = false ∧ n.nextUnit? = some (1, .stmt (.ret value span)) ∧
    ∃ (owner : Activation) (queue : List Work) (v : Value) (c : Context) (left : Machine),
      n.stack.calls = [{ owner with queue }] ∧
      evalOption value (((n.dropped [] [owner]).announce (.stmt (.ret value span))).context (some owner.scope)) =
        .ok v c ∧
      c.pushed.map (·.name) = ["g"] ∧ n.step = ⟨left.settle, true⟩ ∧ left.stack.calls = c.pushed := by
  have hrun : (load returnScript none .chained).toOption.any (fun m =>
      ! (m.performAll [.step, .step, .step]).finished &&
        (m.performAll [.step, .step, .step]).returnCalls? == some ["g"]) = true := by decide +kernel
  obtain ⟨m, h, ht⟩ := exists_loaded hrun
  obtain ⟨hf, hcalls⟩ := Bool.and_eq_true_iff.1 ht
  replace hf : (m.performAll [.step, .step, .step]).finished = false := by simpa using hf
  obtain ⟨depth, value, span, a, v, c, hu, ha, hv, hnames⟩ := returnCalls?_some (beq_iff_eq.1 hcalls)
  obtain ⟨-, done, owner, queue, below, hc, hd, -, -, hl⟩ := return_leaves_own_call h _ hf hu
  -- There is but one call, so there is none above the owner of the unit and none below it.
  obtain ⟨rfl, hsingle⟩ := List.append_eq_singleton_iff.1 (hc.symm.trans ha) |>.resolve_right fun h => nomatch h.2
  obtain ⟨rfl, rfl⟩ := List.cons_eq_cons.1 hsingle
  obtain ⟨left, hs, -, hleft, -⟩ := hl v c hv
  rw [List.append_nil] at hleft
  subst hd
  exact ⟨m, value, span, h, hf, hu, owner, queue, v, c, left, hc, hv, hnames, hs, hleft⟩

end Returns

end Machine

end Stepwise
