import Stepwise.Proofs.Machine.Rounds
import Stepwise.Proofs.Machine.Turns

/-!
# Steps that fail

Of all rounds only one that runs a unit can raise an error (`Stage.next_error`), and it is the last one of its step. So a
step that fails has a moment at which the unit is taken, and what comes after it is the evaluation of that unit and
nothing else.

**`Machine.failing_step_keeps_stack`**: the frames of that moment are all left on the stack, with the work that they had.
-/

namespace Stepwise

open Eval

namespace Machine

section Unchanged

variable {m t : Machine} {w : Work}

/-- Taking a unit changes nothing but the stack. -/
theorem take?_eq (h : m.take? = some (w, t)) : ∃ stack, t = { m with stack } := by
  unfold take? at h
  split at h
  · cases h
  · cases h
    exact ⟨_, rfl⟩

theorem dropped_error (m : Machine) (done calls : List Activation) : (m.dropped done calls).error = m.error := by
  rw [dropped_eq_unwound]
  rfl

theorem concluded_error (m : Machine) (a : Activation) : (m.concluded a).error = m.error := by
  obtain ⟨logs, h⟩ := m.concluded_eq a
  rw [h]

/-- A unit that was taken runs, and the computation itself stops no machine. -/
theorem evaluate_taken_error {n : Machine} {r : Except RuntimeError Outcome} (ht : m.take? = some (w, t))
    (h : (t.announce w).evaluate t.stack.depth w.run = (r, n)) : n.error = m.error := by
  obtain ⟨stack, hs⟩ := take?_eq ht
  have hn : n = ((t.announce w).evaluate t.stack.depth w.run).2 := by rw [h]
  rw [hn, evaluate_machine, hs]
  rfl

theorem error_of_evaluate {n : Machine} {depth : Nat} {α : Type} {act : Eval α} {e : RuntimeError}
    (h : m.evaluate depth act = (.error e, n)) : ∃ c, act (m.context (m.localsAt depth)) = .error e c := by
  cases hr : act (m.context (m.localsAt depth)) with
  | ok a c => rw [evaluate_ok hr] at h; cases h
  | error e' c => rw [evaluate_error hr] at h; cases h; exact ⟨c, rfl⟩

end Unchanged

end Machine

/-! ## The round that fails -/

namespace Stage

open Machine

/-- The unit `w` is taken, which leaves `t`, and fails, which leaves `n`. -/
structure Fails (s : Stage) (w : Work) (t n : Machine) (e : RuntimeError) : Prop where
  dispatched : ∃ d, s = .seeking d ∧ d.take? = some (w, t)
  visible : w.transparent = false
  evaluated : (t.announce w).evaluate t.stack.depth w.run = (.error e, n)
  next : s.next = .ended ⟨n.halt e, true⟩ .done

/-- **Errors** are raised by units that fail. -/
theorem next_error (s : Stage) : s.next.machine.error = s.machine.error ∨ ∃ w t n e, s.Fails w t n e := by
  have hround := s.next_round
  generalize hs : s.next = s' at hround ⊢
  cases hround with
  | failed ht hw hr => exact .inr ⟨_, _, _, _, ⟨_, rfl, ht⟩, hw, hr, hs⟩
  | exhausted hc hq => exact .inl (dropped_error _ _ _)
  | idle hc hq => exact .inl rfl
  | opened ht hw =>
    obtain ⟨stack, rfl⟩ := take?_eq ht
    exact .inl rfl
  | scheduled ht hw hr =>
    have hn := evaluate_taken_error ht hr
    exact .inl hn
  | returned ht hw hr hc hd =>
    have hn := evaluate_taken_error ht hr
    exact .inl ((concluded_error _ _).trans hn)
  | left ht hw hr hd =>
    have hn := evaluate_taken_error ht hr
    exact .inl hn
  | settled hc hq => exact .inl (dropped_error _ _ _)
  | busy hc hq => exact .inl rfl
  | emptied hc =>
    left
    split <;> rfl
  | ended => exact .inl rfl

/-- A loop that comes to an error passes a stage at which a unit fails, and that ends it. -/
theorem exists_fails (n : Nat) {s : Stage} {e : RuntimeError} (hs : s.machine.error = none)
    (he : (later n s).machine.error = some e) : ∃ k w t stopped, (later k s).Fails w t stopped e := by
  induction n generalizing s with
  | zero =>
    rw [later, hs] at he
    cases he
  | succ n ih =>
    rcases s.next_error with hnext | ⟨w, t, stopped, e', hfails⟩
    · obtain ⟨k, hk⟩ := ih (hnext.trans hs) he
      exact ⟨k + 1, hk⟩
    · -- The loop is over, with the error of this round.
      rw [later, hfails.next, later_ended] at he
      cases he
      exact ⟨0, w, t, stopped, hfails⟩

end Stage

namespace Machine

/-- The operations that a unit tries that was taken from the innermost frame. -/
def triedBy (t : Machine) (w : Work) : List Trial :=
  w.tried ((t.announce w).context ((t.announce w).localsAt t.stack.depth))

variable {m : Machine} {e : RuntimeError}

/-- **Steps that fail.** There is a moment of the step at which the unit `w` is taken from the innermost frame, which
leaves the machine `t`. The unit fails, and the step ends there, with a machine that differs from `stopped` only in that it
has the error and is finished. In `stopped` all frames of `t` are still there, in the same order and each with the work
that it has in `t`, and new frames are only above them. What was logged since then marks no end of a call, so there is no
entry of a return and none of an event that was handled. The step is counted, and an observer is shown the machine. The
error is the first one that any operation of the unit raised. -/
theorem failing_step_keeps_stack (hm : m.error = none) (he : m.step.machine.error = some e) :
    ∃ k d w t stopped, Stage.later k m.stage = .seeking d ∧ d.take? = some (w, t) ∧ w.transparent = false ∧
      m.step = ⟨stopped.halt e, true⟩ ∧ Footprint t.stack.depth (t.triedBy w) (t.announce w) stopped ∧
      m.step.machine.steps = m.steps + 1 ∧ (t.triedBy w).findSome? Trial.error? = some e := by
  obtain ⟨n, hn⟩ := m.stage_leads
  have hfirst : m.stage.machine.error = none := by rw [stage_machine, hm]
  obtain ⟨k, w, t, stopped, hfails⟩ := Stage.exists_fails n hfirst (by rw [hn]; exact he)
  obtain ⟨d, hd, ht⟩ := hfails.dispatched
  have hstep : m.step = ⟨stopped.halt e, true⟩ :=
    (step_of_later (n := k + 1) ((Stage.later_succ _ k).trans hfails.next)).symm
  have hfoot := evaluate_footprint (m := t.announce w) w.run_tries (Nat.le_refl _)
  obtain ⟨c, hrun⟩ := error_of_evaluate hfails.evaluated
  have hcounted : m.step.machine.steps = m.steps + 1 := by rw [step_steps, hstep]; rfl
  refine ⟨k, d, w, t, stopped, hd, ht, hfails.visible, hstep, ?_, hcounted, (w.run_tries.explains _).first_error hrun⟩
  rw [show stopped = ((t.announce w).evaluate t.stack.depth w.run).2 by rw [hfails.evaluated]]
  exact hfoot

/-- A call that has only an empty statement to do, and a unit that makes a call before it fails. -/
def callThenFailScript : String :=
  "function g() { let a = 1; }\nfunction h() { ; }\nfunction f() { h(); return g() + x; }\nf();"

/-- After five steps `h` was called by `f`. The sixth step takes that call off, calls `g`, and then there is no `x`. -/
theorem failing_step_keeps_stack_callThenFailScript : ∃ m, load callThenFailScript none .chained = .ok m ∧
    let n := m.performAll [.step, .step, .step, .step, .step]
    n.stack.names = ["(global)", "f", "h"] ∧ n.error = none ∧
    ∃ e, n.step.machine.error = some e ∧ e.message = "x is not defined" ∧
      n.step.machine.stack.names = ["(global)", "f", "g"] ∧
      ∃ k d w t stopped, Stage.later k n.stage = .seeking d ∧ d.take? = some (w, t) ∧ w.transparent = false ∧
        n.step = ⟨stopped.halt e, true⟩ ∧ Footprint t.stack.depth (t.triedBy w) (t.announce w) stopped ∧
        n.step.machine.steps = n.steps + 1 ∧ (t.triedBy w).findSome? Trial.error? = some e := by
  have hrun : (load callThenFailScript none .chained).toOption.any (fun m =>
      let n := m.performAll [.step, .step, .step, .step, .step]
      n.stack.names == ["(global)", "f", "h"] && n.error.isNone &&
        n.step.machine.error.any (·.message == "x is not defined") &&
        n.step.machine.stack.names == ["(global)", "f", "g"]) = true := by decide +kernel
  obtain ⟨m, h, ht⟩ := exists_loaded hrun
  simp only [Bool.and_eq_true, beq_iff_eq, Option.isNone_iff_eq_none] at ht
  obtain ⟨⟨⟨hnames, hn⟩, he⟩, hafter⟩ := ht
  obtain ⟨e, he, hmessage⟩ := (Option.any_eq_true ..).1 he
  exact ⟨m, h, hnames, hn, e, he, beq_iff_eq.1 hmessage, hafter, failing_step_keeps_stack hn he⟩

end Machine

end Stepwise
