import Stepwise.Proofs.Machine.Addressed
import Stepwise.Proofs.Machine.Stopping
import Stepwise.Proofs.Machine.Suspension

/-!
# The footprint of an evaluation

**`Machine.evaluation_footprint`**: of all that a machine has, the evaluation of an expression in the frame at a depth
changes two scopes and the world at most, and on top of the stack it leaves one call for each function of the script that
it called. It does not matter whether the frame is looked up once or in each operation.
-/

namespace Stepwise

open Eval

/-- Name, work and event of a frame, without its scope. -/
def FrameView.profile (f : FrameView) : Option String × List Work × Option EventNote := (f.name, f.queue, f.handling)

namespace Stack

/-- Only the frame at a depth is replaced. -/
theorem frames_replaced (g : Frame) (upper lower : List Activation) (a b : Activation) {i : Nat}
    (h : i ≠ lower.length + 1) : (frames ⟨g, upper ++ b :: lower⟩)[i]? = (frames ⟨g, upper ++ a :: lower⟩)[i]? := by
  cases i with
  | zero => rfl
  | succ i =>
    have hi : i ≠ lower.length := fun heq => h (by rw [heq])
    simp only [frames, List.getElem?_cons_succ, List.getElem?_map, List.reverse_append, List.reverse_cons,
      List.append_assoc, List.singleton_append]
    rw [List.getElem?_append, List.getElem?_append, List.length_reverse]
    split
    · rfl
    · obtain ⟨j, hj⟩ : ∃ j, i - lower.length = j + 1 := ⟨i - lower.length - 1, by omega⟩
      rw [hj, List.getElem?_cons_succ, List.getElem?_cons_succ]

end Stack

namespace Machine

/-! ## The footprint -/

/-- The machine `n` is `m` after a computation in the frame at a depth that tried the operations. -/
structure Footprint (depth : Nat) (tried : List Trial) (m n : Machine) : Prop where
  /-- The script, the line, the sentence and the number of steps. -/
  fixed : n.fixed = m.fixed
  finished : n.finished = m.finished
  error : n.error = m.error
  /-- All frames are still there. New ones are on top of them, one for each function that was called. -/
  frames : ∃ kept pushed : List FrameView, n.stack.frames = kept ++ pushed ∧
    kept.map FrameView.profile = m.stack.frames.map FrameView.profile ∧
    (∀ i, i ≠ 0 → i ≠ depth → (kept[i]?).map (·.scope) = (m.stack.frames[i]?).map (·.scope)) ∧
    pushed.map FrameView.profile = (tried.filterMap Trial.function?).map FunctionDef.profile ∧
    ∀ f ∈ pushed, f.isFunction? = some true
  /-- No entry that was logged marks the end of a call. -/
  logs : m.world.LogsOn n.world

section Footprints

variable {α : Type} {m : Machine} {depth : Nat} {act : Eval α} {trials : Context → List Trial}

theorem takeOver_footprint (hd : depth ≤ m.stack.depth) {tried : List Trial} {c : Context}
    (h : (m.context (m.localsAt depth)).Follows tried c) : Footprint depth tried m (m.takeOver depth c) := by
  obtain ⟨calls, hpushed, hprofiles⟩ := h.pushed
  rw [show (m.context (m.localsAt depth)).pushed = [] from rfl, List.append_nil] at hpushed
  have hnew : (c.pushed.reverse.map FrameView.ofActivation).map FrameView.profile =
      (tried.filterMap Trial.function?).map FunctionDef.profile := by
    rw [hpushed, List.map_map]
    exact hprofiles
  have hfunction : ∀ f ∈ c.pushed.reverse.map FrameView.ofActivation, f.isFunction? = some true := by
    rintro f hf
    obtain ⟨⟨frame, name, handling⟩, -, rfl⟩ := List.mem_map.1 hf
    cases handling <;> rfl
  cases depth with
  | zero =>
    rw [takeOver_top]
    refine ⟨rfl, rfl, rfl, ⟨_, _, Stack.frames_append _ _ _, rfl, fun i hi _ => ?_, hnew, hfunction⟩, h.logs⟩
    obtain ⟨i, rfl⟩ := Nat.exists_eq_succ_of_ne_zero hi
    rfl
  | succ k =>
    obtain ⟨upper, a, lower, hc, rfl⟩ := m.stack.exists_call_at hd
    have hs : m.stack = ⟨m.stack.global, upper ++ a :: lower⟩ := by rw [← hc]
    rw [takeOver_middle hc]
    refine ⟨rfl, rfl, rfl, ⟨_, _, Stack.frames_append _ _ _, ?_, fun i hi hne => ?_, hnew, hfunction⟩, h.logs⟩
    · rw [hs]
      simp [Stack.frames, FrameView.profile, FrameView.ofActivation, Activation.after]
    · rw [hs, Stack.frames_replaced _ upper lower a _ hne]
      obtain ⟨i, rfl⟩ := Nat.exists_eq_succ_of_ne_zero hi
      rfl

/-- **Computations** leave the footprint of their operations. -/
theorem evaluate_footprint (h : Tries act trials) (hd : depth ≤ m.stack.depth) :
    Footprint depth (trials (m.context (m.localsAt depth))) m (m.evaluate depth act).2 := by
  rw [evaluate_machine]
  exact takeOver_footprint hd (h.follows _)

/-- **Expressions.** The evaluation of an expression in the frame at a depth goes from operation to operation, each of
which looks this frame up on the stack that it finds. Whether it gives a value or an error, it leaves alone the script,
the line, the sentence, the number of steps, and whether the machine is finished or stopped by an error. Every frame
keeps its name, its work and its event, and all scopes but the global one and that of the frame itself stay as they are.
On top of these frames stand the functions of the script that were called, one for each call, in the order in which the
calls were made. Each has its whole body before it and handles no event. What is logged does not mark the end of any
call. -/
theorem evaluation_footprint (e : Expr) (hd : depth ≤ m.stack.depth) :
    m.evaluate depth e.eval = e.plan.runAt depth m ∧
      Footprint depth (e.tried (m.context (m.localsAt depth))) m (m.evaluate depth e.eval).2 :=
  ⟨e.run_plan ▸ e.plan.evaluate_run hd, evaluate_footprint e.eval_tries hd⟩

/-- After four steps `f` is suspended by its call of `g`. In the frame of `f`, below that call, `f(a = g()) + x` calls `g`
and `f` before it fails. -/
theorem evaluation_footprint_suspendedScript : ∃ m e, load suspendedScript none .chained = .ok m ∧
    Expr.parse "f(a = g()) + x" = .ok e ∧
      let n := m.performAll [.step, .step, .step, .step]
      n.stack.names = ["(global)", "f", "g"] ∧ 1 ≤ n.stack.depth ∧
      (n.evaluate 1 e.eval = e.plan.runAt 1 n ∧
        Footprint 1 (e.tried (n.context (n.localsAt 1))) n (n.evaluate 1 e.eval).2) ∧
      (n.evaluate 1 e.eval).1.toOption.isNone = true ∧
      (n.evaluate 1 e.eval).2.stack.names = ["(global)", "f", "g", "g", "f"] := by
  have hrun : (load suspendedScript none .chained).toOption.any (fun m =>
      let n := m.performAll [.step, .step, .step, .step]
      n.stack.names == ["(global)", "f", "g"] && decide (1 ≤ n.stack.depth) &&
        (Expr.parse "f(a = g()) + x").toOption.any fun e => (n.evaluate 1 e.eval).1.toOption.isNone &&
          (n.evaluate 1 e.eval).2.stack.names == ["(global)", "f", "g", "g", "f"]) = true := by decide +kernel
  obtain ⟨m, h, ht⟩ := exists_loaded hrun
  simp only [Bool.and_eq_true, beq_iff_eq, decide_eq_true_eq] at ht
  obtain ⟨⟨hn, hd⟩, he⟩ := ht
  cases hp : Expr.parse "f(a = g()) + x" with
  | error _ => rw [hp] at he; cases he
  | ok e =>
    rw [hp] at he
    obtain ⟨herror, hnames⟩ := Bool.and_eq_true_iff.1 he
    exact ⟨m, e, h, rfl, hn, hd, evaluation_footprint e hd, herror, beq_iff_eq.1 hnames⟩

end Footprints

end Machine

end Stepwise
