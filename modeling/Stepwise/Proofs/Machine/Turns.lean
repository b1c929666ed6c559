import Stepwise.Proofs.Machine.Stopping
import Stepwise.Proofs.Machine.Suspension

/-!
# Calls in turn

`Stage.tick` is one round of a step, or the start of the next step. `Stage.Returns k s u`: from the stage `s` on, round by
round and step by step, `u` is the first stage at which no call beyond depth `k` is left. Calls that are suspended below
make no difference to it (`Returns.above`, `Returns.of_above`).

`Machine.RunsCall m a u`: on the machine `m`, which has nothing to do, the call `a` runs alone until it is gone with all
calls that it makes. Several calls on the stack run one after the other, the innermost one first, and each of them runs as
if it was alone (`Machine.CallsInTurn.returns`, `Machine.CallsInTurn.of_returns`).
-/

namespace Stepwise

namespace Stage

/-! ## Rounds across steps -/

/-- One round, or the start of the next step. -/
def tick : Stage → Stage
  | seeking m => (seeking m).next
  | settling m => (settling m).next
  | ended move _ => move.machine.stage

/-- The first stage from `s` on at which no call beyond depth `k` is left. -/
inductive Returns (k : Nat) : Stage → Stage → Prop where
  | done {s : Stage} : s.machine.stack.depth ≤ k → Returns k s s
  | tick {s u : Stage} : k < s.machine.stack.depth → Returns k s.tick u → Returns k s u

/-- In the middle of a step the run is not over, and after a step it is over if there is an error. -/
def Live : Stage → Prop
  | seeking m | settling m => m.Running
  | ended move _ => move.machine.finished = false → move.machine.Running

/-- A stage in the middle of a step. -/
def InStep : Stage → Prop
  | seeking _ | settling _ => True
  | ended _ _ => False

end Stage

open Stage (Returns)

namespace Machine

variable {m : Machine}

theorem stage_running (h : m.Running) : m.stage = .seeking m := by
  unfold stage
  rw [h.finished]
  rfl

theorem stage_machine (m : Machine) : m.stage.machine = m := by
  unfold stage
  split <;> rfl

theorem stage_live (h : m.finished = false → m.Running) : m.stage.Live := by
  unfold stage
  split
  · exact h
  · rename_i hf
    exact h (Bool.eq_false_iff.2 hf)

theorem enterCall_live (h : m.Running) (r : Ready) : (m.enterCall r).Live := by
  unfold enterCall
  split
  · exact fun hf => by cases hf
  · exact ⟨h.finished, h.error⟩
  · refine Running.concludedAll ?_ [r.owner]
    exact ⟨h.finished, h.error⟩

theorem enterGlobal_live (h : m.Running) (unit : Work) (queue : List Work) : (m.enterGlobal unit queue).Live := by
  unfold enterGlobal
  split
  · exact fun hf => by cases hf
  · exact ⟨h.finished, h.error⟩
  · exact ⟨h.finished, h.error⟩

end Machine

namespace Stage

variable {s u v : Stage} {k : Nat}

theorem Live.next (h : s.Live) : s.next.Live := by
  cases s with
  | ended move answer => exact h
  | seeking m =>
    have h : m.Running := h
    cases hc : m.stack.calls with
    | nil =>
      cases hq : m.stack.global.queue with
      | nil =>
        rw [Machine.next_seeking_idle hc hq]
        exact fun hf => by cases hf
      | cons w queue =>
        rw [Machine.next_seeking_global hc hq]
        split
        · exact ⟨h.finished, h.error⟩
        · exact Machine.enterGlobal_live (h.announce w) w queue
    | cons a calls =>
      cases hq : a.queue with
      | nil =>
        rw [Machine.next_seeking_exhausted hc hq]
        exact h.dropped [a] calls
      | cons w queue =>
        rw [Machine.next_seeking_call hc hq]
        split
        · exact ⟨h.finished, h.error⟩
        · refine Machine.enterCall_live ?_ _
          exact ⟨h.finished, h.error⟩
  | settling m =>
    have h : m.Running := h
    cases hc : m.stack.calls with
    | nil =>
      rw [Machine.next_settling_global hc]
      split
      · exact fun hf => by cases hf
      · exact fun _ => h
    | cons a calls =>
      rw [Machine.next_settling_call hc]
      split
      · exact h.dropped [a] calls
      · exact fun _ => h

theorem Live.tick (h : s.Live) : s.tick.Live := by
  cases s with
  | ended move answer => exact Machine.stage_live h
  | seeking m | settling m => exact h.next

/-- A unit that fails leaves its call on the stack. -/
theorem enterCall_inStep {m : Machine} {r : Ready} (h : (m.enterCall r).machine.stack.calls = []) :
    (m.enterCall r).InStep := by
  unfold Machine.enterCall at h ⊢
  cases hu : r.unit.run (m.context (some r.owner.scope)) with
  | error e c =>
    rw [hu] at h
    exact absurd h (List.append_ne_nil_of_right_ne_nil _ (List.cons_ne_nil _ _))
  | ok o c => cases o <;> exact trivial

/-- The last call leaves the stack in the middle of a step. -/
theorem tick_inStep (h : 0 < s.machine.stack.depth) (hz : s.tick.machine.stack.calls = []) : s.tick.InStep := by
  obtain ⟨a, calls, hc⟩ : ∃ a calls, s.machine.stack.calls = a :: calls := List.exists_cons_of_length_pos h
  cases s with
  | ended move answer =>
    have hm : (ended move answer).tick.machine = move.machine := move.machine.stage_machine
    rw [hm] at hz
    exact absurd (hz.symm.trans hc) (List.cons_ne_nil _ _).symm
  | seeking m =>
    have hc : m.stack.calls = a :: calls := hc
    rw [tick] at hz ⊢
    cases hq : a.queue with
    | nil =>
      rw [Machine.next_seeking_exhausted hc hq]
      exact trivial
    | cons w queue =>
      rw [Machine.next_seeking_call hc hq] at hz ⊢
      split at hz
      · exact absurd hz (List.cons_ne_nil _ _)
      · rename_i hw
        rw [if_neg hw]
        exact enterCall_inStep hz
  | settling m =>
    have hc : m.stack.calls = a :: calls := hc
    rw [tick] at hz ⊢
    rw [Machine.next_settling_call hc] at hz ⊢
    split at hz
    · rename_i hq
      rw [if_pos hq]
      exact trivial
    · exact absurd (hz.symm.trans hc) (List.cons_ne_nil _ _).symm

/-! ## Returning -/

theorem Returns.depth_le (h : Returns k s u) : u.machine.stack.depth ≤ k := by
  induction h with
  | done hd => exact hd
  | tick _ _ ih => exact ih

theorem Returns.live (h : Returns k s u) (hs : s.Live) : u.Live := by
  induction h with
  | done _ => exact hs
  | tick _ _ ih => exact ih hs.tick

theorem Returns.calls_eq_nil (h : Returns 0 s u) : u.machine.stack.calls = [] :=
  List.eq_nil_of_length_eq_zero (Nat.le_zero.1 h.depth_le)

theorem Returns.inStep (h : Returns 0 s u) (hs : 0 < s.machine.stack.depth) : u.InStep := by
  induction h with
  | done hd => exact absurd hs (Nat.not_lt.2 hd)
  | tick _ hr ih =>
    cases hr with
    | done hd => exact tick_inStep hs (List.eq_nil_of_length_eq_zero (Nat.le_zero.1 hd))
    | tick hlt hr => exact ih hlt

/-- A run to a depth, and from there to a lower one. -/
theorem Returns.trans {j : Nat} (h : Returns j s u) (hjk : k ≤ j) (hu : Returns k u v) : Returns k s v := by
  induction h with
  | done _ => exact hu
  | tick hlt _ ih => exact .tick (Nat.lt_of_le_of_lt hjk hlt) (ih hu)

theorem Returns.split {j : Nat} (h : Returns k s v) (hjk : k ≤ j) : ∃ u, Returns j s u ∧ Returns k u v := by
  induction h with
  | @done s hd => exact ⟨s, .done (Nat.le_trans hd hjk), .done hd⟩
  | @tick s v hlt hr ih =>
    by_cases hj : s.machine.stack.depth ≤ j
    · exact ⟨s, .done hj, .tick hlt hr⟩
    · obtain ⟨u, hu, huv⟩ := ih
      exact ⟨u, .tick (Nat.lt_of_not_le hj) hu, huv⟩

theorem Returns.tick_iff (h : k < s.machine.stack.depth) : Returns k s u ↔ Returns k s.tick u := by
  constructor
  · intro hr
    cases hr with
    | done hd => exact absurd h (Nat.not_lt.2 hd)
    | tick _ hr => exact hr
  · exact .tick h

/-- A machine that is finished stays where it is. -/
theorem Returns.of_finished {m : Machine} (h : Returns k m.stage u) (hf : m.finished = true) : u.machine = m := by
  have hs : m.stage = .ended ⟨m, false⟩ .done := if_pos hf
  generalize hst : m.stage = s at h
  induction h with
  | done _ =>
    rw [← hst]
    exact m.stage_machine
  | tick _ _ ih =>
    refine ih ?_
    rw [← hst, hs]
    exact hs.symm

/-- The stage that `Returns` asks for, if it comes within a number of rounds. -/
def returned? (k : Nat) : Nat → Stage → Option Stage
  | 0, s => if s.machine.stack.depth ≤ k then some s else none
  | rounds + 1, s => if s.machine.stack.depth ≤ k then some s else returned? k rounds s.tick

theorem Returns.of_returned? {rounds : Nat} (h : returned? k rounds s = some u) : Returns k s u := by
  induction rounds generalizing s with
  | zero =>
    rw [returned?] at h
    split at h
    · rename_i hd
      cases h
      exact .done hd
    · cases h
  | succ rounds ih =>
    rw [returned?] at h
    split at h
    · rename_i hd
      cases h
      exact .done hd
    · rename_i hd
      exact .tick (Nat.lt_of_not_le hd) (ih h)

section Above

variable (low : List Activation) (queue : List Work)

theorem tick_above (h : 0 < s.machine.stack.depth) : (s.above low queue).tick = s.tick.above low queue := by
  cases s with
  | ended move answer => exact move.machine.stage_above low queue
  | seeking m | settling m => exact next_above low queue h

/-- Suspended calls make no difference. -/
theorem Returns.above (h : Returns 0 s u) : Returns low.length (s.above low queue) (u.above low queue) := by
  induction h with
  | done hd => exact .done (by rw [above_depth]; omega)
  | tick hlt _ ih =>
    refine .tick (by rw [above_depth]; omega) ?_
    rw [tick_above low queue hlt]
    exact ih

theorem Returns.of_above (h : Returns low.length (s.above low queue) v) :
    ∃ u, Returns 0 s u ∧ v = u.above low queue := by
  generalize hs : s.above low queue = t at h
  induction h generalizing s with
  | done hd =>
    rw [← hs, above_depth] at hd
    exact ⟨s, .done (by omega), hs.symm⟩
  | tick hlt _ ih =>
    rw [← hs, above_depth] at hlt
    have hpos : 0 < s.machine.stack.depth := by omega
    obtain ⟨u, hu, hv⟩ := ih (by rw [← hs, tick_above low queue hpos])
    exact ⟨u, .tick hpos hu, hv⟩

end Above

end Stage

namespace Machine

/-! ## One call after the other -/

/-- On a machine that has nothing to do, a call runs alone until it is gone with all calls that it makes. -/
def RunsCall (m : Machine) (a : Activation) (n : Machine) : Prop :=
  ∃ u : Stage, Returns 0 (m.withCalls [a]).stage u ∧ u.machine = n

/-- Calls run alone, one after the other. -/
inductive CallsInTurn : List Activation → Machine → Machine → Prop where
  | nil (m : Machine) : CallsInTurn [] m m
  | cons {a : Activation} {calls : List Activation} {m k n : Machine} :
    RunsCall m a k → CallsInTurn calls k n → CallsInTurn (a :: calls) m n

/-- A machine in the middle of its run that has nothing to do. -/
structure Idle (m : Machine) : Prop extends m.Running where
  calls : m.stack.calls = []

section

variable {m k : Machine} {a b : Activation} {calls low : List Activation} {queue : List Work}

theorem Idle.stage (h : m.Idle) : (m.withCalls [a]).stage = .seeking (m.withCalls [a]) :=
  stage_running ⟨h.finished, h.error⟩

theorem Idle.returned {u : Stage} (h : m.Idle) (hr : Returns 0 (m.withCalls [a]).stage u) :
    u.InStep ∧ u.machine.Idle := by
  rw [h.stage] at hr
  have hlive : u.Live := hr.live ⟨h.finished, h.error⟩
  have hstep := hr.inStep Nat.zero_lt_one
  have hcalls := hr.calls_eq_nil
  cases u with
  | seeking n | settling n => exact ⟨hstep, hlive, hcalls⟩
  | ended move answer => exact hstep.elim

theorem RunsCall.idle (h : RunsCall m a k) (hm : m.Idle) : k.Idle := by
  obtain ⟨u, hu, rfl⟩ := h
  exact (hm.returned hu).2

theorem CallsInTurn.idle {n : Machine} (h : CallsInTurn calls m n) (hm : m.Idle) : n.Idle := by
  induction h with
  | nil _ => exact hm
  | cons hr _ ih => exact ih (hr.idle hm)

theorem above_cons (h : m.stack.calls = []) (a : Activation) (calls : List Activation) (queue : List Work) :
    m.above (a :: calls) queue = (m.withCalls [a]).above calls queue := by
  unfold above withCalls
  rw [h]
  rfl

/-- When a call is gone, the next one starts with a step of its own or in the same step. -/
theorem returns_next {u v : Stage} {j : Nat} (hu : u.InStep) (hm : u.machine.Idle) (hb : b.queue.isEmpty = false)
    (hj : j ≤ calls.length) :
    Returns j (u.above (b :: calls) queue) v ↔ Returns j ((u.machine.withCalls [b]).stage.above calls queue) v := by
  rw [hm.stage]
  cases u with
  | ended move answer => exact hu.elim
  | seeking n =>
    have hm : n.Idle := hm
    show Returns j (.seeking (n.above (b :: calls) queue)) v ↔ Returns j (.seeking ((n.withCalls [b]).above calls queue)) v
    rw [above_cons hm.calls]
  | settling n =>
    have hm : n.Idle := hm
    -- The step ends here, since the next call has work to do.
    show Returns j (.settling (n.above (b :: calls) queue)) v ↔ Returns j (.seeking ((n.withCalls [b]).above calls queue)) v
    rw [above_cons hm.calls]
    generalize hn : (n.withCalls [b]).above calls queue = k
    have hcalls : k.stack.calls = b :: calls := by rw [← hn]; rfl
    have hdepth : j < k.stack.depth := by
      rw [Stack.depth, hcalls]
      exact Nat.lt_succ_of_le hj
    have hrun : k.Running := by rw [← hn]; exact ⟨hm.finished, hm.error⟩
    have hclose : (Stage.settling k).tick = k.close := by
      show (Stage.settling k).next = _
      rw [next_settling_call hcalls, hb]
      rfl
    have hstart : k.close.tick = .seeking k := stage_running hrun
    have hsettling : Returns j (.settling k) v ↔ Returns j k.close v := by
      rw [← hclose]
      exact Returns.tick_iff hdepth
    have hseeking : Returns j k.close v ↔ Returns j (.seeking k) v := by
      rw [← hstart]
      exact Returns.tick_iff hdepth
    exact hsettling.trans hseeking

/-- What is left of a run when the first of several calls is gone. -/
theorem returns_above_cons {v : Stage} (hm : m.Idle) (a : Activation) (calls : List Activation) :
    Returns low.length (m.above (a :: calls ++ low) queue).stage v ↔ ∃ u : Stage, Returns 0 (m.withCalls [a]).stage u ∧
      Returns low.length (u.above (calls ++ low) queue) v := by
  have hle : low.length ≤ (calls ++ low).length := by simp
  rw [List.cons_append, above_cons hm.calls, stage_above]
  constructor
  · intro h
    obtain ⟨w, hw, hv⟩ := h.split hle
    obtain ⟨u, hu, rfl⟩ := hw.of_above
    exact ⟨u, hu, hv⟩
  · rintro ⟨u, hu, hv⟩
    exact (hu.above (calls ++ low) queue).trans hle hv

/-- **Calls run in turn.** If all calls above `low` are gone at last, each of them has run alone, the innermost one first. -/
theorem CallsInTurn.of_returns (hm : m.Idle) (hq : ∀ a ∈ calls, a.queue.isEmpty = false) {v : Stage}
    (h : Returns low.length (m.above (calls ++ low) queue).stage v) :
    ∃ n, CallsInTurn calls m n ∧ v.machine = n.above low queue := by
  induction calls generalizing m with
  | nil =>
    have hdepth : (m.above low queue).stage.machine.stack.depth = low.length := by
      rw [stage_machine, above_depth, Stack.depth, hm.calls]
      exact Nat.zero_add _
    cases h with
    | done _ => exact ⟨m, .nil m, stage_machine _⟩
    | tick hlt _ => exact absurd hdepth (Nat.ne_of_gt hlt)
  | cons a calls ih =>
    obtain ⟨u, hu, hv⟩ := (returns_above_cons hm a calls).1 h
    obtain ⟨hstep, hidle⟩ := hm.returned hu
    obtain ⟨-, hq⟩ := List.forall_mem_cons.1 hq
    cases calls with
    | nil =>
      -- The last call is gone, and so are all calls above `low`.
      have hv : v = u.above low queue := by
        cases hv with
        | done _ => rfl
        | tick hlt _ =>
          rw [List.nil_append, Stage.above_depth, Stack.depth, hidle.calls] at hlt
          exact absurd hlt (by simp)
      refine ⟨u.machine, .cons ⟨u, hu, rfl⟩ (.nil _), ?_⟩
      rw [hv]
      cases u <;> rfl
    | cons b calls =>
      have hb := (List.forall_mem_cons.1 hq).1
      rw [List.cons_append, returns_next hstep hidle hb (by simp), ← stage_above, ← above_cons hidle.calls] at hv
      obtain ⟨n, hn, hvn⟩ := ih hidle hq hv
      exact ⟨n, .cons ⟨u, hu, rfl⟩ hn, hvn⟩

/-- If calls can run alone one after the other, they do so above other calls. -/
theorem CallsInTurn.returns {n : Machine} (h : CallsInTurn calls m n) (hm : m.Idle)
    (hq : ∀ a ∈ calls, a.queue.isEmpty = false) :
    ∃ v : Stage, Returns low.length (m.above (calls ++ low) queue).stage v ∧ v.machine = n.above low queue := by
  induction h with
  | nil m =>
    refine ⟨(m.above low queue).stage, .done ?_, stage_machine _⟩
    rw [stage_machine, above_depth, Stack.depth, hm.calls]
    simp
  | @cons a calls m k n hr hrest ih =>
    have hidle := hr.idle hm
    obtain ⟨u, hu, rfl⟩ := hr
    obtain ⟨hstep, -⟩ := hm.returned hu
    obtain ⟨-, hq⟩ := List.forall_mem_cons.1 hq
    obtain ⟨v, hv, hvn⟩ := ih hidle hq
    cases calls with
    | nil =>
      cases hrest
      refine ⟨u.above low queue, (returns_above_cons hm a []).2 ⟨u, hu, .done ?_⟩, by cases u <;> rfl⟩
      rw [List.nil_append, Stage.above_depth, Stack.depth, hidle.calls]
      simp
    | cons b calls =>
      have hb := (List.forall_mem_cons.1 hq).1
      refine ⟨v, (returns_above_cons hm a (b :: calls)).2 ⟨u, hu, ?_⟩, hvn⟩
      rw [List.cons_append, returns_next hstep hidle hb (by simp), ← stage_above, ← above_cons hidle.calls]
      exact hv

end

end Machine

end Stepwise
