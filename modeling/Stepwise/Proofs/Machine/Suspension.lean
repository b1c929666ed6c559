import Stepwise.Proofs.Machine.Commands
import Stepwise.Proofs.Machine.Moments

/-!
# Suspended calls

While there are calls above them, other calls and the top level are suspended. `m.above low queue` is the machine `m` put
on top of suspended calls `low` and a top level that has `queue` to do. A round of a step does not look below the
innermost call, so it does the same to `m` and to `m.above low queue` (`Stage.next_above`). It follows that a run of
`m.above low queue` is a run of `m` with the suspended part added, for as long as `m` has calls of its own
(`Machine.performAll_above`).

**`Machine.suspended_isolated`**: what lies below a depth is neither read nor written while there are calls above it.
-/

namespace Stepwise

namespace Machine

/-- The machine with suspended calls below its own, and with a top level that has `queue` to do. -/
def above (m : Machine) (low : List Activation) (queue : List Work) : Machine :=
  { m with stack := ⟨{ m.stack.global with queue }, m.stack.calls ++ low⟩ }

end Machine

def Stage.above (s : Stage) (low : List Activation) (queue : List Work) : Stage :=
  match s with
  | seeking m => seeking (m.above low queue)
  | settling m => settling (m.above low queue)
  | ended move answer => ended ⟨move.machine.above low queue, move.shown⟩ answer

/-! ## One round -/

section Rounds

variable (low : List Activation) (queue : List Work)

namespace Machine

variable (m : Machine)

theorem above_depth : (m.above low queue).stack.depth = m.stack.depth + low.length := List.length_append

/-- There is a call above the suspended part if there is a call without it. -/
theorem lt_above_depth : low.length < (m.above low queue).stack.depth ↔ 0 < m.stack.depth := by
  rw [above_depth]
  omega

theorem concluded_above (a : Activation) : (m.above low queue).concluded a = (m.concluded a).above low queue := by
  unfold concluded
  cases a.handling <;> rfl

theorem dropped_above (a : Activation) (calls : List Activation) :
    (m.above low queue).dropped [a] (calls ++ low) = (m.dropped [a] calls).above low queue :=
  concluded_above low queue (m.withCalls calls) a

theorem enterCall_above (unit : Work) (owner : Activation) (below : List Activation) :
    (m.above low queue).enterCall ⟨unit, owner, below ++ low⟩ = (m.enterCall ⟨unit, owner, below⟩).above low queue := by
  have hc : (m.above low queue).context (some owner.scope) = m.context (some owner.scope) := rfl
  unfold enterCall
  rw [hc]
  cases hu : unit.run (m.context (some owner.scope)) with
  | error e c =>
    show (((m.above low queue).adopt c (c.pushed ++ owner.after c [] :: (below ++ low)) queue).halt e).close = _
    rw [← List.cons_append, ← List.append_assoc]
    rfl
  | ok o c =>
    cases o with
    | next work =>
      show Stage.settling ((m.above low queue).adopt c (c.pushed ++ owner.after c work :: (below ++ low)) queue) = _
      rw [← List.cons_append, ← List.append_assoc]
      rfl
    | leave v =>
      show Stage.settling ((((m.above low queue).adopt c (c.pushed ++ (below ++ low)) queue).logReturn owner.name
        v).concluded owner) = _
      rw [← List.append_assoc]
      exact congrArg Stage.settling (concluded_above low queue
        ((m.adopt c (c.pushed ++ below) m.stack.global.queue).logReturn owner.name v) owner)

end Machine

namespace Stage

theorem above_depth (s : Stage) : (s.above low queue).machine.stack.depth = s.machine.stack.depth + low.length := by
  cases s <;> exact Machine.above_depth low queue _

/-- A round does the same with and without the suspended part, as long as there is a call above it. -/
theorem next_above {s : Stage} (h : 0 < s.machine.stack.depth) :
    (s.above low queue).next = s.next.above low queue := by
  cases s with
  | ended move answer => rfl
  | seeking m =>
    obtain ⟨a, calls, hc⟩ : ∃ a calls, m.stack.calls = a :: calls := List.exists_cons_of_length_pos h
    have hc' : (m.above low queue).stack.calls = a :: (calls ++ low) := congrArg (· ++ low) hc
    cases hq : a.queue with
    | nil =>
      show (seeking (m.above low queue)).next = _
      rw [Machine.next_seeking_exhausted hc hq, Machine.next_seeking_exhausted hc' hq, Machine.dropped_above]
      rfl
    | cons w rest =>
      show (seeking (m.above low queue)).next = _
      rw [Machine.next_seeking_call hc hq, Machine.next_seeking_call hc' hq]
      cases w.transparent with
      | true => rfl
      | false => exact Machine.enterCall_above low queue ((m.withCalls ({ a with queue := rest } :: calls)).announce w) ..
  | settling m =>
    obtain ⟨a, calls, hc⟩ : ∃ a calls, m.stack.calls = a :: calls := List.exists_cons_of_length_pos h
    have hc' : (m.above low queue).stack.calls = a :: (calls ++ low) := congrArg (· ++ low) hc
    show (settling (m.above low queue)).next = _
    rw [Machine.next_settling_call hc, Machine.next_settling_call hc']
    cases a.queue.isEmpty with
    | true => rw [if_pos rfl, if_pos rfl, Machine.dropped_above]; rfl
    | false => rfl

theorem later_succ (s : Stage) (n : Nat) : later (n + 1) s = (later n s).next := later_add s n 1

/-- The same for any number of rounds. -/
theorem later_above {s : Stage} {n : Nat}
    (h : ∀ i < n, low.length < (later i (s.above low queue)).machine.stack.depth) :
    later n (s.above low queue) = (later n s).above low queue := by
  induction n with
  | zero => rfl
  | succ n ih =>
    -- After `n` rounds there is still a call above the suspended part, so the next round looks no further.
    have hn := ih fun i hi => h i (Nat.lt_succ_of_lt hi)
    have hd := h n (Nat.lt_succ_self n)
    rw [hn, above_depth] at hd
    rw [later_succ, later_succ, hn, next_above low queue (by omega)]

end Stage

end Rounds

/-! ## Commands -/

namespace Machine

/-- How the loop of a step starts. -/
def stage (m : Machine) : Stage := if m.finished then .ended ⟨m, false⟩ .done else .seeking m

/-- The moments of a machine while it performs a command. -/
def moment (m : Machine) : Command → Nat → Machine
  | .step, i => (Stage.later i m.stage).machine
  | c, _ => m.perform c

/-- There are more than `k` calls at all moments of a run. -/
def StaysAbove (k : Nat) : List Command → Machine → Prop
  | [], m => k < m.stack.depth
  | c :: commands, m => (k < m.stack.depth ∧ ∀ i, k < (m.moment c i).stack.depth) ∧ StaysAbove k commands (m.perform c)

theorem stage_leads (m : Machine) :
    m.stage.Leads (.ended m.step (if m.step.machine.finished then .done else .more)) := by
  cases hf : m.finished with
  | true =>
    rw [stage, if_pos hf, step_finished hf, if_pos hf]
    exact Stage.Leads.refl _
  | false =>
    rw [stage, hf, if_neg Bool.false_ne_true]
    exact seeking_leads hf

/-- The loop of a step ends in one way only. -/
theorem step_of_later {m : Machine} {n : Nat} {move : Move} {answer : Answer}
    (h : Stage.later n m.stage = .ended move answer) : move = m.step := by
  obtain ⟨i, hi⟩ := m.stage_leads
  have hboth : Stage.later (n + i) m.stage = Stage.later (i + n) m.stage := by rw [Nat.add_comm]
  rw [Stage.later_add, Stage.later_add, h, hi, Stage.later_ended, Stage.later_ended] at hboth
  cases hboth
  rfl

section Above

variable (low : List Activation) (queue : List Work) (m : Machine)

theorem stage_above : (m.above low queue).stage = m.stage.above low queue := by
  have hf : (m.above low queue).finished = m.finished := rfl
  unfold stage
  rw [hf]
  cases m.finished <;> rfl

/-- A moment of a step, with and without the suspended part. -/
theorem moment_above {i : Nat} (h : ∀ j < i, low.length < ((m.above low queue).moment .step j).stack.depth) :
    (m.above low queue).moment .step i = (m.moment .step i).above low queue := by
  have hl : Stage.later i (m.stage.above low queue) = (Stage.later i m.stage).above low queue := by
    refine Stage.later_above low queue fun j hj => ?_
    rw [← stage_above]
    exact h j hj
  show (Stage.later i (m.above low queue).stage).machine = _
  rw [stage_above, hl]
  show _ = (Stage.later i m.stage).machine.above low queue
  cases Stage.later i m.stage <;> rfl

theorem step_above (h : ∀ i, low.length < ((m.above low queue).moment .step i).stack.depth) :
    (m.above low queue).step.machine = m.step.machine.above low queue := by
  obtain ⟨n, hn⟩ := (m.above low queue).stage_leads
  have hl : Stage.later n (m.stage.above low queue) = (Stage.later n m.stage).above low queue := by
    refine Stage.later_above low queue fun j _ => ?_
    rw [← stage_above]
    exact h j
  rw [stage_above, hl] at hn
  cases hs : Stage.later n m.stage with
  | seeking _ | settling _ => rw [hs] at hn; cases hn
  | ended move answer =>
    rw [hs, step_of_later hs] at hn
    exact (congrArg Stage.machine hn).symm

theorem logFired_above (event : String) : ∀ (listeners : List Listener) (m : Machine),
    (m.above low queue).logFired event listeners = (m.logFired event listeners).above low queue
  | [], _ => rfl
  | _ :: listeners, m => logFired_above event listeners (m.log ..)

theorem callAll_above (event : String) (listeners : List Listener) :
    (m.above low queue).callAll event listeners = (m.callAll event listeners).above low queue := by
  have hcalls (c : Context) : c.pushed ++ (m.above low queue).stack.calls = c.pushed ++ m.stack.calls ++ low :=
    (List.append_assoc ..).symm
  cases hr : callListeners event listeners.reverse (m.context none) with
  | ok _ c =>
    rw [callAll_ok hr, callAll_ok (m := m.above low queue) hr, hcalls]
    rfl
  | error e c =>
    rw [callAll_error hr, callAll_error (m := m.above low queue) hr, hcalls]
    rfl

/-- Firing an event pushes calls and looks at none. -/
theorem fire_above (node : Nat) (event : String) :
    ((m.above low queue).fire node event).2.machine = (m.fire node event).2.machine.above low queue := by
  have he : (m.above low queue).error = m.error := rfl
  have hl : (m.above low queue).listenersFor node event = m.listenersFor node event := rfl
  rw [fire_machine, fire_machine, he, hl]
  split
  · rfl
  · rw [logFired_above, callAll_above]

theorem fireById_above (id event : String) :
    ((m.above low queue).fireById id event).2.machine = (m.fireById id event).2.machine.above low queue := by
  have hw : (m.above low queue).world = m.world := rfl
  unfold fireById
  rw [hw]
  split
  · exact fire_above low queue m _ event
  · rfl

theorem perform_above (c : Command) (h : ∀ i, low.length < ((m.above low queue).moment c i).stack.depth) :
    (m.above low queue).perform c = (m.perform c).above low queue := by
  cases c with
  | step => exact step_above low queue m h
  | fire node event => exact fire_above low queue m node event
  | fireById id event => exact fireById_above low queue m id event

/-- There are calls above the suspended part just as long as there are calls at all without it. -/
theorem moments_above (c : Command) : (∀ i, low.length < ((m.above low queue).moment c i).stack.depth) ↔
    ∀ i, 0 < (m.moment c i).stack.depth := by
  cases c with
  | step =>
    constructor
    · intro h i
      have hi := h i
      rwa [moment_above low queue m fun j _ => h j, lt_above_depth] at hi
    · intro h i
      induction i using Nat.strongRecOn with
      | ind i ih =>
        rw [moment_above low queue m ih, lt_above_depth]
        exact h i
  | fire node event =>
    show (Nat → _ < ((m.above low queue).fire node event).2.machine.stack.depth) ↔ _
    rw [fire_above, lt_above_depth]
    rfl
  | fireById id event =>
    show (Nat → _ < ((m.above low queue).fireById id event).2.machine.stack.depth) ↔ _
    rw [fireById_above, lt_above_depth]
    rfl

theorem staysAbove_above {k : Nat} (hk : low.length = k) (commands : List Command) (m : Machine) :
    StaysAbove k commands (m.above low queue) ↔ StaysAbove 0 commands m := by
  subst hk
  have hd (m : Machine) := m.lt_above_depth low queue
  induction commands generalizing m with
  | nil => exact hd m
  | cons c commands ih =>
    constructor
    · rintro ⟨⟨hm, hc⟩, hrest⟩
      rw [perform_above low queue m c hc] at hrest
      exact ⟨⟨(hd m).1 hm, (moments_above low queue m c).1 hc⟩, (ih _).1 hrest⟩
    · rintro ⟨⟨hm, hc⟩, hrest⟩
      have hc' := (moments_above low queue m c).2 hc
      refine ⟨⟨(hd m).2 hm, hc'⟩, ?_⟩
      rw [perform_above low queue m c hc']
      exact (ih _).2 hrest

/-- **Runs above suspended calls** are runs without them, with the suspended part added. -/
theorem performAll_above : ∀ (commands : List Command) (m : Machine), StaysAbove 0 commands m →
    (m.above low queue).performAll commands = (m.performAll commands).above low queue
  | [], _, _ => rfl
  | c :: commands, m, ⟨⟨_, hc⟩, hrest⟩ => by
    show ((m.above low queue).perform c).performAll commands = ((m.perform c).performAll commands).above low queue
    rw [perform_above low queue m c ((moments_above low queue m c).2 hc)]
    exact performAll_above commands (m.perform c) hrest

end Above

/-! ## Two runs -/

end Machine

namespace Stack

/-- The calls at depths beyond `k`. -/
def beyond (s : Stack) (k : Nat) : List Activation := s.calls.take (s.depth - k)

/-- The calls at depths `1` to `k`. -/
def upTo (s : Stack) (k : Nat) : List Activation := s.calls.drop (s.depth - k)

end Stack

namespace Machine

/-- The machines differ at most in the calls at depths `1` to `k` and in what the top level has to do. -/
structure SameAbove (k : Nat) (m n : Machine) : Prop where
  /-- Logs, listeners, document, line, sentence, steps, error and all else outside of the stack. -/
  rest : n = { m with stack := n.stack }
  scope : n.stack.global.scope = m.stack.global.scope
  depth : n.stack.depth = m.stack.depth
  frames : n.stack.beyond k = m.stack.beyond k

section Isolation

variable {k : Nat} {m n : Machine}

/-- What there is above the suspended part. -/
def top (m : Machine) (k : Nat) : Machine :=
  { m with stack := ⟨⟨m.stack.global.scope, []⟩, m.stack.beyond k⟩ }

theorem top_above (m : Machine) (k : Nat) : (m.top k).above (m.stack.upTo k) m.stack.global.queue = m := by
  have hc : m.stack.beyond k ++ m.stack.upTo k = m.stack.calls := List.take_append_drop ..
  show { m with stack := ⟨m.stack.global, m.stack.beyond k ++ m.stack.upTo k⟩ } = m
  rw [hc]

theorem upTo_length (h : k < m.stack.depth) : (m.stack.upTo k).length = k := by
  have hl : (m.stack.upTo k).length = m.stack.depth - (m.stack.depth - k) := List.length_drop
  omega

theorem SameAbove.top_eq (h : SameAbove k m n) : n.top k = m.top k := by
  unfold top
  rw [h.frames, h.scope, h.rest]

theorem above_depth_sub {low : List Activation} (hk : low.length = k) (v : Machine) (queue : List Work) :
    (v.above low queue).stack.depth - k = v.stack.calls.length := by
  rw [above_depth, hk]
  exact Nat.add_sub_cancel ..

theorem beyond_above {low : List Activation} (hk : low.length = k) (v : Machine) (queue : List Work) :
    (v.above low queue).stack.beyond k = v.stack.calls := by
  show (v.stack.calls ++ low).take _ = _
  rw [above_depth_sub hk, List.take_left]

theorem upTo_above {low : List Activation} (hk : low.length = k) (v : Machine) (queue : List Work) :
    (v.above low queue).stack.upTo k = low := by
  show (v.stack.calls ++ low).drop _ = _
  rw [above_depth_sub hk, List.drop_left]

theorem sameAbove_above {low low' : List Activation} (hk : low.length = k) (hk' : low'.length = k) (v : Machine)
    (queue queue' : List Work) : SameAbove k (v.above low queue) (v.above low' queue') where
  rest := rfl
  scope := rfl
  depth := by rw [above_depth, above_depth, hk, hk']
  frames := by rw [beyond_above hk, beyond_above hk']

theorem StaysAbove.depth_lt {commands : List Command} (h : StaysAbove k commands m) : k < m.stack.depth := by
  cases commands with
  | nil => exact h
  | cons c commands => exact h.1.1

/-- **Suspended calls are neither read nor written.** Two machines that differ at most in the calls at depths `1` to `k`
and in what the top level has to do get the same commands. As long as there is a call beyond depth `k`, also inside each
step, they differ no more than that, and in both the suspended part is what it was. -/
theorem suspended_isolated (h : SameAbove k m n) (commands : List Command) (hs : StaysAbove k commands m) :
    SameAbove k (m.performAll commands) (n.performAll commands) ∧ StaysAbove k commands n ∧
    (m.performAll commands).stack.upTo k = m.stack.upTo k ∧
    (m.performAll commands).stack.global.queue = m.stack.global.queue ∧
    (n.performAll commands).stack.upTo k = n.stack.upTo k ∧
    (n.performAll commands).stack.global.queue = n.stack.global.queue := by
  have hm : (m.stack.upTo k).length = k := upTo_length hs.depth_lt
  have hn : (n.stack.upTo k).length = k := upTo_length (h.depth ▸ hs.depth_lt)
  have hmtop := top_above m k
  have hntop := top_above n k
  rw [h.top_eq] at hntop
  generalize m.top k = v at hmtop hntop
  generalize m.stack.upTo k = low, m.stack.global.queue = queue at *
  generalize n.stack.upTo k = low', n.stack.global.queue = queue' at *
  subst hmtop hntop
  have hv : StaysAbove 0 commands v := (staysAbove_above low queue hm commands v).1 hs
  rw [performAll_above low queue commands v hv, performAll_above low' queue' commands v hv]
  exact ⟨sameAbove_above hm hn _ _ _, (staysAbove_above low' queue' hn commands v).2 hv, upTo_above hm _ _, rfl,
    upTo_above hn _ _, rfl⟩

/-! A step has finitely many moments, so whether a run stays above a depth can be computed. -/

/-- Tests the moments of a step that takes at most `rounds` rounds. -/
def momentsTest (m : Machine) (rounds : Nat) (test : Machine → Bool) : Bool :=
  match Stage.later rounds m.stage with
  | .ended _ _ => (List.range (rounds + 1)).all fun i => test (m.moment .step i)
  | _ => false

theorem of_momentsTest {rounds : Nat} {test : Machine → Bool} (h : m.momentsTest rounds test = true) (i : Nat) :
    test (m.moment .step i) = true := by
  unfold momentsTest at h
  cases hl : Stage.later rounds m.stage with
  | seeking _ | settling _ => rw [hl] at h; cases h
  | ended move answer =>
    rw [hl] at h
    have hall (j : Nat) (hj : j < rounds + 1) : test (m.moment .step j) = true :=
      List.all_eq_true.1 h j (List.mem_range.2 hj)
    by_cases hi : i < rounds + 1
    · exact hall i hi
    · -- The loop is over, and its last moment was tested.
      obtain ⟨j, rfl⟩ : ∃ j, i = rounds + j := ⟨i - rounds, by omega⟩
      have hlast : m.moment .step (rounds + j) = m.moment .step rounds := by
        show (Stage.later (rounds + j) m.stage).machine = (Stage.later rounds m.stage).machine
        rw [Stage.later_add, hl, Stage.later_ended]
      rw [hlast]
      exact hall rounds (Nat.lt_succ_self rounds)

/-- A call that is suspended by another call. -/
def suspendedScript : String := "function g() { let z = 1; z = 2; }\nfunction f(a) { g(); a = 3; }\nf(1);\nf(2);"

/-- A machine whose calls at depths `1` to `k` have lost their variables and their work, and whose top level has lost its
work. -/
def cleared (m : Machine) (k : Nat) : Machine :=
  (m.top k).above ((m.stack.upTo k).map fun a => { a with scope := .empty, queue := [] }) []

theorem sameAbove_cleared (h : k < m.stack.depth) : SameAbove k m (m.cleared k) := by
  have hk : (m.stack.upTo k).length = k := upTo_length h
  have hs : SameAbove k ((m.top k).above (m.stack.upTo k) m.stack.global.queue) (m.cleared k) :=
    sameAbove_above hk ((List.length_map _).trans hk) _ _ _
  rwa [top_above] at hs

/-- After four steps `f` is suspended by its call of `g`. If `f` loses its parameter and its work, and the top level its
work, the next step is the same. -/
theorem suspended_isolated_suspendedScript : ∃ m, load suspendedScript none .chained = .ok m ∧
    SameAbove 1 (m.performAll [.step, .step, .step, .step]) ((m.performAll [.step, .step, .step, .step]).cleared 1) ∧
    StaysAbove 1 [.step] (m.performAll [.step, .step, .step, .step]) ∧
    SameAbove 1 ((m.performAll [.step, .step, .step, .step]).performAll [.step])
      (((m.performAll [.step, .step, .step, .step]).cleared 1).performAll [.step]) := by
  have hrun : (load suspendedScript none .chained).toOption.any (fun m =>
      let n := m.performAll [.step, .step, .step, .step]
      n.momentsTest 3 (1 < ·.stack.depth) && 1 < n.stack.depth && 1 < n.step.machine.stack.depth) = true := by
    decide +kernel
  obtain ⟨m, h, ht⟩ := exists_loaded hrun
  simp only [Bool.and_eq_true, decide_eq_true_eq] at ht
  obtain ⟨⟨hmoments, hd⟩, hd'⟩ := ht
  have hs : StaysAbove 1 [.step] (m.performAll [.step, .step, .step, .step]) :=
    ⟨⟨hd, fun i => of_decide_eq_true (of_momentsTest hmoments i)⟩, hd'⟩
  have hsame := sameAbove_cleared hd
  exact ⟨m, h, hsame, hs, (suspended_isolated hsame [.step] hs).1⟩

end Isolation

end Machine

end Stepwise
