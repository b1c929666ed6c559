import Stepwise.Proofs.Machine.Cases
import Stepwise.Proofs.Machine.Units

/-!
# The moments of a step

A step is a loop. A round looks at the innermost frame: a call without work is taken off the stack, a block is opened, an
empty statement is dropped, and a visible unit runs. After the unit, further rounds take off calls that have nothing left
to do. `Stage.next` is one round, and the machine between two rounds is a moment of the step.

* **`Machine.seeking_leads`**: the loop ends for every machine, also for one that never finishes, and it ends with the move
  that `Machine.step` gives. Opening a block makes a queue longer, but lowers its weight (`Work.weight_opened`).
-/

namespace Stepwise

/-- What a step answers. -/
inductive Answer where
  | more
  | done
deriving DecidableEq

/-- Where the loop of a step stands. -/
inductive Stage where
  /-- The next visible unit is looked for. -/
  | seeking (m : Machine)
  /-- A unit has run. Calls that have nothing left to do are taken off. -/
  | settling (m : Machine)
  | ended (move : Move) (answer : Answer)

/-- What is put in place of a unit that is no step of its own. -/
def Work.opened : Work → List Work
  | stmt (.block body _) => body.map Work.stmt
  | _ => []

namespace Machine

def withCalls (m : Machine) (calls : List Activation) : Machine := { m with stack := { m.stack with calls } }

def withQueue (m : Machine) (queue : List Work) : Machine :=
  { m with stack := { m.stack with global := { m.stack.global with queue } } }

/-- A step that ran a unit is over. -/
def close (m : Machine) : Stage := .ended ⟨m, true⟩ (if m.finished then .done else .more)

/-- A unit of a call runs. -/
def enterCall (m : Machine) (r : Ready) : Stage :=
  match r.unit.run (m.context (some r.owner.scope)) with
  | .error e c => ((m.adopt c (c.pushed ++ r.owner.after c [] :: r.below) m.stack.global.queue).halt e).close
  | .ok (.next work) c => .settling (m.adopt c (c.pushed ++ r.owner.after c work :: r.below) m.stack.global.queue)
  | .ok (.leave v) c =>
    .settling (((m.adopt c (c.pushed ++ r.below) m.stack.global.queue).logReturn r.owner.name v).concluded r.owner)

/-- A unit of the top level runs. -/
def enterGlobal (m : Machine) (unit : Work) (queue : List Work) : Stage :=
  match unit.run (m.context none) with
  | .error e c => ((m.adopt c c.pushed queue).halt e).close
  | .ok (.next work) c => .settling (m.adopt c c.pushed (work ++ queue))
  | .ok (.leave v) c => .settling ((m.adopt c c.pushed []).logReturn "(global)" v)

end Machine

namespace Stage

/-- The machine at this moment. -/
def machine : Stage → Machine
  | seeking m | settling m => m
  | ended move _ => move.machine

/-- One round of the loop. -/
def next : Stage → Stage
  | seeking m =>
    match m.stack.calls with
    | [] =>
      match m.stack.global.queue with
      | [] => ended ⟨{ m with finished := true }, false⟩ .done
      | w :: queue =>
        if w.transparent then seeking (m.withQueue (w.opened ++ queue)) else (m.announce w).enterGlobal w queue
    | a :: calls =>
      match a.queue with
      | [] => seeking (m.dropped [a] calls)
      | w :: queue =>
        if w.transparent then seeking (m.withCalls ({ a with queue := w.opened ++ queue } :: calls))
        else ((m.withCalls ({ a with queue } :: calls)).announce w).enterCall ⟨w, { a with queue }, calls⟩
  | settling m =>
    match m.stack.calls with
    | [] => if m.stack.global.queue.isEmpty then { m with finished := true : Machine }.close else m.close
    | a :: calls => if a.queue.isEmpty then settling (m.dropped [a] calls) else m.close
  | ended move answer => ended move answer

/-- The loop after a number of rounds. -/
def later : Nat → Stage → Stage
  | 0, s => s
  | n + 1, s => later n s.next

/-- The loop comes to a stage. -/
def Leads (s t : Stage) : Prop := ∃ n, later n s = t

theorem later_add (s : Stage) (i j : Nat) : later (i + j) s = later j (later i s) := by
  induction i generalizing s with
  | zero => rw [Nat.zero_add, later]
  | succ i ih => rw [Nat.add_right_comm, later, later, ih]

theorem later_ended (move : Move) (answer : Answer) (n : Nat) : later n (ended move answer) = ended move answer := by
  induction n with
  | zero => rfl
  | succ n ih => exact ih

theorem Leads.refl (s : Stage) : s.Leads s := ⟨0, rfl⟩

theorem Leads.of_next {s t : Stage} (h : s.next.Leads t) : s.Leads t := by
  obtain ⟨n, rfl⟩ := h
  exact ⟨n + 1, rfl⟩

end Stage

open Stage (Leads)

/-! ## One round -/

namespace Machine

section Rounds

variable {m : Machine} {a : Activation} {calls : List Activation} {w : Work} {queue : List Work}

theorem next_seeking_idle (hc : m.stack.calls = []) (hq : m.stack.global.queue = []) :
    (Stage.seeking m).next = .ended ⟨{ m with finished := true }, false⟩ .done := by
  simp only [Stage.next, hc, hq]

theorem next_seeking_global (hc : m.stack.calls = []) (hq : m.stack.global.queue = w :: queue) :
    (Stage.seeking m).next =
      if w.transparent then .seeking (m.withQueue (w.opened ++ queue)) else (m.announce w).enterGlobal w queue := by
  simp only [Stage.next, hc, hq]

theorem next_seeking_exhausted (hc : m.stack.calls = a :: calls) (hq : a.queue = []) :
    (Stage.seeking m).next = .seeking (m.dropped [a] calls) := by
  simp only [Stage.next, hc, hq]

theorem next_seeking_call (hc : m.stack.calls = a :: calls) (hq : a.queue = w :: queue) :
    (Stage.seeking m).next =
      if w.transparent then .seeking (m.withCalls ({ a with queue := w.opened ++ queue } :: calls))
      else ((m.withCalls ({ a with queue } :: calls)).announce w).enterCall ⟨w, { a with queue }, calls⟩ := by
  simp only [Stage.next, hc, hq]

theorem next_settling_global (hc : m.stack.calls = []) :
    (Stage.settling m).next =
      if m.stack.global.queue.isEmpty then { m with finished := true : Machine }.close else m.close := by
  simp only [Stage.next, hc]

theorem next_settling_call (hc : m.stack.calls = a :: calls) :
    (Stage.settling m).next = if a.queue.isEmpty then .settling (m.dropped [a] calls) else m.close := by
  simp only [Stage.next, hc]

theorem dropped_finished (m : Machine) (done calls : List Activation) :
    (m.dropped done calls).finished = m.finished := by
  obtain ⟨logs, h⟩ := ({ m with stack := { m.stack with calls } } : Machine).concludedAll_eq done
  rw [dropped, h]

theorem withCalls_self (hc : m.stack.calls = calls) : m.withCalls calls = m := by
  subst hc
  rfl

theorem dropped_nil (hc : m.stack.calls = calls) : m.dropped [] calls = m := withCalls_self hc

theorem dropped_dropped (m : Machine) (a : Activation) (done rest calls : List Activation) :
    (m.dropped [a] rest).dropped done calls = m.dropped (a :: done) calls := by
  rw [dropped_eq, dropped_eq, dropped_eq, concludedAll_withStack]
  rfl

end Rounds

/-! ## After a unit -/

section Settling

variable {m : Machine} {a : Activation} {calls : List Activation}

theorem settle_global (hc : m.stack.calls = []) :
    m.settle = if m.stack.global.queue.isEmpty then { m with finished := true } else m := by
  rw [settle_eq, hc]
  simp only [List.takeWhile_nil, List.dropWhile_nil, List.isEmpty_nil, Bool.true_and, dropped_nil hc]

theorem settle_exhausted (hc : m.stack.calls = a :: calls) (hq : a.queue = []) :
    m.settle = (m.dropped [a] calls).settle := by
  rw [settle_eq, settle_eq, hc]
  simp only [hq, List.isEmpty_nil, List.takeWhile_cons_of_pos, List.dropWhile_cons_of_pos, dropped_stack,
    dropped_dropped]

theorem settle_busy (hc : m.stack.calls = a :: calls) (hq : a.queue.isEmpty = false) : m.settle = m := by
  have hq' : ¬ a.queue.isEmpty = true := by simp [hq]
  rw [settle_eq, hc]
  simp only [List.takeWhile_cons_of_neg (p := fun a : Activation => a.queue.isEmpty) hq',
    List.dropWhile_cons_of_neg (p := fun a : Activation => a.queue.isEmpty) hq', List.isEmpty_cons, Bool.false_and,
    Bool.false_eq_true, ↓reduceIte, dropped_nil hc]

/-- After a unit, the loop takes off what `settle` takes off. -/
theorem settling_leads (m : Machine) : (Stage.settling m).Leads m.settle.close := by
  generalize hc : m.stack.calls = calls
  induction calls generalizing m with
  | nil =>
    refine Leads.of_next ?_
    rw [next_settling_global hc, settle_global hc]
    split <;> exact Leads.refl _
  | cons a calls ih =>
    refine Leads.of_next ?_
    rw [next_settling_call hc]
    cases hq : a.queue.isEmpty with
    | false => rw [settle_busy hc hq]; exact Leads.refl _
    | true =>
      rw [settle_exhausted hc (List.isEmpty_iff.1 hq)]
      exact ih _ (by rw [dropped_stack])

theorem enterCall_leads (m : Machine) (r : Ready) : (m.enterCall r).Leads (m.runCall r).close := by
  unfold enterCall
  cases hu : r.unit.run (m.context (some r.owner.scope)) with
  | error e c => rw [runCall_error hu]; exact Leads.refl _
  | ok o c =>
    cases o with
    | next work => rw [runCall_next hu]; exact settling_leads _
    | leave v => rw [runCall_leave hu]; exact settling_leads _

theorem enterGlobal_leads (m : Machine) (unit : Work) (queue : List Work) :
    (m.enterGlobal unit queue).Leads (m.runGlobal unit queue).close := by
  unfold enterGlobal
  cases hu : unit.run (m.context none) with
  | error e c => rw [runGlobal_error hu]; exact Leads.refl _
  | ok o c =>
    cases o with
    | next work => rw [runGlobal_next hu]; exact settling_leads _
    | leave v => rw [runGlobal_leave hu]; exact settling_leads _

end Settling

end Machine

/-! ## What a round does not change -/

/-- Opening a unit does not change which unit is next. -/
theorem takeUnit?_opened {w : Work} (h : w.transparent = true) (queue : List Work) :
    takeUnit? (w.opened ++ queue) = takeUnit? (w :: queue) := by
  cases w with
  | stmt s =>
    cases s with
    | block body span => exact (takeUnit?_block body span queue).symm
    | empty span => rfl
    | _ => cases h
  | _ => cases h

namespace Machine

section Unchanged

variable {m : Machine} {a : Activation} {calls : List Activation} {queue : List Work}

/-- Only the next unit of the innermost call counts, not the blocks that it stands in. -/
theorem step_withCalls (hf : m.finished = false) (hc : m.stack.calls = a :: calls)
    (hq : takeUnit? queue = takeUnit? a.queue) : (m.withCalls ({ a with queue } :: calls)).step = m.step := by
  have hf' : (m.withCalls ({ a with queue } :: calls)).finished = false := hf
  cases ht : takeUnit? a.queue with
  | some u =>
    obtain ⟨unit, rest⟩ := u
    have hn : nextReady m.stack.calls = ([], some ⟨unit, { a with queue := rest }, calls⟩) := by
      rw [hc, nextReady, ht]
    have hn' : nextReady (m.withCalls ({ a with queue } :: calls)).stack.calls =
        ([], some ⟨unit, { a with queue := rest }, calls⟩) := by
      show nextReady ({ a with queue } :: calls) = _
      rw [nextReady, hq, ht]
    rw [step_ready hf hn, step_ready hf' hn']
    rfl
  | none =>
    obtain ⟨done, ready, hn⟩ : ∃ done ready, nextReady calls = (done, ready) := ⟨_, _, rfl⟩
    have ha : nextReady m.stack.calls = (a :: done, ready) := by rw [hc, nextReady, ht, hn]
    have hb : nextReady (m.withCalls ({ a with queue } :: calls)).stack.calls = ({ a with queue } :: done, ready) := by
      show nextReady ({ a with queue } :: calls) = _
      rw [nextReady, hq, ht, hn]
    cases ready with
    | some r => rw [step_ready hf ha, step_ready hf' hb]; rfl
    | none =>
      cases hg : takeUnit? m.stack.global.queue with
      | some u => rw [step_top hf ha hg, step_top hf' hb hg]; rfl
      | none => rw [step_idle hf ha hg, step_idle hf' hb hg]; rfl

theorem step_withQueue (hf : m.finished = false) (hc : m.stack.calls = [])
    (hq : takeUnit? queue = takeUnit? m.stack.global.queue) : (m.withQueue queue).step = m.step := by
  have hn : nextReady m.stack.calls = ([], none) := by rw [hc, nextReady]
  have hf' : (m.withQueue queue).finished = false := hf
  have hn' : nextReady (m.withQueue queue).stack.calls = ([], none) := hn
  have hq' : takeUnit? (m.withQueue queue).stack.global.queue = takeUnit? m.stack.global.queue := hq
  cases hg : takeUnit? m.stack.global.queue with
  | some u => rw [step_top hf hn hg, step_top hf' hn' (hq'.trans hg)]; rfl
  | none => rw [step_idle hf hn hg, step_idle hf' hn' (hq'.trans hg)]; rfl

/-- A call without work is taken off before the next unit is looked for. -/
theorem step_dropped (hf : m.finished = false) (hc : m.stack.calls = a :: calls) (hq : a.queue = []) :
    (m.dropped [a] calls).step = m.step := by
  have hf' : (m.dropped [a] calls).finished = false := (m.dropped_finished _ _).trans hf
  obtain ⟨done, ready, hn⟩ : ∃ done ready, nextReady calls = (done, ready) := ⟨_, _, rfl⟩
  have ha : nextReady m.stack.calls = (a :: done, ready) := by rw [hc, nextReady, hq, takeUnit?, hn]
  have hd : nextReady (m.dropped [a] calls).stack.calls = (done, ready) := by rw [dropped_stack]; exact hn
  cases ready with
  | some r => rw [step_ready hf ha, step_ready hf' hd, dropped_dropped]
  | none =>
    have hg' : (m.dropped [a] calls).stack.global.queue = m.stack.global.queue := by rw [dropped_stack]
    cases hg : takeUnit? m.stack.global.queue with
    | some u => rw [step_top hf ha hg, step_top hf' hd (hg' ▸ hg), dropped_dropped]
    | none => rw [step_idle hf ha hg, step_idle hf' hd (hg' ▸ hg), dropped_dropped]

end Unchanged

end Machine

/-! ## The loop ends -/

mutual

/-- How many rounds it takes to open a statement. -/
def Stmt.weight : Stmt → Nat
  | .block body _ => Stmt.listWeight body + 1
  | _ => 1

def Stmt.listWeight : List Stmt → Nat
  | [] => 0
  | s :: ss => s.weight + Stmt.listWeight ss

end

def Work.weight : Work → Nat
  | stmt s => s.weight
  | _ => 1

def queueWeight : List Work → Nat
  | [] => 0
  | w :: queue => w.weight + queueWeight queue

theorem queueWeight_append (queue queue' : List Work) :
    queueWeight (queue ++ queue') = queueWeight queue + queueWeight queue' := by
  induction queue with
  | nil => exact (Nat.zero_add _).symm
  | cons w queue ih => rw [List.cons_append, queueWeight, queueWeight, ih, Nat.add_assoc]

theorem queueWeight_stmts (body : List Stmt) : queueWeight (body.map Work.stmt) = Stmt.listWeight body := by
  induction body with
  | nil => rfl
  | cons s body ih => rw [List.map_cons, queueWeight, ih, Stmt.listWeight, Work.weight]

theorem Work.weight_opened {w : Work} (h : w.transparent = true) : queueWeight w.opened < w.weight := by
  cases w with
  | stmt s =>
    cases s with
    | block body span =>
      show queueWeight (body.map Work.stmt) < (Stmt.block body span).weight
      rw [queueWeight_stmts, Stmt.weight]
      omega
    | empty span => exact Nat.zero_lt_one
    | _ => cases h
  | _ => cases h

theorem queueWeight_opened {w : Work} (h : w.transparent = true) (queue : List Work) :
    queueWeight (w.opened ++ queue) < queueWeight (w :: queue) := by
  have hw := Work.weight_opened h
  rw [queueWeight_append, queueWeight]
  omega

/-- How many rounds it may take to take all calls off the stack. -/
def callsWeight : List Activation → Nat
  | [] => 0
  | a :: calls => queueWeight a.queue + 1 + callsWeight calls

namespace Machine

/-- A bound on the rounds that come before a visible unit. -/
def weight (m : Machine) : Nat := callsWeight m.stack.calls + queueWeight m.stack.global.queue

/-- **The loop of a step ends**, with the move of the step, and it answers whether the machine is finished. -/
theorem seeking_leads {m : Machine} (hf : m.finished = false) :
    (Stage.seeking m).Leads (.ended m.step (if m.step.machine.finished then .done else .more)) := by
  -- A round that finds no visible unit makes the machine lighter and leaves the step as it is.
  induction hw : m.weight using Nat.strongRecOn generalizing m with
  | ind n ih =>
    refine Leads.of_next ?_
    cases hc : m.stack.calls with
    | nil =>
      have hn : nextReady m.stack.calls = ([], none) := by rw [hc, nextReady]
      cases hq : m.stack.global.queue with
      | nil =>
        have hg : takeUnit? m.stack.global.queue = none := by rw [hq, takeUnit?]
        rw [next_seeking_idle hc hq, step_idle hf hn hg, dropped_nil hc, ← hc, ← hq]
        exact Leads.refl _
      | cons w queue =>
        rw [next_seeking_global hc hq]
        cases ht : w.transparent with
        | true =>
          have hlt : (m.withQueue (w.opened ++ queue)).weight < n := by
            rw [← hw, weight, weight, hq]
            exact Nat.add_lt_add_left (queueWeight_opened ht queue) _
          have hstep : (m.withQueue (w.opened ++ queue)).step = m.step :=
            step_withQueue hf hc (by rw [hq, takeUnit?_opened ht])
          rw [← hstep]
          exact ih _ hlt hf rfl
        | false =>
          have hg : takeUnit? m.stack.global.queue = some (w, queue) := by rw [hq, takeUnit?_visible ht]
          rw [step_top hf hn hg, dropped_nil hc]
          exact enterGlobal_leads _ w queue
    | cons a calls =>
      cases hq : a.queue with
      | nil =>
        have hlt : (m.dropped [a] calls).weight < n := by
          rw [← hw, weight, weight, dropped_stack, hc, callsWeight]
          simp only
          omega
        rw [next_seeking_exhausted hc hq, ← step_dropped hf hc hq]
        exact ih _ hlt ((m.dropped_finished _ _).trans hf) rfl
      | cons w queue =>
        rw [next_seeking_call hc hq]
        cases ht : w.transparent with
        | true =>
          have hlt : (m.withCalls ({ a with queue := w.opened ++ queue } :: calls)).weight < n := by
            have h := queueWeight_opened ht queue
            rw [← hw, weight, weight, hc, callsWeight, hq]
            show callsWeight ({ a with queue := w.opened ++ queue } :: calls) + _ < _
            rw [callsWeight]
            simp only [withCalls]
            omega
          have hstep : (m.withCalls ({ a with queue := w.opened ++ queue } :: calls)).step = m.step :=
            step_withCalls hf hc (by rw [hq, takeUnit?_opened ht])
          rw [← hstep]
          exact ih _ hlt hf rfl
        | false =>
          have hr : nextReady m.stack.calls = ([], some ⟨w, { a with queue }, calls⟩) := by
            rw [hc, nextReady, hq, takeUnit?_visible ht]
          rw [step_ready hf hr]
          exact enterCall_leads _ _

end Machine

end Stepwise
