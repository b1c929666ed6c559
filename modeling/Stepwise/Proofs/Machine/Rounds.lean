import Stepwise.Proofs.Machine.Footprint

/-!
# What a round can be

A round of a step looks at the innermost frame. If that has work, its first unit is taken (`Machine.take?`), and a visible
unit runs at the depth of its frame, be it a call or the top level. Calls that the unit makes come on top of the frame. So
all that the round does to the frame from then on, it does by this depth: names are looked up and bound there, more work is
queued there, and it is the call at this depth that a `return` takes off (`Machine.dispatch`).

* **`Stage.next_seeking`**: a round that takes a visible unit dispatches it in this way.
* **`Stage.next_round`**: every round is of one of the kinds that `Stage.Round` lists. What rounds keep is proved from this
  list, so that `Stage.next` is opened only here.
-/

namespace Stepwise

namespace Machine

/-- Puts work in front of the queue of the frame at a depth. -/
def schedule (m : Machine) (depth : Nat) (work : List Work) : Machine :=
  { m with stack := m.stack.modifyAt depth fun f => { f with queue := work ++ f.queue } }

/-- The first unit of the innermost frame, and the machine without it. -/
def take? (m : Machine) : Option (Work × Machine) :=
  match m.stack.current.queue with
  | [] => none
  | w :: _ => some (w, { m with stack := m.stack.modifyAt m.stack.depth fun f => { f with queue := f.queue.tail } })

/-- Takes the call at a depth off the stack, which gives a value. The top level stays, without its work. -/
def returnFrom (m : Machine) (depth : Nat) (v : Value) : Machine :=
  match m.stack.remove? depth with
  | some (owner, stack) => (({ m with stack }).logReturn owner.name v).concluded owner
  | none => (m.withQueue []).logReturn "(global)" v

/-- Runs a unit that was taken from the innermost frame. -/
def dispatch (m : Machine) (w : Work) : Stage :=
  match w.plan.runAt m.stack.depth (m.announce w) with
  | (.ok (.next work), n) => .settling (n.schedule m.stack.depth work)
  | (.ok (.leave v), n) => .settling (n.returnFrom m.stack.depth v)
  | (.error e, n) => (n.halt e).close

end Machine

namespace Stage

open Machine

/-- One round of a step. -/
inductive Round : Stage → Stage → Prop where
  /-- A call without work is taken off before the next unit is looked for. -/
  | exhausted {m : Machine} {a : Activation} {calls : List Activation} : m.stack.calls = a :: calls → a.queue = [] →
    Round (.seeking m) (.seeking (m.dropped [a] calls))
  /-- There is nothing left to do. -/
  | idle {m : Machine} : m.stack.calls = [] → m.stack.global.queue = [] →
    Round (.seeking m) (.ended ⟨{ m with finished := true }, false⟩ .done)
  /-- A block is opened, or an empty statement is dropped. -/
  | opened {m t : Machine} {w : Work} : m.take? = some (w, t) → w.transparent = true →
    Round (.seeking m) (.seeking (t.schedule t.stack.depth w.opened))
  /-- A unit runs, and its frame goes on with more work. -/
  | scheduled {m t n : Machine} {w : Work} {work : List Work} : m.take? = some (w, t) → w.transparent = false →
    (t.announce w).evaluate t.stack.depth w.run = (.ok (.next work), n) →
    Round (.seeking m) (.settling (n.schedule t.stack.depth work))
  /-- A unit leaves its call, which is not the innermost one if the unit made calls. -/
  | returned {m t n : Machine} {w : Work} {v : Value} {pushed below : List Activation} {owner : Activation} :
    m.take? = some (w, t) → w.transparent = false →
    (t.announce w).evaluate t.stack.depth w.run = (.ok (.leave v), n) →
    n.stack.calls = pushed ++ owner :: below → below.length + 1 = t.stack.depth →
    Round (.seeking m) (.settling (((n.withCalls (pushed ++ below)).logReturn owner.name v).concluded owner))
  /-- A unit leaves the top level. -/
  | left {m t n : Machine} {w : Work} {v : Value} : m.take? = some (w, t) → w.transparent = false →
    (t.announce w).evaluate t.stack.depth w.run = (.ok (.leave v), n) → t.stack.depth = 0 →
    Round (.seeking m) (.settling ((n.withQueue []).logReturn "(global)" v))
  /-- A unit fails. -/
  | failed {m t n : Machine} {w : Work} {e : RuntimeError} : m.take? = some (w, t) → w.transparent = false →
    (t.announce w).evaluate t.stack.depth w.run = (.error e, n) → Round (.seeking m) (n.halt e).close
  /-- After a unit, a call without work is taken off. -/
  | settled {m : Machine} {a : Activation} {calls : List Activation} : m.stack.calls = a :: calls → a.queue = [] →
    Round (.settling m) (.settling (m.dropped [a] calls))
  /-- The innermost call has work. -/
  | busy {m : Machine} {a : Activation} {calls : List Activation} : m.stack.calls = a :: calls → a.queue ≠ [] →
    Round (.settling m) m.close
  /-- There is no call. Without work the machine is finished. -/
  | emptied {m : Machine} : m.stack.calls = [] →
    Round (.settling m) (if m.stack.global.queue.isEmpty then { m with finished := true : Machine } else m).close
  | ended (move : Move) (answer : Answer) : Round (.ended move answer) (.ended move answer)

end Stage

namespace Machine

variable {m : Machine} {w : Work} {queue : List Work}

/-! ## Units of calls -/

section Calls

variable {a : Activation} {calls : List Activation}

theorem take?_call (hc : m.stack.calls = a :: calls) (hq : a.queue = w :: queue) :
    m.take? = some (w, m.withCalls ({ a with queue } :: calls)) := by
  have hs : m.stack = ⟨m.stack.global, [] ++ a :: calls⟩ := by rw [List.nil_append, ← hc]
  have hqueue : m.stack.current.queue = w :: queue := by
    rw [Stack.current, hc]
    exact hq
  have hm := Stack.modifyAt_middle m.stack.global [] calls a fun f => { f with queue := f.queue.tail }
  rw [← hs] at hm
  have hd : m.stack.depth = calls.length + 1 := by rw [Stack.depth, hc, List.length_cons]
  unfold take?
  rw [hqueue, hd]
  simp only [hm, hq, List.tail_cons]
  rfl

theorem schedule_middle {upper : List Activation} (hc : m.stack.calls = upper ++ a :: calls) (work : List Work) :
    m.schedule (calls.length + 1) work = m.withCalls (upper ++ { a with queue := work ++ a.queue } :: calls) := by
  have hs : m.stack = ⟨m.stack.global, upper ++ a :: calls⟩ := by rw [← hc]
  rw [schedule, hs, Stack.modifyAt_middle, withCalls]

end Calls

/-! ## Units of the top level -/

theorem take?_top (hc : m.stack.calls = []) (hq : m.stack.global.queue = w :: queue) :
    m.take? = some (w, m.withQueue queue) := by
  have hqueue : m.stack.current.queue = w :: queue := by
    rw [Stack.current, hc]
    exact hq
  have hd : m.stack.depth = 0 := by rw [Stack.depth, hc, List.length_nil]
  unfold take?
  rw [hqueue, hd]
  simp only [Stack.modifyAt_top, hq, List.tail_cons]
  rfl

theorem schedule_top (m : Machine) (work : List Work) :
    m.schedule 0 work = m.withQueue (work ++ m.stack.global.queue) := by
  rw [schedule, Stack.modifyAt_top, withQueue]

/-! ## Units are dispatched at the depth of their frame -/

section Dispatch

variable {t n : Machine}

theorem evaluate_unit (t : Machine) (w : Work) :
    (t.announce w).evaluate t.stack.depth w.run = w.plan.runAt t.stack.depth (t.announce w) :=
  w.run_plan ▸ w.plan.evaluate_run (Nat.le_refl _)

theorem dispatch_next {work : List Work} (h : (t.announce w).evaluate t.stack.depth w.run = (.ok (.next work), n)) :
    t.dispatch w = .settling (n.schedule t.stack.depth work) := by
  rw [dispatch, ← evaluate_unit, h]

theorem dispatch_leave {v : Value} (h : (t.announce w).evaluate t.stack.depth w.run = (.ok (.leave v), n)) :
    t.dispatch w = .settling (n.returnFrom t.stack.depth v) := by
  rw [dispatch, ← evaluate_unit, h]

theorem dispatch_error {e : RuntimeError} (h : (t.announce w).evaluate t.stack.depth w.run = (.error e, n)) :
    t.dispatch w = (n.halt e).close := by
  rw [dispatch, ← evaluate_unit, h]

theorem returnFrom_middle {pushed below : List Activation} {owner : Activation} (v : Value)
    (hc : n.stack.calls = pushed ++ owner :: below) : n.returnFrom (below.length + 1) v =
      ((n.withCalls (pushed ++ below)).logReturn owner.name v).concluded owner := by
  have hs : n.stack = ⟨n.stack.global, pushed ++ owner :: below⟩ := by rw [← hc]
  rw [returnFrom, hs, Stack.remove?_middle]
  rfl

theorem enterCall_dispatch {a : Activation} {calls : List Activation} (hc : t.stack.calls = a :: calls) (w : Work) :
    (t.announce w).enterCall ⟨w, a, calls⟩ = t.dispatch w := by
  have hcalls : (t.announce w).stack.calls = [] ++ a :: calls := hc
  have hd : t.stack.depth = calls.length + 1 := by rw [Stack.depth, hc, List.length_cons]
  have hlocals := localsAt_middle hcalls
  rw [← hd] at hlocals
  unfold enterCall
  cases hr : w.run ((t.announce w).context (some a.scope)) with
  | error e c =>
    rw [← hlocals] at hr
    rw [dispatch_error (evaluate_error hr), hd, takeOver_middle hcalls]
    rfl
  | ok o c =>
    rw [← hlocals] at hr
    have he := evaluate_ok hr
    rw [hd, takeOver_middle hcalls, ← hd] at he
    cases o with
    | next work =>
      rw [dispatch_next he, hd, schedule_middle rfl]
      rfl
    | leave v =>
      rw [dispatch_leave he, hd, returnFrom_middle v (show _ = c.pushed ++ a.after c [] :: calls from rfl)]
      rfl

theorem enterGlobal_dispatch (hc : t.stack.calls = []) (w : Work) :
    (t.announce w).enterGlobal w t.stack.global.queue = t.dispatch w := by
  have hd : t.stack.depth = 0 := by rw [Stack.depth, hc, List.length_nil]
  have hcalls : (t.announce w).stack.calls = [] := hc
  have hnone := (t.announce w).localsAt_top
  have hover (c : Context) : (t.announce w).takeOver 0 c = (t.announce w).adopt c c.pushed t.stack.global.queue := by
    rw [takeOver_top, hcalls, List.append_nil]
    rfl
  unfold enterGlobal
  cases hr : w.run ((t.announce w).context none) with
  | error e c =>
    rw [← hnone, ← hd] at hr
    rw [dispatch_error (evaluate_error hr), hd, hover]
  | ok o c =>
    rw [← hnone] at hr
    have he := evaluate_ok hr
    rw [hover, ← hd] at he
    cases o with
    | next work =>
      rw [dispatch_next he, hd, schedule_top]
      rfl
    | leave v =>
      rw [dispatch_leave he, hd]
      rfl

/-- What becomes of a unit is one of the kinds of rounds. -/
theorem dispatch_round (ht : m.take? = some (w, t)) (hw : w.transparent = false) :
    (Stage.seeking m).Round (t.dispatch w) := by
  cases hr : (t.announce w).evaluate t.stack.depth w.run with
  | mk r n =>
    cases r with
    | error e =>
      rw [dispatch_error hr]
      exact .failed ht hw hr
    | ok o =>
      cases o with
      | next work =>
        rw [dispatch_next hr]
        exact .scheduled ht hw hr
      | leave v =>
        rw [dispatch_leave hr]
        cases hc : t.stack.calls with
        | nil =>
          have hd : t.stack.depth = 0 := by rw [Stack.depth, hc, List.length_nil]
          rw [hd]
          exact .left ht hw hr hd
        | cons a calls =>
          have hcalls : (t.announce w).stack.calls = [] ++ a :: calls := hc
          have hd : t.stack.depth = calls.length + 1 := by rw [Stack.depth, hc, List.length_cons]
          have hn : n = _ := (congrArg Prod.snd hr).symm.trans (evaluate_machine _ _ _)
          rw [hd, takeOver_middle hcalls] at hn
          have howner := congrArg (·.stack.calls) hn
          rw [hd, returnFrom_middle v howner]
          exact .returned ht hw hr howner hd.symm

end Dispatch

end Machine

/-! ## All rounds -/

namespace Stage

open Machine

/-- **Visible units** are dispatched at the depth of the frame that they are taken from. -/
theorem next_seeking {m t : Machine} {w : Work} (ht : m.take? = some (w, t)) (hw : w.transparent = false) :
    (seeking m).next = t.dispatch w := by
  cases hc : m.stack.calls with
  | nil =>
    cases hq : m.stack.global.queue with
    | nil => simp [take?, Stack.current, hc, hq] at ht
    | cons u queue =>
      rw [take?_top hc hq] at ht
      cases ht
      rw [next_seeking_global hc hq, hw]
      exact enterGlobal_dispatch (t := m.withQueue queue) hc w
  | cons a calls =>
    cases hq : a.queue with
    | nil => simp [take?, Stack.current, FrameView.ofActivation, hc, hq] at ht
    | cons u queue =>
      rw [take?_call hc hq] at ht
      cases ht
      rw [next_seeking_call hc hq, hw]
      exact enterCall_dispatch rfl w

theorem seeking_round (m : Machine) : (seeking m).Round (seeking m).next := by
  cases hc : m.stack.calls with
  | nil =>
    cases hq : m.stack.global.queue with
    | nil =>
      rw [next_seeking_idle hc hq]
      exact .idle hc hq
    | cons w queue =>
      have ht := take?_top hc hq
      cases hw : w.transparent with
      | true =>
        have hround := Round.opened ht hw
        have hd : (m.withQueue queue).stack.depth = 0 := by rw [Stack.depth, withQueue, hc, List.length_nil]
        rw [hd, schedule_top] at hround
        rw [next_seeking_global hc hq, hw]
        exact hround
      | false =>
        rw [next_seeking ht hw]
        exact dispatch_round ht hw
  | cons a calls =>
    cases hq : a.queue with
    | nil =>
      rw [next_seeking_exhausted hc hq]
      exact .exhausted hc hq
    | cons w queue =>
      have ht := take?_call hc hq
      cases hw : w.transparent with
      | true =>
        have hround := Round.opened ht hw
        rw [show (m.withCalls ({ a with queue } :: calls)).stack.depth = calls.length + 1 from rfl,
          schedule_middle (show _ = [] ++ { a with queue } :: calls from rfl)] at hround
        rw [next_seeking_call hc hq, hw]
        exact hround
      | false =>
        rw [next_seeking ht hw]
        exact dispatch_round ht hw

theorem settling_round (m : Machine) : (settling m).Round (settling m).next := by
  cases hc : m.stack.calls with
  | nil =>
    have hround := Round.emptied hc
    rw [next_settling_global hc]
    split
    · rename_i hq
      rwa [if_pos hq] at hround
    · rename_i hq
      rwa [if_neg hq] at hround
  | cons a calls =>
    rw [next_settling_call hc]
    cases hq : a.queue.isEmpty with
    | true => exact .settled hc (List.isEmpty_iff.1 hq)
    | false => exact .busy hc (List.isEmpty_eq_false_iff.1 hq)

/-- **Rounds** are of the kinds listed. -/
theorem next_round (s : Stage) : s.Round s.next := by
  cases s with
  | seeking m => exact seeking_round m
  | settling m => exact settling_round m
  | ended move answer => exact .ended move answer

end Stage

end Stepwise
