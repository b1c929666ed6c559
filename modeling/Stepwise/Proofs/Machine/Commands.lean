import Stepwise.Machine.Event
import Stepwise.Proofs.Machine.Cases

/-!
# Commands

A machine is driven by commands: it is stepped, and events are fired on it. Firing an event logs it and calls the listeners
(`fire_machine`). A property of its stack and its world that every single thing a command does keeps
(`Machine.Invariant`) holds after any sequence of commands (`Invariant.performAll`). If it depends on the lines that are
noted in the logs, the units that run must stand on proper lines (`Machine.LineInvariant`).
-/

namespace Stepwise

namespace Machine

/-! ## Firing an event -/

/-- Logs an event for each of its listeners. -/
def logFired (m : Machine) (event : String) (listeners : List Listener) : Machine :=
  listeners.foldl (fun m l => m.log .event s!"{event} event fired on {l.target.text}") m

/-- Calls listeners, the first one last. -/
def callAll (m : Machine) (event : String) (listeners : List Listener) : Machine :=
  match callListeners event listeners.reverse (m.context none) with
  | .ok _ c => { m.adopt c (c.pushed ++ m.stack.calls) m.stack.global.queue with finished := false }
  | .error e c => (m.adopt c (c.pushed ++ m.stack.calls) m.stack.global.queue).halt e

theorem fire_machine (m : Machine) (node : Nat) (event : String) : (m.fire node event).2.machine =
    if m.error.isSome || (m.listenersFor node event).isEmpty then m
    else (m.logFired event (m.listenersFor node event)).callAll event (m.listenersFor node event) := by
  unfold fire logFired callAll
  dsimp only
  cases m.error.isSome with
  | true => rfl
  | false =>
    cases (m.listenersFor node event).isEmpty with
    | true => rfl
    | false =>
      simp only [Bool.false_eq_true, ↓reduceIte, Bool.or_self]
      generalize (m.listenersFor node event).foldl _ m = n
      cases callListeners event (m.listenersFor node event).reverse (n.context none) <;> rfl

theorem logFired_eq (m : Machine) (event : String) (listeners : List Listener) :
    ∃ logs, m.logFired event listeners = { m with world := { m.world with logs } } := by
  induction listeners generalizing m with
  | nil => exact ⟨m.world.logs, rfl⟩
  | cons l ls ih =>
    obtain ⟨logs, h⟩ := ih (m.log .event s!"{event} event fired on {l.target.text}")
    exact ⟨logs, h⟩

section Called

variable {m : Machine} {event : String} {listeners : List Listener} {c : Context}

theorem callAll_ok (h : callListeners event listeners.reverse (m.context none) = .ok () c) :
    m.callAll event listeners =
      { m.adopt c (c.pushed ++ m.stack.calls) m.stack.global.queue with finished := false } := by
  unfold callAll
  rw [h]

theorem callAll_error {e : RuntimeError} (h : callListeners event listeners.reverse (m.context none) = .error e c) :
    m.callAll event listeners = (m.adopt c (c.pushed ++ m.stack.calls) m.stack.global.queue).halt e := by
  unfold callAll
  rw [h]

end Called

/-! ## Commands -/

/-- What a machine can be asked to do. -/
inductive Command where
  | step
  | fire (node : Nat) (event : String)
  | fireById (id event : String)
deriving DecidableEq, Inhabited

def perform (m : Machine) : Command → Machine
  | .step => m.step.machine
  | .fire node event => (m.fire node event).2.machine
  | .fireById id event => (m.fireById id event).2.machine

def performAll (m : Machine) (commands : List Command) : Machine := commands.foldl perform m

/-- The line of a machine has `L`, and its stack and its world have `P`. -/
structure Holds (L : Option Nat → Prop) (P : Stack → World → Prop) (m : Machine) : Prop where
  line : L m.line
  state : P m.stack m.world

/-- `P` is kept by everything that a command does to the stack and the world on a line with `L`, and the units that run
stand on such lines. A unit runs in a context that is made from the stack and the world; the scoping is any. -/
structure LineInvariant (L : Option Nat → Prop) (P : Stack → World → Prop) : Prop where
  /-- A call leaves the stack. -/
  dropped : ∀ {g a calls w}, P ⟨g, a :: calls⟩ w → P ⟨g, calls⟩ w
  /-- Something is logged that is no diagnostic. -/
  noted : ∀ {s w kind message line}, L line → kind ≠ .diagnostic → P s w → P s (w.log ⟨kind, message, line⟩)
  /-- A unit of a call. -/
  call_line : ∀ {g a calls w unit queue}, P ⟨g, a :: calls⟩ w → takeUnit? a.queue = some (unit, queue) →
    L (some unit.span.line)
  call_next : ∀ {g a calls w unit queue scoping line work c}, L line → P ⟨g, a :: calls⟩ w →
    takeUnit? a.queue = some (unit, queue) → unit.run ⟨scoping, line, g.scope, some a.scope, [], w⟩ = .ok (.next work) c →
    P ⟨⟨c.globals, g.queue⟩, c.pushed ++ { a with queue }.after c work :: calls⟩ c.world
  call_leave : ∀ {g a calls w unit queue scoping line v c}, L line → P ⟨g, a :: calls⟩ w →
    takeUnit? a.queue = some (unit, queue) → unit.run ⟨scoping, line, g.scope, some a.scope, [], w⟩ = .ok (.leave v) c →
    P ⟨⟨c.globals, g.queue⟩, c.pushed ++ calls⟩ c.world
  call_error : ∀ {g a calls w unit queue scoping line e c}, L line → P ⟨g, a :: calls⟩ w →
    takeUnit? a.queue = some (unit, queue) → unit.run ⟨scoping, line, g.scope, some a.scope, [], w⟩ = .error e c →
    P ⟨⟨c.globals, g.queue⟩, c.pushed ++ { a with queue }.after c [] :: calls⟩ c.world
  /-- A unit of the top level. -/
  top_line : ∀ {g w unit queue}, P ⟨g, []⟩ w → takeUnit? g.queue = some (unit, queue) → L (some unit.span.line)
  top_next : ∀ {g w unit queue scoping line work c}, L line → P ⟨g, []⟩ w → takeUnit? g.queue = some (unit, queue) →
    unit.run ⟨scoping, line, g.scope, none, [], w⟩ = .ok (.next work) c →
    P ⟨⟨c.globals, work ++ queue⟩, c.pushed⟩ c.world
  top_leave : ∀ {g w unit queue scoping line v c}, L line → P ⟨g, []⟩ w → takeUnit? g.queue = some (unit, queue) →
    unit.run ⟨scoping, line, g.scope, none, [], w⟩ = .ok (.leave v) c → P ⟨⟨c.globals, []⟩, c.pushed⟩ c.world
  top_error : ∀ {g w unit queue scoping line e c}, L line → P ⟨g, []⟩ w → takeUnit? g.queue = some (unit, queue) →
    unit.run ⟨scoping, line, g.scope, none, [], w⟩ = .error e c → P ⟨⟨c.globals, queue⟩, c.pushed⟩ c.world
  idle : ∀ {g w}, P ⟨g, []⟩ w → P ⟨{ g with queue := [] }, []⟩ w
  /-- Listeners are called. -/
  fired : ∀ {g calls w event listeners scoping line c}, L line → P ⟨g, calls⟩ w → (∀ l ∈ listeners, l ∈ w.listeners) →
    (callListeners event listeners ⟨scoping, line, g.scope, none, [], w⟩ = .ok () c ∨
      ∃ e, callListeners event listeners ⟨scoping, line, g.scope, none, [], w⟩ = .error e c) →
    P ⟨⟨c.globals, g.queue⟩, c.pushed ++ calls⟩ c.world

namespace LineInvariant

variable {L : Option Nat → Prop} {P : Stack → World → Prop} {m : Machine}

theorem concluded (h : LineInvariant L P) (a : Activation) (hm : m.Holds L P) : (m.concluded a).Holds L P := by
  unfold Machine.concluded
  cases a.handling with
  | none => exact hm
  | some note => exact ⟨hm.line, h.noted hm.line (by decide) hm.state⟩

theorem concludedAll (h : LineInvariant L P) : ∀ (done : List Activation) {m : Machine}, m.Holds L P →
    (m.concludedAll done).Holds L P
  | [], _, hm => hm
  | a :: done, _, hm => h.concludedAll done (h.concluded a hm)

theorem droppedAll (h : LineInvariant L P) {g : Frame} {calls : List Activation} {w : World} :
    ∀ done : List Activation, P ⟨g, done ++ calls⟩ w → P ⟨g, calls⟩ w
  | [], hp => hp
  | _ :: done, hp => h.droppedAll done (h.dropped hp)

/-- Calls that are done leave the stack. -/
theorem leave (h : LineInvariant L P) {done calls : List Activation} (hc : m.stack.calls = done ++ calls)
    (hm : m.Holds L P) : (m.dropped done calls).Holds L P := by
  obtain ⟨hline, hstate⟩ := h.concludedAll done hm
  rw [concludedAll_stack] at hstate
  rw [dropped_eq]
  refine ⟨hline, h.droppedAll done ?_⟩
  rw [← hc]
  exact hstate

theorem settle (h : LineInvariant L P) (hm : m.Holds L P) : m.settle.Holds L P := by
  have hd := h.leave (List.takeWhile_append_dropWhile (p := fun a => a.queue.isEmpty)).symm hm
  rw [settle_eq]
  dsimp only
  split
  · exact ⟨hd.line, hd.state⟩
  · exact hd

theorem runCall (h : LineInvariant L P) {r : Ready} {queue : List Work}
    (hq : takeUnit? queue = some (r.unit, r.owner.queue)) (hl : L m.line)
    (hm : P ⟨m.stack.global, { r.owner with queue } :: r.below⟩ m.world) : (m.runCall r).Holds L P := by
  cases hu : r.unit.run (m.context (some r.owner.scope)) with
  | error e c =>
    rw [runCall_error hu]
    exact ⟨hl, h.call_error (a := { r.owner with queue }) hl hm hq hu⟩
  | ok o c =>
    cases o with
    | next work =>
      rw [runCall_next hu]
      exact h.settle ⟨hl, h.call_next (a := { r.owner with queue }) hl hm hq hu⟩
    | leave v =>
      rw [runCall_leave hu]
      have hleft := h.call_leave (a := { r.owner with queue }) hl hm hq hu
      exact h.settle (h.concluded _ ⟨hl, h.noted hl (by decide) hleft⟩)

theorem runGlobal (h : LineInvariant L P) {unit : Work} {queue : List Work} (hc : m.stack.calls = [])
    (hq : takeUnit? m.stack.global.queue = some (unit, queue)) (hm : m.Holds L P) :
    (m.runGlobal unit queue).Holds L P := by
  have hl := hm.line
  have hm : P ⟨m.stack.global, []⟩ m.world := by rw [← hc]; exact hm.state
  cases hu : unit.run (m.context none) with
  | error e c => rw [runGlobal_error hu]; exact ⟨hl, h.top_error hl hm hq hu⟩
  | ok o c =>
    cases o with
    | next work => rw [runGlobal_next hu]; exact h.settle ⟨hl, h.top_next hl hm hq hu⟩
    | leave v => rw [runGlobal_leave hu]; exact h.settle ⟨hl, h.noted hl (by decide) (h.top_leave hl hm hq hu)⟩

theorem step (h : LineInvariant L P) (hm : m.Holds L P) : m.step.machine.Holds L P := by
  cases hf : m.finished with
  | true => rw [step_finished hf]; exact hm
  | false =>
    obtain ⟨done, ready, hn⟩ : ∃ done ready, nextReady m.stack.calls = (done, ready) := ⟨_, _, rfl⟩
    cases ready with
    | some r =>
      obtain ⟨-, queue, hc, ht⟩ := nextReady_some hn
      have hd := (h.leave hc hm).state
      rw [dropped_stack] at hd
      rw [step_ready hf hn]
      refine h.runCall ht (h.call_line hd ht) ?_
      change P ⟨(m.dropped done (r.owner :: r.below)).stack.global, _⟩ (m.dropped done (r.owner :: r.below)).world
      rw [dropped_eq]
      rw [dropped_eq] at hd
      exact hd
    | none =>
      have hc : m.stack.calls = done ++ [] := (nextReady_none hn).trans (List.append_nil done).symm
      have hd := h.leave hc hm
      have hstate := hd.state
      rw [dropped_stack] at hstate
      cases hq : takeUnit? m.stack.global.queue with
      | some u =>
        rw [step_top hf hn hq]
        refine h.runGlobal ?_ ?_ ⟨h.top_line hstate hq, ?_⟩
        · exact congrArg Stack.calls (m.dropped_stack done [])
        · exact (congrArg (fun s : Stack => takeUnit? s.global.queue) (m.dropped_stack done [])).trans hq
        · exact hd.state
      | none =>
        rw [step_idle hf hn hq]
        refine ⟨hd.line, ?_⟩
        rw [dropped_stack]
        exact h.idle hstate

theorem logFired (h : LineInvariant L P) (event : String) : ∀ (listeners : List Listener) {m : Machine},
    m.Holds L P → (m.logFired event listeners).Holds L P
  | [], _, hm => hm
  | _ :: listeners, _, hm => h.logFired event listeners ⟨hm.line, h.noted hm.line (by decide) hm.state⟩

theorem callAll (h : LineInvariant L P) (event : String) {listeners : List Listener}
    (hl : ∀ l ∈ listeners, l ∈ m.world.listeners) (hm : m.Holds L P) : (m.callAll event listeners).Holds L P := by
  have hl' : ∀ l ∈ listeners.reverse, l ∈ m.world.listeners := fun l hm => hl l (List.mem_reverse.1 hm)
  cases hr : callListeners event listeners.reverse (m.context none) with
  | ok _ c => rw [callAll_ok hr]; exact ⟨hm.line, h.fired hm.line hm.state hl' (.inl hr)⟩
  | error e c => rw [callAll_error hr]; exact ⟨hm.line, h.fired hm.line hm.state hl' (.inr ⟨e, hr⟩)⟩

theorem fire (h : LineInvariant L P) (node : Nat) (event : String) (hm : m.Holds L P) :
    (m.fire node event).2.machine.Holds L P := by
  rw [fire_machine]
  split
  · exact hm
  · refine h.callAll event (fun l hl => ?_) (h.logFired event _ hm)
    obtain ⟨logs, hlogs⟩ := m.logFired_eq event (m.listenersFor node event)
    rw [hlogs]
    exact (List.mem_filter.1 hl).1

theorem perform (h : LineInvariant L P) (hm : m.Holds L P) : ∀ c : Command, (m.perform c).Holds L P
  | .step => h.step hm
  | .fire node event => h.fire node event hm
  | .fireById id event => by
    show (m.fireById id event).2.machine.Holds L P
    unfold Machine.fireById
    split
    · exact h.fire _ event hm
    · exact hm

/-- **Runs** keep what every command keeps. -/
theorem performAll (h : LineInvariant L P) : ∀ (commands : List Command) {m : Machine}, m.Holds L P →
    (m.performAll commands).Holds L P
  | [], _, hm => hm
  | c :: commands, _, hm => h.performAll commands (h.perform hm c)

end LineInvariant

/-- `P` is kept by everything that a command does to the stack and the world, whatever the line. -/
abbrev Invariant (P : Stack → World → Prop) : Prop := LineInvariant (fun _ => True) P

theorem Invariant.performAll {P : Stack → World → Prop} (h : Invariant P) (commands : List Command) {m : Machine}
    (hm : P m.stack m.world) : P (m.performAll commands).stack (m.performAll commands).world :=
  (LineInvariant.performAll h commands ⟨trivial, hm⟩).state

/-! ## The script stays -/

theorem fire_script (m : Machine) (node : Nat) (event : String) : (m.fire node event).2.machine.script = m.script := by
  have hcall (m : Machine) (listeners : List Listener) : (m.callAll event listeners).script = m.script := by
    unfold callAll
    split <;> rfl
  rw [fire_machine]
  split
  · rfl
  · obtain ⟨logs, hlogs⟩ := m.logFired_eq event (m.listenersFor node event)
    rw [hcall, hlogs]
    rfl

theorem perform_script (m : Machine) : ∀ c : Command, (m.perform c).script = m.script
  | .step => m.step_script
  | .fire node event => m.fire_script node event
  | .fireById id event => by
    show (m.fireById id event).2.machine.script = m.script
    unfold Machine.fireById
    split
    · exact m.fire_script _ event
    · rfl

theorem performAll_script : ∀ (commands : List Command) (m : Machine), (m.performAll commands).script = m.script
  | [], _ => rfl
  | c :: commands, m => (performAll_script commands (m.perform c)).trans (m.perform_script c)

theorem performAll_warnings (commands : List Command) (m : Machine) : (m.performAll commands).warnings = m.warnings :=
  congrArg (·.2.1) (performAll_script commands m)

theorem performAll_scoping (commands : List Command) (m : Machine) : (m.performAll commands).scoping = m.scoping :=
  congrArg (·.2.2) (performAll_script commands m)

end Machine

end Stepwise
