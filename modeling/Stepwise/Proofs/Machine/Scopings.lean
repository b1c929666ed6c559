import Stepwise.Proofs.Machine.Diagnostics
import Stepwise.Proofs.Machine.Writes

/-!
# The two scopings

In chained scoping a call looks up global names in the live global scope, in snapshot scoping in a copy of it.
`m.copied` is the machine `m` of chained scoping with copies in its calls. As long as no global name is written while there
is a call on the stack, the copies stay up to date, and each command does to `m.copied` what it does to `m`
(`Machine.perform_copied`).

**`Machine.scopings_agree`**: a script whose run in chained scoping writes no global name while there is a call on the
stack has the same run in snapshot scoping.
-/

namespace Stepwise

open Eval

/-! ## Calls -/

def Ready.copied (globals : Scope) (r : Ready) : Ready :=
  ⟨r.unit, r.owner.copied globals, r.below.map (Activation.copied globals)⟩

theorem nextReady_copied (globals : Scope) (calls : List Activation) :
    nextReady (calls.map (Activation.copied globals)) =
      ((nextReady calls).1.map (Activation.copied globals), (nextReady calls).2.map (Ready.copied globals)) := by
  induction calls with
  | nil => rfl
  | cons a calls ih =>
    have hq : (a.copied globals).queue = a.queue := rfl
    rw [List.map_cons, nextReady, nextReady, hq, ih]
    cases takeUnit? a.queue with
    | some u => rfl
    | none => rfl

theorem Activation.after_copied (a : Activation) (c : Context) (work : List Work) :
    (a.copied c.globals).after c.copied work = (a.after c work).copied c.globals := by
  have hs : c.copied.locals.getD (a.scope.laidOver c.globals) = (c.locals.getD a.scope).laidOver c.globals := by
    cases hl : c.locals <;> simp only [Context.copied, hl, Option.map_none, Option.map_some, Option.getD_none,
      Option.getD_some]
  simp only [Activation.after, Activation.copied, hs]

/-- The calls after a unit of a call. Those below it keep their copies, since the global scope stays as it is. -/
theorem Ready.calls_copied (r : Ready) (c : Context) (work : List Work) :
    c.copied.pushed ++ (r.copied c.globals).owner.after c.copied work :: (r.copied c.globals).below =
      (c.pushed ++ r.owner.after c work :: r.below).map (Activation.copied c.globals) := by
  rw [List.map_append, List.map_cons, ← Activation.after_copied]
  rfl

theorem Ready.calls_noted {r : Ready} (ho : r.owner.scope.Noted) (hb : ∀ a ∈ r.below, a.scope.Noted) {c : Context}
    (hc : c.Chained) (work : List Work) : ∀ a ∈ c.pushed ++ r.owner.after c work :: r.below, a.scope.Noted := by
  have hafter : (c.locals.getD r.owner.scope).Noted := by
    cases hl : c.locals with
    | none => exact ho
    | some s => exact hc.locals s hl
  exact List.forall_mem_append.2 ⟨hc.pushed, List.forall_mem_cons.2 ⟨hafter, hb⟩⟩

namespace Machine

/-! ## Machines -/

/-- The machine with calls that have copies of the global scope. -/
def copied (m : Machine) : Machine :=
  { m with
    scoping := .snapshot
    stack := { m.stack with calls := m.stack.calls.map (Activation.copied m.stack.global.scope) } }

/-- Calls start with their parameters only, and declare all names that they bind. -/
structure Chained (m : Machine) : Prop where
  scoping : m.scoping = .chained
  calls : ∀ a ∈ m.stack.calls, a.scope.Noted

section Copies

variable (m : Machine)

theorem concluded_copied (a : Activation) (globals : Scope) :
    m.copied.concluded (a.copied globals) = (m.concluded a).copied := by
  have hh : (a.copied globals).handling = a.handling := rfl
  unfold concluded
  rw [hh]
  cases a.handling <;> rfl

theorem concludedAll_copied (globals : Scope) : ∀ (done : List Activation) (m : Machine),
    m.copied.concludedAll (done.map (Activation.copied globals)) = (m.concludedAll done).copied
  | [], _ => rfl
  | a :: done, m => by
    rw [List.map_cons, concludedAll_cons, concludedAll_cons, concluded_copied]
    exact concludedAll_copied globals done (m.concluded a)

theorem dropped_copied (done calls : List Activation) :
    m.copied.dropped (done.map (Activation.copied m.stack.global.scope))
      (calls.map (Activation.copied m.stack.global.scope)) = (m.dropped done calls).copied :=
  concludedAll_copied m.stack.global.scope done { m with stack := { m.stack with calls } }

theorem settle_copied : m.copied.settle = m.settle.copied := by
  have hq : (fun a : Activation => a.queue.isEmpty) ∘ Activation.copied m.stack.global.scope =
      fun a => a.queue.isEmpty := rfl
  have hg : m.copied.stack.global = m.stack.global := rfl
  have hc : m.copied.stack.calls = m.stack.calls.map (Activation.copied m.stack.global.scope) := rfl
  rw [settle_eq, settle_eq, hc, hg]
  simp only [List.takeWhile_map, List.dropWhile_map, hq, dropped_copied, List.isEmpty_map]
  generalize (List.isEmpty _ && _) = nothingLeft
  cases nothingLeft <;> rfl

end Copies

namespace Chained

variable {m : Machine}

theorem of_fixed {n : Machine} (h : m.Chained) (hs : n.fixed = m.fixed) (hc : ∀ a ∈ n.stack.calls, a.scope.Noted) :
    n.Chained := ⟨(congrArg (·.1.2.2) hs).trans h.scoping, hc⟩

theorem dropped (h : m.Chained) {done calls : List Activation} (hc : ∀ a ∈ calls, a.scope.Noted) :
    (m.dropped done calls).Chained := h.of_fixed (m.dropped_fixed done calls) (by rwa [dropped_stack])

theorem settle (h : m.Chained) : m.settle.Chained := by
  refine h.of_fixed m.settle_fixed ?_
  rw [settle_stack]
  exact fun a ha => h.calls a ((List.dropWhile_sublist _).subset ha)

theorem concluded (h : m.Chained) (a : Activation) : (m.concluded a).Chained :=
  h.of_fixed (m.concludedAll_fixed [a]) (by rw [concluded_stack]; exact h.calls)

theorem context (h : m.Chained) {locals : Option Scope} (hl : ∀ s, locals = some s → s.Noted) :
    (m.context locals).Chained := ⟨h.scoping, hl, by simp [Machine.context]⟩

end Chained

/-! ## Units -/

section Units

variable {m : Machine}

/-- A unit of the top level. -/
theorem runGlobal_copied (h : m.Chained) {unit : Work} (hw : OutsideCalls (unit.writes (m.context none)))
    (queue : List Work) :
    m.copied.runGlobal unit queue = (m.runGlobal unit queue).copied ∧ (m.runGlobal unit queue).Chained := by
  obtain ⟨heq, hc⟩ := unit.run_recorded.copied _ (h.context (by simp)) hw
  cases hu : unit.run (m.context none) with
  | error e c =>
    rw [hu] at heq hc
    rw [runGlobal_error hu, runGlobal_error (m := m.copied) heq]
    exact ⟨rfl, h.scoping, hc.pushed⟩
  | ok o c =>
    rw [hu] at heq hc
    cases o with
    | next work =>
      rw [runGlobal_next hu, runGlobal_next (m := m.copied) heq, ← settle_copied]
      exact ⟨rfl, Chained.settle ⟨h.scoping, hc.pushed⟩⟩
    | leave v =>
      rw [runGlobal_leave hu, runGlobal_leave (m := m.copied) heq, ← settle_copied]
      exact ⟨rfl, Chained.settle ⟨h.scoping, hc.pushed⟩⟩

/-- A unit of a call. -/
theorem runCall_copied (h : m.Chained) {r : Ready} (ho : r.owner.scope.Noted) (hb : ∀ a ∈ r.below, a.scope.Noted)
    (hw : OutsideCalls (r.unit.writes (m.context (some r.owner.scope)))) :
    m.copied.runCall (r.copied m.stack.global.scope) = (m.runCall r).copied ∧ (m.runCall r).Chained := by
  have hg := r.unit.run_recorded.globals_eq (c := m.context (some r.owner.scope)) rfl hw
  obtain ⟨heq, hc⟩ := r.unit.run_recorded.copied _ (h.context (by rintro _ ⟨⟩; exact ho)) hw
  cases hu : r.unit.run (m.context (some r.owner.scope)) with
  | error e c =>
    rw [hu] at heq hc hg
    replace hg : c.globals = m.stack.global.scope := hg
    rw [runCall_error hu, runCall_error (m := m.copied) (r := r.copied m.stack.global.scope) heq, ← hg,
      Ready.calls_copied]
    exact ⟨rfl, h.scoping, Ready.calls_noted ho hb hc []⟩
  | ok o c =>
    rw [hu] at heq hc hg
    replace hg : c.globals = m.stack.global.scope := hg
    cases o with
    | next work =>
      rw [runCall_next hu, runCall_next (m := m.copied) (r := r.copied m.stack.global.scope) heq, ← settle_copied, ← hg,
        Ready.calls_copied]
      exact ⟨rfl, Chained.settle ⟨h.scoping, Ready.calls_noted ho hb hc work⟩⟩
    | leave v =>
      have hbelow : c.copied.pushed ++ (r.copied c.globals).below =
          (c.pushed ++ r.below).map (Activation.copied c.globals) := List.map_append.symm
      have hleft : ((m.adopt c (c.pushed ++ r.below) m.stack.global.queue).logReturn r.owner.name v).Chained :=
        ⟨h.scoping, List.forall_mem_append.2 ⟨hc.pushed, hb⟩⟩
      rw [runCall_leave hu, runCall_leave (m := m.copied) (r := r.copied m.stack.global.scope) heq, ← settle_copied,
        ← hg, hbelow, ← concluded_copied _ r.owner c.globals]
      exact ⟨rfl, (hleft.concluded r.owner).settle⟩

end Units

/-! ## Commands -/

/-- The global writes of a step: those of its unit. -/
def stepWrites (m : Machine) : List GlobalWrite :=
  if m.finished then []
  else
    match nextReady m.stack.calls with
    | (done, some r) =>
      r.unit.writes (((m.dropped done (r.owner :: r.below)).announce r.unit).context (some r.owner.scope))
    | (done, none) =>
      match takeUnit? m.stack.global.queue with
      | some (unit, _) => unit.writes (((m.dropped done []).announce unit).context none)
      | none => []

/-- The global writes of a command. Firing an event only pushes calls. -/
def writes (m : Machine) : Command → List GlobalWrite
  | .step => m.stepWrites
  | _ => []

/-- In a run, no global name is written at a moment when there is a call on the stack. -/
def WritesOutsideCalls (m : Machine) : List Command → Prop
  | [] => True
  | c :: commands => OutsideCalls (m.writes c) ∧ (m.perform c).WritesOutsideCalls commands

section Commands

variable {m : Machine}

theorem stepWrites_ready (hf : m.finished = false) {done : List Activation} {r : Ready}
    (h : nextReady m.stack.calls = (done, some r)) : m.stepWrites =
      r.unit.writes (((m.dropped done (r.owner :: r.below)).announce r.unit).context (some r.owner.scope)) := by
  simp only [stepWrites, hf, Bool.false_eq_true, ↓reduceIte, h]

theorem stepWrites_top (hf : m.finished = false) {done : List Activation} {unit : Work} {queue : List Work}
    (h : nextReady m.stack.calls = (done, none)) (hq : takeUnit? m.stack.global.queue = some (unit, queue)) :
    m.stepWrites = unit.writes (((m.dropped done []).announce unit).context none) := by
  simp only [stepWrites, hf, Bool.false_eq_true, ↓reduceIte, h, hq]

theorem stepWrites_idle {done : List Activation} (h : nextReady m.stack.calls = (done, none))
    (hq : takeUnit? m.stack.global.queue = none) : m.stepWrites = [] := by
  simp only [stepWrites, h, hq, ite_self]

/-! The record of a command misses no write. -/

theorem runCall_scope (m : Machine) (r : Ready) : (m.runCall r).stack.global.scope =
    replay (r.unit.writes (m.context (some r.owner.scope))) m.stack.global.scope := by
  have hreplayed := r.unit.run_recorded.replayed (m.context (some r.owner.scope))
  cases hu : r.unit.run (m.context (some r.owner.scope)) with
  | error e c => rw [hu] at hreplayed; rw [runCall_error hu]; exact hreplayed
  | ok o c =>
    rw [hu] at hreplayed
    cases o with
    | next work => rw [runCall_next hu, settle_stack]; exact hreplayed
    | leave v => rw [runCall_leave hu, settle_stack, concluded_stack]; exact hreplayed

theorem runGlobal_scope (m : Machine) (unit : Work) (queue : List Work) : (m.runGlobal unit queue).stack.global.scope =
    replay (unit.writes (m.context none)) m.stack.global.scope := by
  have hreplayed := unit.run_recorded.replayed (m.context none)
  cases hu : unit.run (m.context none) with
  | error e c => rw [hu] at hreplayed; rw [runGlobal_error hu]; exact hreplayed
  | ok o c =>
    rw [hu] at hreplayed
    cases o with
    | next work => rw [runGlobal_next hu, settle_stack]; exact hreplayed
    | leave v => rw [runGlobal_leave hu, settle_stack]; exact hreplayed

theorem step_scope (m : Machine) : m.step.machine.stack.global.scope = replay m.stepWrites m.stack.global.scope := by
  have hd (done calls : List Activation) (unit : Work) :
      ((m.dropped done calls).announce unit).stack.global.scope = m.stack.global.scope := by
    show (m.dropped done calls).stack.global.scope = _
    rw [dropped_stack]
  cases hf : m.finished with
  | true => rw [step_finished hf, stepWrites, if_pos hf]; rfl
  | false =>
    obtain ⟨done, ready, hn⟩ : ∃ done ready, nextReady m.stack.calls = (done, ready) := ⟨_, _, rfl⟩
    cases ready with
    | some r => rw [step_ready hf hn, stepWrites_ready hf hn, runCall_scope, hd]
    | none =>
      cases hq : takeUnit? m.stack.global.queue with
      | some u => rw [step_top hf hn hq, stepWrites_top hf hn hq, runGlobal_scope, hd]
      | none =>
        rw [step_idle hf hn hq, stepWrites_idle hn hq, dropped_stack]
        rfl

theorem fire_scope (m : Machine) (node : Nat) (event : String) :
    (m.fire node event).2.machine.stack.global.scope = m.stack.global.scope := by
  have hcall (n : Machine) (listeners : List Listener) :
      (n.callAll event listeners).stack.global.scope = n.stack.global.scope := by
    have hreplayed := (callListeners_recorded event listeners.reverse).replayed (n.context none)
    cases hr : callListeners event listeners.reverse (n.context none) with
    | ok _ c => rw [hr] at hreplayed; rw [callAll_ok hr]; exact hreplayed
    | error e c => rw [hr] at hreplayed; rw [callAll_error hr]; exact hreplayed
  rw [fire_machine]
  split
  · rfl
  · obtain ⟨logs, hlogs⟩ := m.logFired_eq event (m.listenersFor node event)
    rw [hcall, hlogs]

/-- **Records of commands** hold all that is written to the global scope. -/
theorem perform_replayed (m : Machine) : ∀ c : Command,
    (m.perform c).stack.global.scope = replay (m.writes c) m.stack.global.scope
  | .step => m.step_scope
  | .fire node event => m.fire_scope node event
  | .fireById id event => by
    show (m.fireById id event).2.machine.stack.global.scope = m.stack.global.scope
    unfold fireById
    split
    · exact m.fire_scope _ event
    · rfl

/-! A command does the same with and without copies. -/

theorem step_copied (h : m.Chained) (hw : OutsideCalls m.stepWrites) :
    m.copied.step.machine = m.step.machine.copied ∧ m.step.machine.Chained := by
  cases hf : m.finished with
  | true =>
    rw [step_finished hf, step_finished (m := m.copied) hf]
    exact ⟨rfl, h⟩
  | false =>
    have hf' : m.copied.finished = false := hf
    obtain ⟨done, ready, hn⟩ : ∃ done ready, nextReady m.stack.calls = (done, ready) := ⟨_, _, rfl⟩
    have hn' : nextReady m.copied.stack.calls = (done.map (Activation.copied m.stack.global.scope),
        ready.map (Ready.copied m.stack.global.scope)) := by
      have hmap := nextReady_copied m.stack.global.scope m.stack.calls
      rwa [hn] at hmap
    cases ready with
    | some r =>
      obtain ⟨-, queue, hc, -⟩ := nextReady_some hn
      have hcalls : ∀ a ∈ r.owner :: r.below, a.scope.Noted := by
        have hcalls := h.calls
        rw [hc] at hcalls
        exact List.forall_mem_cons.2 (List.forall_mem_cons.1 (List.forall_mem_append.1 hcalls).2)
      obtain ⟨ho, hb⟩ := List.forall_mem_cons.1 hcalls
      have hd : ((m.dropped done (r.owner :: r.below)).announce r.unit).Chained :=
        ⟨(h.dropped hcalls).scoping, (h.dropped hcalls).calls⟩
      have hscope : ((m.dropped done (r.owner :: r.below)).announce r.unit).stack.global.scope =
          m.stack.global.scope := by
        show (m.dropped done (r.owner :: r.below)).stack.global.scope = _
        rw [dropped_stack]
      rw [stepWrites_ready hf hn] at hw
      have hrun := runCall_copied hd ho hb hw
      have hstep := step_ready hf' hn'
      rw [hscope] at hrun
      rw [step_ready hf hn, hstep]
      -- Calls that are done leave the stack first, with copies or without.
      refine ⟨?_, hrun.2⟩
      rw [← hrun.1]
      exact congrArg (fun n => (announce n r.unit).runCall (r.copied m.stack.global.scope))
        (m.dropped_copied done (r.owner :: r.below))
    | none =>
      have hd : (m.dropped done []).Chained := h.dropped (by simp)
      have hdrop : m.copied.dropped (done.map (Activation.copied m.stack.global.scope)) [] =
          (m.dropped done []).copied := m.dropped_copied done []
      cases hq : takeUnit? m.stack.global.queue with
      | some u =>
        rw [stepWrites_top hf hn hq] at hw
        rw [step_top hf hn hq, step_top hf' hn' hq, hdrop]
        exact runGlobal_copied (m := (m.dropped done []).announce u.1) ⟨hd.scoping, hd.calls⟩ hw u.2
      | none =>
        rw [step_idle hf hn hq, step_idle hf' hn' hq, hdrop]
        exact ⟨rfl, hd.scoping, by simp⟩

theorem logFired_copied (event : String) : ∀ (listeners : List Listener) (m : Machine),
    m.copied.logFired event listeners = (m.logFired event listeners).copied
  | [], _ => rfl
  | _ :: listeners, m => logFired_copied event listeners (m.log ..)

/-- Listeners are called with copies of the same global scope. -/
theorem callAll_copied (h : m.Chained) (event : String) (listeners : List Listener) :
    m.copied.callAll event listeners = (m.callAll event listeners).copied ∧ (m.callAll event listeners).Chained := by
  have hrecord := callListeners_recorded event listeners.reverse
  have hg := hrecord.replayed (m.context none)
  obtain ⟨heq, hc⟩ := hrecord.copied (m.context none) (h.context (by simp)) (by simp [OutsideCalls])
  have hcalls (c : Context) (hg : c.globals = m.stack.global.scope) : c.copied.pushed ++ m.copied.stack.calls =
      (c.pushed ++ m.stack.calls).map (Activation.copied c.globals) := by
    have hm : m.copied.stack.calls = m.stack.calls.map (Activation.copied c.globals) := by rw [hg]; rfl
    rw [hm, List.map_append]
    rfl
  cases hr : callListeners event listeners.reverse (m.context none) with
  | ok _ c =>
    rw [hr] at heq hg hc
    rw [callAll_ok hr, callAll_ok (m := m.copied) heq, hcalls c hg]
    exact ⟨rfl, h.scoping, List.forall_mem_append.2 ⟨hc.pushed, h.calls⟩⟩
  | error e c =>
    rw [hr] at heq hg hc
    rw [callAll_error hr, callAll_error (m := m.copied) heq, hcalls c hg]
    exact ⟨rfl, h.scoping, List.forall_mem_append.2 ⟨hc.pushed, h.calls⟩⟩

theorem fire_copied (h : m.Chained) (node : Nat) (event : String) :
    (m.copied.fire node event).2.machine = (m.fire node event).2.machine.copied ∧
      (m.fire node event).2.machine.Chained := by
  have he : m.copied.error = m.error := rfl
  have hl : m.copied.listenersFor node event = m.listenersFor node event := rfl
  rw [fire_machine, fire_machine, he, hl]
  split
  · exact ⟨rfl, h⟩
  · have hfired : (m.logFired event (m.listenersFor node event)).Chained := by
      obtain ⟨logs, hlogs⟩ := m.logFired_eq event (m.listenersFor node event)
      rw [hlogs]
      exact ⟨h.scoping, h.calls⟩
    rw [logFired_copied]
    exact callAll_copied hfired event _

theorem perform_copied (h : m.Chained) : ∀ c : Command, OutsideCalls (m.writes c) →
    m.copied.perform c = (m.perform c).copied ∧ (m.perform c).Chained
  | .step, hw => step_copied h hw
  | .fire node event, _ => fire_copied h node event
  | .fireById id event, _ => by
    have hw : m.copied.world = m.world := rfl
    show (m.copied.fireById id event).2.machine = (m.fireById id event).2.machine.copied ∧
      (m.fireById id event).2.machine.Chained
    unfold Machine.fireById
    rw [hw]
    split
    · exact fire_copied h _ event
    · exact ⟨rfl, h⟩

/-- **Runs** do the same with and without copies. -/
theorem performAll_copied : ∀ (commands : List Command) {m : Machine}, m.Chained → m.WritesOutsideCalls commands →
    m.copied.performAll commands = (m.performAll commands).copied
  | [], _, _, _ => rfl
  | c :: commands, m, h, ⟨hw, hrest⟩ => by
    obtain ⟨heq, hc⟩ := perform_copied h c hw
    show (m.copied.perform c).performAll commands = ((m.perform c).performAll commands).copied
    rw [heq]
    exact performAll_copied commands hc hrest

end Commands

/-! ## Both runs -/

/-- The machines are at the same point of the same run. Only the variables of calls may differ. -/
structure Alike (m n : Machine) : Prop where
  steps : n.steps = m.steps
  /-- The logs, the listeners and the document. -/
  world : n.world = m.world
  line : n.line = m.line
  explanation : n.explanation = m.explanation
  error : n.error = m.error
  finished : n.finished = m.finished
  /-- The global scope, and what the top level has to do. -/
  global : n.stack.global = m.stack.global
  calls : n.stack.calls.map (fun a => (a.name, a.queue, a.handling)) =
    m.stack.calls.map fun a => (a.name, a.queue, a.handling)

theorem alike_copied (m : Machine) : m.Alike m.copied where
  steps := rfl
  world := rfl
  line := rfl
  explanation := rfl
  error := rfl
  finished := rfl
  global := rfl
  calls := List.map_map ..

theorem WritesOutsideCalls.of_append {more : List Command} : ∀ {commands : List Command} {m : Machine},
    m.WritesOutsideCalls (commands ++ more) → m.WritesOutsideCalls commands
  | [], _, _ => trivial
  | _ :: _, _, ⟨hw, hrest⟩ => ⟨hw, hrest.of_append⟩

/-- **The scopings agree.** A script is loaded in chained scoping and gets commands. If no global name is declared or
assigned to at a moment when there is a call on the stack, then the script in snapshot scoping, on the same document, is
at the same point after each of these commands. -/
theorem scopings_agree {source : String} {document : Option Document} {m : Machine}
    (h : load source document .chained = .ok m) (commands : List Command) (hw : m.WritesOutsideCalls commands) :
    ∃ n, load source document .snapshot = .ok n ∧
      ∀ first, first <+: commands → (m.performAll first).Alike (n.performAll first) := by
  obtain ⟨program, hp, hf, rfl⟩ := load_ok h
  refine ⟨_, load_of_parse hp hf document .snapshot, ?_⟩
  rintro first ⟨more, rfl⟩
  have hchained : (ofProgram program program.findings .chained document).Chained :=
    ⟨rfl, by simp [ofProgram, Stack.start]⟩
  have hrun := performAll_copied first hchained hw.of_append
  have halike := alike_copied ((ofProgram program program.findings .chained document).performAll first)
  rwa [← hrun] at halike

instance decidableWritesOutsideCalls : ∀ (commands : List Command) (m : Machine),
    Decidable (m.WritesOutsideCalls commands)
  | [], _ => .isTrue trivial
  | c :: commands, m =>
    have := decidableWritesOutsideCalls commands (m.perform c)
    inferInstanceAs (Decidable ((∀ w ∈ m.writes c, w.inCall = false) ∧ _))

/-- A function that reads a global name and writes its own. It is called, and it listens. -/
def readingScript : String :=
  "let x = 1;\nfunction f(a) { let y = a + x; y++; }\nf(x);\nx = 3;\n" ++
    "document.getElementById('b').addEventListener('click', f);"

/-- All steps of the script, an event after them, and the steps of its listener. -/
def readingRun : List Command :=
  [.step, .step, .step, .step, .step, .step, .step, .fireById "b" "click", .step, .step]

/-- The call and the listener write only `y`. -/
theorem scopings_agree_readingScript : ∃ m n, load readingScript (some buttonPage) .chained = .ok m ∧
    m.WritesOutsideCalls readingRun ∧ load readingScript (some buttonPage) .snapshot = .ok n ∧
    (m.performAll readingRun).Alike (n.performAll readingRun) := by
  have hrun : (load readingScript (some buttonPage) .chained).toOption.any
      (fun m => m.WritesOutsideCalls readingRun) = true := by decide +kernel
  obtain ⟨m, h, hw⟩ := exists_loaded hrun
  replace hw : m.WritesOutsideCalls readingRun := of_decide_eq_true hw
  obtain ⟨n, hn, halike⟩ := scopings_agree h readingRun hw
  exact ⟨m, n, h, hw, hn, halike readingRun (List.prefix_refl _)⟩

end Machine

end Stepwise
