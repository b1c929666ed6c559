import Stepwise.Proofs.Machine.Cases
import Stepwise.Proofs.Machine.Reference

/-!
# How runs end

`m.Ends r`: stepping `m` often enough reaches a finished machine that shows the summary `r`. A machine that is not
finished is described by its store, its calls and the queue of the top level (`Machine.resume`). For such machines,
`Ends` is followed through a step:

* what a **unit** does, in a call or at the top level (`ends_call_next`, `ends_global_next`);
* a call **without work** left makes no difference but for the note on an event that it handled (`ends_exhausted`);
* without any work the run **ends** (`ends_idle`).

These equivalences do not mention when a call leaves the stack. A step takes the calls off that have an empty queue, and
others only when the next unit is looked for.
-/

namespace Stepwise

namespace Machine

/-- The machine after `n` steps. -/
def stepN : Nat → Machine → Machine
  | 0, m => m
  | n + 1, m => stepN n m.step.machine

def store (m : Machine) : Store := ⟨m.line, m.steps, m.stack.global.scope, m.world⟩

/-- What is seen of a machine when it has stopped. -/
def summary (m : Machine) : Summary := m.store.summary m.error

/-- Some number of steps finishes the machine, with the given summary. -/
def Ends (m : Machine) (r : Summary) : Prop := ∃ n, (m.stepN n).finished = true ∧ (m.stepN n).summary = r

/-- The machine `m` at another moment of its run: unfinished, with the given store, calls and queue of the top level. -/
def resume (m : Machine) (s : Store) (calls : List Activation) (queue : List Work) : Machine :=
  { m with
    line := s.line
    steps := s.steps
    world := s.world
    stack := ⟨⟨s.globals, queue⟩, calls⟩
    finished := false
    error := none }

/-! ## Finished and unfinished machines -/

theorem step_of_finished {m : Machine} (h : m.finished = true) : m.step.machine = m := by
  unfold step
  rw [if_pos h]

theorem stepN_of_finished {m : Machine} (h : m.finished = true) : ∀ n, m.stepN n = m
  | 0 => rfl
  | n + 1 => by rw [stepN, step_of_finished h, stepN_of_finished h n]

theorem ends_of_finished {m : Machine} (h : m.finished = true) (r : Summary) : m.Ends r ↔ m.summary = r := by
  refine ⟨fun ⟨n, _, hr⟩ => ?_, fun hr => ⟨0, h, hr⟩⟩
  rwa [stepN_of_finished h n] at hr

/-- How many of the next `n` steps an observer is shown. -/
def shownIn : Nat → Machine → Nat
  | 0, _ => 0
  | n + 1, m => (if m.step.shown then 1 else 0) + shownIn n m.step.machine

theorem stepN_steps : ∀ (n : Nat) (m : Machine), (m.stepN n).steps = m.steps + m.shownIn n
  | 0, _ => rfl
  | n + 1, m => by
    rw [stepN, stepN_steps n, step_steps, shownIn]
    omega

theorem Ends.steps_le {m : Machine} {r : Summary} (h : m.Ends r) : m.steps ≤ r.steps := by
  obtain ⟨n, -, rfl⟩ := h
  show m.steps ≤ (m.stepN n).steps
  rw [stepN_steps]
  omega

/-- An unfinished machine ends as it does after one step. -/
theorem ends_step {m : Machine} (h : m.finished = false) (r : Summary) : m.Ends r ↔ m.step.machine.Ends r := by
  constructor
  · rintro ⟨n, hf, hr⟩
    cases n with
    | zero => rw [stepN, h] at hf; cases hf
    | succ n => exact ⟨n, hf, hr⟩
  · rintro ⟨n, hf, hr⟩
    exact ⟨n + 1, hf, hr⟩

/-- A machine that some number of steps finishes ends in one way only. -/
theorem ends_iff_of_stepN_finished (r : Summary) : ∀ (n : Nat) {m : Machine}, (m.stepN n).finished = true →
    (m.Ends r ↔ (m.stepN n).summary = r)
  | 0, _, h => ends_of_finished h r
  | n + 1, m, h => by
    cases hf : m.finished with
    | true => rw [stepN_of_finished hf, ends_of_finished hf]
    | false => exact (ends_step hf r).trans (ends_iff_of_stepN_finished r n h)

end Machine

/-! ## Notes on events -/

namespace Store

def log (s : Store) (kind : LogKind) (message : String) : Store :=
  { s with world := s.world.log ⟨kind, message, s.line⟩ }

/-- Logs what a call gave. -/
def logReturn (s : Store) (name : String) (v : Value) : Store := s.log .ret s!"{name} returned {v.shown}"

/-- Notes that a call is done, if it handled an event. -/
def concluded (s : Store) (a : Activation) : Store :=
  match a.handling with
  | some note => s.log .event note.message
  | none => s

end Store

namespace Machine

variable {m : Machine} {s : Store} {a : Activation} {calls : List Activation} {queue : List Work}

theorem concluded_resume : (m.resume s calls queue).concluded a = m.resume (s.concluded a) calls queue := by
  unfold concluded Store.concluded
  cases a.handling <;> rfl

theorem concludedAll_resume : ∀ (done : List Activation) (s : Store),
    (m.resume s calls queue).concludedAll done = m.resume (done.foldl Store.concluded s) calls queue
  | [], _ => rfl
  | a :: done, s => by
    show ((m.resume s calls queue).concluded a).concludedAll done = _
    rw [concluded_resume, concludedAll_resume done]
    rfl

theorem dropped_resume (done : List Activation) (rest : List Activation) :
    (m.resume s calls queue).dropped done rest = m.resume (done.foldl Store.concluded s) rest queue :=
  concludedAll_resume done s

/-! ## One step -/

/-- A call with work left: its next unit runs. -/
theorem step_call {unit : Work} {rest : List Work} (h : takeUnit? a.queue = some (unit, rest)) :
    (m.resume s (a :: calls) queue).step.machine =
      ((m.resume s ({ a with queue := rest } :: calls) queue).announce unit).runCall
        ⟨unit, { a with queue := rest }, calls⟩ := by
  have hr : nextReady (a :: calls) = ([], some ⟨unit, { a with queue := rest }, calls⟩) := by rw [nextReady, h]
  rw [step_ready rfl hr]
  rfl

/-- No calls: the next unit of the top level runs. -/
theorem step_global {unit : Work} {rest : List Work} (h : takeUnit? queue = some (unit, rest)) :
    (m.resume s [] queue).step.machine = ((m.resume s [] queue).announce unit).runGlobal unit rest := by
  rw [step_top rfl rfl h]
  rfl

/-- A call without work left makes no difference to the step, but for the note that it is done. -/
theorem step_exhausted (h : takeUnit? a.queue = none) :
    (m.resume s (a :: calls) queue).step.machine = (m.resume (s.concluded a) calls queue).step.machine := by
  obtain ⟨done, ready, hn⟩ : ∃ done ready, nextReady calls = (done, ready) := ⟨_, _, rfl⟩
  have hr : nextReady (a :: calls) = (a :: done, ready) := by rw [nextReady, h, hn]
  cases ready with
  | some r => rw [step_ready rfl hr, step_ready rfl hn, dropped_resume, dropped_resume, List.foldl_cons]
  | none =>
    cases hq : takeUnit? queue with
    | some u =>
      obtain ⟨unit, rest⟩ := u
      rw [step_top rfl hr hq, step_top rfl hn hq, dropped_resume, dropped_resume, List.foldl_cons]
    | none =>
      rw [step_idle rfl hr hq, step_idle rfl hn hq, dropped_resume, dropped_resume, List.foldl_cons]

/-! ## Ends through a step -/

variable {r : Summary}

theorem ends_exhausted (h : takeUnit? a.queue = none) :
    (m.resume s (a :: calls) queue).Ends r ↔ (m.resume (s.concluded a) calls queue).Ends r := by
  rw [ends_step rfl, step_exhausted h, ← ends_step rfl]

theorem ends_idle (h : takeUnit? queue = none) : (m.resume s [] queue).Ends r ↔ s.summary none = r := by
  rw [ends_step rfl, step_idle rfl rfl h, ends_of_finished rfl]
  rfl

theorem settle_resume (calls : List Activation) (s : Store) :
    (m.resume s calls queue).settle =
      let rest := m.resume ((calls.takeWhile (·.queue.isEmpty)).foldl Store.concluded s)
        (calls.dropWhile (·.queue.isEmpty)) queue
      if (calls.dropWhile (·.queue.isEmpty)).isEmpty && queue.isEmpty then { rest with finished := true } else rest := by
  rw [settle_eq]
  simp only [dropped_resume]
  rfl

/-- Taking calls with an empty queue off changes nothing. -/
theorem ends_settle : ∀ (calls : List Activation) (s : Store),
    (m.resume s calls queue).settle.Ends r ↔ (m.resume s calls queue).Ends r
  | [], s => by
    cases queue with
    | nil => rw [ends_idle rfl]; exact ends_of_finished rfl r
    | cons w queue => rfl
  | a :: calls, s => by
    cases hq : a.queue with
    | nil =>
      have hs : (m.resume s (a :: calls) queue).settle = (m.resume (s.concluded a) calls queue).settle := by
        rw [settle_resume, settle_resume, List.takeWhile_cons, List.dropWhile_cons, hq]
        rfl
      rw [hs, ends_exhausted (by rw [hq]; rfl), ends_settle calls]
    | cons w rest =>
      have hs : (m.resume s (a :: calls) queue).settle = m.resume s (a :: calls) queue := by
        rw [settle_resume, List.takeWhile_cons, List.dropWhile_cons, hq]
        rfl
      rw [hs]

/-- What the last unit did in words has no influence. -/
theorem ends_explained (text : String) : ∀ (calls : List Activation) (s : Store),
    ({ m with explanation := text }.resume s calls queue).Ends r ↔ (m.resume s calls queue).Ends r
  | [], s => by
    cases hq : takeUnit? queue with
    | none => rw [ends_idle hq, ends_idle hq]
    | some u =>
      obtain ⟨unit, rest⟩ := u
      rw [ends_step rfl, step_global hq, ends_step (m := m.resume s [] queue) rfl, step_global hq]
      rfl
  | a :: calls, s => by
    cases hq : takeUnit? a.queue with
    | none => rw [ends_exhausted hq, ends_exhausted hq, ends_explained text calls]
    | some u =>
      obtain ⟨unit, rest⟩ := u
      rw [ends_step rfl, step_call hq, ends_step (m := m.resume s (a :: calls) queue) rfl, step_call hq]
      rfl

/-! ## Ends through a unit -/

section Units

variable {unit : Work} {rest work : List Work} {v : Value} {e : RuntimeError} {c : Context}

theorem ends_call_next (h : takeUnit? a.queue = some (unit, rest))
    (hu : unit.run (s.context m.scoping (some a.scope) unit.span) = .ok (.next work) c) :
    (m.resume s (a :: calls) queue).Ends r ↔ (m.resume (s.after unit.span c)
      (c.pushed ++ { a with queue := rest }.after c work :: calls) queue).Ends r := by
  rw [ends_step rfl, step_call h, runCall_next hu, ← ends_explained unit.sentence, ← ends_settle]
  rfl

theorem ends_call_leave (h : takeUnit? a.queue = some (unit, rest))
    (hu : unit.run (s.context m.scoping (some a.scope) unit.span) = .ok (.leave v) c) :
    (m.resume s (a :: calls) queue).Ends r ↔
      (m.resume (((s.after unit.span c).logReturn a.name v).concluded a) (c.pushed ++ calls) queue).Ends r := by
  rw [ends_step rfl, step_call h, runCall_leave hu, ← ends_explained unit.sentence, ← ends_settle, ← concluded_resume]
  rfl

theorem ends_call_error (h : takeUnit? a.queue = some (unit, rest))
    (hu : unit.run (s.context m.scoping (some a.scope) unit.span) = .error e c) :
    (m.resume s (a :: calls) queue).Ends r ↔ (s.after unit.span c).summary (some e) = r := by
  rw [ends_step rfl, step_call h, runCall_error hu, ends_of_finished rfl]
  rfl

theorem ends_global_next (h : takeUnit? queue = some (unit, rest))
    (hu : unit.run (s.context m.scoping none unit.span) = .ok (.next work) c) :
    (m.resume s [] queue).Ends r ↔ (m.resume (s.after unit.span c) c.pushed (work ++ rest)).Ends r := by
  rw [ends_step rfl, step_global h, runGlobal_next hu, ← ends_explained unit.sentence, ← ends_settle]
  rfl

theorem ends_global_leave (h : takeUnit? queue = some (unit, rest))
    (hu : unit.run (s.context m.scoping none unit.span) = .ok (.leave v) c) :
    (m.resume s [] queue).Ends r ↔
      (m.resume ((s.after unit.span c).logReturn "(global)" v) c.pushed []).Ends r := by
  rw [ends_step rfl, step_global h, runGlobal_leave hu, ← ends_explained unit.sentence, ← ends_settle]
  rfl

theorem ends_global_error (h : takeUnit? queue = some (unit, rest))
    (hu : unit.run (s.context m.scoping none unit.span) = .error e c) :
    (m.resume s [] queue).Ends r ↔ (s.after unit.span c).summary (some e) = r := by
  rw [ends_step rfl, step_global h, runGlobal_error hu, ends_of_finished rfl]
  rfl

end Units

end Machine

end Stepwise
