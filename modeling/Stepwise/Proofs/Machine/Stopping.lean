import Stepwise.Machine.Json
import Stepwise.Proofs.Machine.Diagnostics
import Stepwise.Proofs.Machine.Moments

/-!
# Stopped machines

A machine stops in two ways. An error halts it wherever it stands, and calls and work may be left. Without an error it is
finished only when there is nothing left to do (`Machine.Consistent`). Units, settling and events set the two flags in
different places, and each of them keeps this (`runCall_consistent`, `settle_consistent`, `fire_consistent`).

**`Machine.stopped_stays`** puts it together for all machines that commands can lead to: their frames are well-formed, a
machine with an error refuses all further commands, and one that finished without an error has lost no work.
-/

namespace Stepwise

/-! ## Frames -/

/-- Whether a frame is shown as that of a function. -/
def FrameView.isFunction? (f : FrameView) : Option Bool := (f.toJson.get? "is_function").bind Json.bool?

/-- The global frame has no name, is no function and handles no event. All other frames are named functions. -/
structure Stack.WellFramed (s : Stack) : Prop where
  global : ∃ f, s.frames.head? = some f ∧ f.name = none ∧ f.handling = none ∧ f.isFunction? = some false
  calls : ∀ f ∈ s.frames.tail, f.name.isSome = true ∧ f.isFunction? = some true

theorem Stack.wellFramed (s : Stack) : s.WellFramed where
  global := ⟨⟨s.global, none, none⟩, rfl, rfl, rfl, rfl⟩
  calls f hf := by
    obtain ⟨⟨frame, name, handling⟩, -, rfl⟩ := List.mem_map.1 hf
    refine ⟨rfl, ?_⟩
    cases handling <;> rfl

namespace Machine

/-! ## Answers -/

/-- What a command answers. -/
inductive Reply where
  | step (answer : Answer)
  /-- The number of listeners that an event has. -/
  | fire (listeners : Nat)
deriving DecidableEq

/-- The answer to a command. That of a step says whether the machine is finished then (`seeking_leads`). -/
def reply (m : Machine) : Command → Reply
  | .step => .step (if m.step.machine.finished then .done else .more)
  | .fire node event => .fire (m.fire node event).1
  | .fireById id event => .fire (m.fireById id event).1

/-- Whether an observer is shown the machine after a command. -/
def shows (m : Machine) : Command → Bool
  | .step => m.step.shown
  | .fire node event => (m.fire node event).2.shown
  | .fireById id event => (m.fireById id event).2.shown

/-- The answer of a machine that does nothing. -/
def Command.refusal : Command → Reply
  | .step => .step .done
  | .fire .. | .fireById .. => .fire 0

/-- The command changes nothing, nobody is told of it, and the answer says so. -/
structure Refuses (m : Machine) (c : Command) : Prop where
  unchanged : m.perform c = m
  unseen : m.shows c = false
  reply : m.reply c = c.refusal

/-! ## Errors and finished runs -/

/-- A machine with an error is finished, and one that is finished without an error has nothing left to do. -/
structure Consistent (m : Machine) : Prop where
  finished_of_error : m.error.isSome = true → m.finished = true
  no_work : m.finished = true → m.error = none → m.stack.calls = [] ∧ m.stack.global.queue = []

/-- A machine in the middle of its run. -/
structure Running (m : Machine) : Prop where
  finished : m.finished = false
  error : m.error = none

section

variable {m : Machine}

theorem Running.consistent (h : m.Running) : m.Consistent where
  finished_of_error he := by
    rw [h.error] at he
    cases he
  no_work hf := by
    rw [h.finished] at hf
    cases hf

theorem Consistent.running (h : m.Consistent) (hf : m.finished = false) : m.Running := by
  refine ⟨hf, ?_⟩
  cases he : m.error with
  | none => rfl
  | some e =>
    have hcontra := h.finished_of_error (by rw [he]; rfl)
    rw [hf] at hcontra
    cases hcontra

theorem halt_consistent (m : Machine) (e : RuntimeError) : (m.halt e).Consistent where
  finished_of_error _ := rfl
  no_work _ he := by cases he

/-! ## Steps -/

theorem Running.concludedAll (h : m.Running) (done : List Activation) : (m.concludedAll done).Running := by
  obtain ⟨logs, he⟩ := m.concludedAll_eq done
  rw [he]
  exact ⟨h.finished, h.error⟩

theorem Running.dropped (h : m.Running) (done calls : List Activation) : (m.dropped done calls).Running :=
  concludedAll (m := { m with stack := { m.stack with calls } }) ⟨h.finished, h.error⟩ done

theorem Running.announce (h : m.Running) (unit : Work) : (m.announce unit).Running := ⟨h.finished, h.error⟩

/-- Settling finishes a machine only if no work is left. -/
theorem settle_consistent (h : m.Running) : m.settle.Consistent := by
  rw [settle_eq]
  dsimp only
  have hd := h.dropped (m.stack.calls.takeWhile (·.queue.isEmpty)) (m.stack.calls.dropWhile (·.queue.isEmpty))
  split
  · rename_i hw
    rw [Bool.and_eq_true, List.isEmpty_iff, List.isEmpty_iff] at hw
    refine ⟨fun _ => rfl, fun _ _ => ?_⟩
    simp only [dropped_stack]
    exact hw
  · exact hd.consistent

theorem runCall_consistent (h : m.Running) (r : Ready) : (m.runCall r).Consistent := by
  cases hu : r.unit.run (m.context (some r.owner.scope)) with
  | error e c =>
    rw [runCall_error hu]
    exact halt_consistent _ e
  | ok o c =>
    cases o with
    | next work =>
      rw [runCall_next hu]
      exact settle_consistent ⟨h.finished, h.error⟩
    | leave v =>
      rw [runCall_leave hu]
      refine settle_consistent (Running.concludedAll ?_ [r.owner])
      exact ⟨h.finished, h.error⟩

theorem runGlobal_consistent (h : m.Running) (unit : Work) (queue : List Work) :
    (m.runGlobal unit queue).Consistent := by
  cases hu : unit.run (m.context none) with
  | error e c =>
    rw [runGlobal_error hu]
    exact halt_consistent _ e
  | ok o c =>
    cases o with
    | next work =>
      rw [runGlobal_next hu]
      exact settle_consistent ⟨h.finished, h.error⟩
    | leave v =>
      rw [runGlobal_leave hu]
      exact settle_consistent ⟨h.finished, h.error⟩

theorem step_consistent (h : m.Consistent) : m.step.machine.Consistent := by
  cases hf : m.finished with
  | true =>
    rw [step_finished hf]
    exact h
  | false =>
    have hr := h.running hf
    obtain ⟨done, ready, hn⟩ : ∃ done ready, nextReady m.stack.calls = (done, ready) := ⟨_, _, rfl⟩
    cases ready with
    | some r =>
      have hd := hr.dropped done (r.owner :: r.below)
      rw [step_ready hf hn]
      exact runCall_consistent (hd.announce r.unit) r
    | none =>
      have hd := hr.dropped done []
      cases hq : takeUnit? m.stack.global.queue with
      | some u =>
        rw [step_top hf hn hq]
        exact runGlobal_consistent (hd.announce u.1) u.1 u.2
      | none =>
        rw [step_idle hf hn hq]
        exact ⟨fun _ => rfl, fun _ _ => ⟨rfl, rfl⟩⟩

/-! ## Events -/

/-- An event starts a finished machine again, unless a built-in listener fails. -/
theorem callAll_consistent (he : m.error = none) (event : String) (listeners : List Listener) :
    (m.callAll event listeners).Consistent := by
  cases hr : callListeners event listeners.reverse (m.context none) with
  | ok _ c =>
    rw [callAll_ok hr]
    exact Running.consistent ⟨rfl, he⟩
  | error e c =>
    rw [callAll_error hr]
    exact halt_consistent _ e

theorem fire_consistent (h : m.Consistent) (node : Nat) (event : String) :
    (m.fire node event).2.machine.Consistent := by
  rw [fire_machine]
  split
  · exact h
  · rename_i hn
    simp only [Bool.or_eq_true, not_or, Bool.not_eq_true, Option.isSome_eq_false_iff, Option.isNone_iff_eq_none] at hn
    obtain ⟨logs, hlogs⟩ := m.logFired_eq event (m.listenersFor node event)
    refine callAll_consistent ?_ event _
    rw [hlogs]
    exact hn.1

/-! ## Runs -/

theorem perform_consistent (h : m.Consistent) : ∀ c : Command, (m.perform c).Consistent
  | .step => step_consistent h
  | .fire node event => fire_consistent h node event
  | .fireById id event => by
    show (m.fireById id event).2.machine.Consistent
    unfold Machine.fireById
    split
    · exact fire_consistent h _ event
    · exact h

theorem performAll_consistent : ∀ (commands : List Command) {m : Machine}, m.Consistent →
    (m.performAll commands).Consistent
  | [], _, h => h
  | c :: commands, _, h => performAll_consistent commands (perform_consistent h c)

/-- An event on a machine with an error calls no listener. -/
theorem fire_of_error (he : m.error.isSome = true) (node : Nat) (event : String) :
    m.fire node event = (0, ⟨m, false⟩) := by
  unfold fire
  rw [if_pos he]

theorem fireById_of_error (he : m.error.isSome = true) (id event : String) :
    m.fireById id event = (0, ⟨m, false⟩) := by
  unfold fireById
  split
  · exact fire_of_error he _ event
  · rfl

theorem Consistent.refuses (h : m.Consistent) (he : m.error.isSome = true) (c : Command) : m.Refuses c := by
  have hf := h.finished_of_error he
  cases c with
  | step =>
    have hs := step_finished hf
    refine ⟨by rw [perform, hs], by rw [shows, hs], ?_⟩
    rw [reply, hs, if_pos hf]
    rfl
  | fire node event =>
    have hs := fire_of_error he node event
    exact ⟨by rw [perform, hs], by rw [shows, hs], by rw [reply, hs]; rfl⟩
  | fireById id event =>
    have hs := fireById_of_error he id event
    exact ⟨by rw [perform, hs], by rw [shows, hs], by rw [reply, hs]; rfl⟩

theorem performAll_of_refuses (h : ∀ c, m.Refuses c) : ∀ commands : List Command, m.performAll commands = m
  | [] => rfl
  | c :: commands => by
    show (m.perform c).performAll commands = m
    rw [(h c).unchanged]
    exact performAll_of_refuses h commands

end

/-- **Stopped machines stay as they are.** Whatever commands a loaded machine got,

* its global frame has no name, is no function and handles no event, and all other frames are named functions;
* if it has an error it is finished, and whatever further commands it gets, each of them changes nothing, is seen by no
  observer and answers that the run is done or that there is no listener;
* if it is finished without an error there are no calls and the top level has no work left. -/
theorem stopped_stays {source : String} {document : Option Document} {scoping : Scoping} {m : Machine}
    (h : load source document scoping = .ok m) (commands : List Command) :
    (m.performAll commands).stack.WellFramed ∧
    ((m.performAll commands).error.isSome = true → (m.performAll commands).finished = true ∧
      ∀ further c, (m.performAll commands).performAll further = m.performAll commands ∧
        ((m.performAll commands).performAll further).Refuses c) ∧
    ((m.performAll commands).finished = true → (m.performAll commands).error = none →
      (m.performAll commands).stack.depth = 0 ∧ (m.performAll commands).stack.global.queue = []) := by
  obtain ⟨program, -, -, rfl⟩ := load_ok h
  have hstart : (ofProgram program program.findings scoping document).Consistent := Running.consistent ⟨rfl, rfl⟩
  have hrun := performAll_consistent commands hstart
  refine ⟨Stack.wellFramed _, fun he => ⟨hrun.finished_of_error he, fun further c => ?_⟩, fun hf he => ?_⟩
  · have hrefuses := hrun.refuses he
    rw [performAll_of_refuses hrefuses further]
    exact ⟨rfl, hrefuses c⟩
  · obtain ⟨hcalls, hqueue⟩ := hrun.no_work hf he
    exact ⟨congrArg List.length hcalls, hqueue⟩

/-- A listener that cannot be called without arguments, and one after it that is called before. -/
def failingScript : String :=
  "let b = document.getElementById('b');\nb.addEventListener('click', b.addEventListener);\n" ++
    "b.addEventListener('click', console.log);\nlet x = 1;"

/-- The event halts the machine in the middle of its listeners, while the top level has work left. The step after it and
the event after that are refused. -/
theorem stopped_stays_failingScript : ∃ m, load failingScript (some buttonPage) .snapshot = .ok m ∧
    (m.performAll [.step, .step, .step, .fireById "b" "click"]).error.isSome = true ∧
    (m.performAll [.step, .step, .step, .fireById "b" "click"]).stack.global.queue ≠ [] ∧
    (m.performAll [.step, .step, .step, .fireById "b" "click"]).finished = true ∧
    ((m.performAll [.step, .step, .step, .fireById "b" "click"]).performAll [.step]).Refuses (.fire 0 "click") := by
  have hrun : (load failingScript (some buttonPage) .snapshot).toOption.any (fun m =>
      let n := m.performAll [.step, .step, .step, .fireById "b" "click"]
      n.error.isSome && ! n.stack.global.queue.isEmpty) = true := by decide +kernel
  obtain ⟨m, h, ht⟩ := exists_loaded hrun
  simp only [Bool.and_eq_true, Bool.not_eq_eq_eq_not, Bool.not_true, List.isEmpty_eq_false_iff] at ht
  obtain ⟨-, hstop, -⟩ := stopped_stays h [.step, .step, .step, .fireById "b" "click"]
  obtain ⟨hf, hrefuses⟩ := hstop ht.1
  exact ⟨m, h, ht.1, ht.2, hf, (hrefuses [.step] (.fire 0 "click")).2⟩

end Machine

end Stepwise
