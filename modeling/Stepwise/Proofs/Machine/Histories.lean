import Stepwise.Proofs.Machine.Commands
import Stepwise.Proofs.Machine.Invocations

/-!
# Histories only grow

`m.invocations c` lists the calls that the command `c` makes on the machine `m`. A step makes those of the unit that it
runs, and an event those of its listeners. `m.Grows calls n` says that `n` comes after `m` with these calls in between:
nothing is taken from the logs, the listeners, the elements of the page and the names of the global scope, the steps are
not counted back, and the dialogs of the page are those of the calls (`perform_grows`, `performAll_grows`).

**`Machine.histories_grow`**: what a host has seen of a machine is still there after each command, and at any point of a
run the answers that are left are the first ones less one for each call of `prompt`.
-/

namespace Stepwise

open Eval

namespace Machine

/-! ## Calls of commands -/

/-- The unit that a step runs, and the context that it runs in. -/
def running? (m : Machine) : Option (Work × Context) :=
  if m.finished then none
  else
    match nextReady m.stack.calls with
    | (done, some r) =>
      some (r.unit, ((m.dropped done (r.owner :: r.below)).announce r.unit).context (some r.owner.scope))
    | (done, none) =>
      (takeUnit? m.stack.global.queue).map fun (unit, _) =>
        (unit, ((m.dropped done []).announce unit).context none)

def stepInvocations (m : Machine) : List Invocation :=
  match m.running? with
  | some (unit, c) => unit.invocations c
  | none => []

/-- An event that no listener waits for, or that comes after an error, makes no calls. -/
def fireInvocations (m : Machine) (node : Nat) (event : String) : List Invocation :=
  if m.error.isSome || (m.listenersFor node event).isEmpty then []
  else
    listenerInvocations event (m.listenersFor node event).reverse
      ((m.logFired event (m.listenersFor node event)).context none)

/-- The calls of a command, first to last. -/
def invocations (m : Machine) : Command → List Invocation
  | .step => m.stepInvocations
  | .fire node event => m.fireInvocations node event
  | .fireById id event =>
    match m.world.document.bind (·.byId? id) with
    | some handle => m.fireInvocations handle.node event
    | none => []

/-- The calls of a run, first to last. -/
def invocationsIn (m : Machine) : List Command → List Invocation
  | [] => []
  | c :: commands => m.invocations c ++ (m.perform c).invocationsIn commands

/-! ## Growth -/

/-- The machine `n` comes after `m`, with the calls in between. -/
structure Grows (calls : List Invocation) (m n : Machine) : Prop where
  steps : m.steps ≤ n.steps
  globals : ∀ name, m.stack.global.scope.has name → n.stack.global.scope.has name
  world : m.world.Grows calls n.world

namespace Grows

variable {calls more : List Invocation} {m n k : Machine}

theorem refl (m : Machine) : m.Grows [] m := ⟨Nat.le_refl _, fun _ h => h, .quiet quiet_nil _⟩

theorem trans (h : m.Grows calls n) (h' : n.Grows more k) : m.Grows (calls ++ more) k :=
  ⟨Nat.le_trans h.steps h'.steps, fun name hn => h'.globals name (h.globals name hn), h.world.trans h'.world⟩

/-- Nothing is called first. -/
theorem before (h : m.Grows [] n) (h' : n.Grows calls k) : m.Grows calls k := h.trans h'

/-- Nothing is called afterwards. -/
theorem after (h : m.Grows calls n) (h' : n.Grows [] k) : m.Grows calls k := List.append_nil calls ▸ h.trans h'

theorem log (m : Machine) (kind : LogKind) (message : String) : m.Grows [] (m.log kind message) :=
  ⟨Nat.le_refl _, fun _ h => h, .log _ _⟩

theorem concludedAll (done : List Activation) (m : Machine) : m.Grows [] (m.concludedAll done) := by
  obtain ⟨logs, h⟩ := m.concludedAll_eq done
  rw [h]
  exact ⟨Nat.le_refl _, fun _ h => h, .silent (List.prefix_append _ _) (List.prefix_refl _) rfl⟩

theorem dropped (m : Machine) (done calls : List Activation) : m.Grows [] (m.dropped done calls) := by
  have h := concludedAll done m
  rw [dropped_eq]
  exact ⟨h.steps, fun _ hn => hn, h.world⟩

theorem settle (m : Machine) : m.Grows [] m.settle := by
  have h := dropped m (m.stack.calls.takeWhile (·.queue.isEmpty)) (m.stack.calls.dropWhile (·.queue.isEmpty))
  rw [settle_eq]
  dsimp only
  split
  · exact ⟨h.steps, h.globals, h.world⟩
  · exact h

theorem announce (m : Machine) (unit : Work) : m.Grows [] (m.announce unit) :=
  ⟨Nat.le_succ _, fun _ h => h, .quiet quiet_nil _⟩

/-- The machine takes over what a computation left. -/
theorem adopt {locals : Option Scope} {c : Context} (h : (m.context locals).Grows calls c) (as : List Activation)
    (queue : List Work) : m.Grows calls (m.adopt c as queue) := ⟨Nat.le_refl _, h.globals, h.world⟩

end Grows

/-! ## Commands -/

section Commands

variable (m : Machine)

theorem runCall_grows (r : Ready) : m.Grows (r.unit.invocations (m.context (some r.owner.scope))) (m.runCall r) := by
  have hg := r.unit.run_grows (m.context (some r.owner.scope))
  cases hu : r.unit.run (m.context (some r.owner.scope)) with
  | error e c =>
    rw [hu] at hg
    rw [runCall_error hu]
    exact ⟨Nat.le_refl _, hg.globals, hg.world⟩
  | ok o c =>
    rw [hu] at hg
    cases o with
    | next work => rw [runCall_next hu]; exact (Grows.adopt hg _ _).after (.settle _)
    | leave v =>
      rw [runCall_leave hu]
      refine Grows.after ?_ (.settle _)
      refine Grows.after ?_ (.concludedAll [r.owner] _)
      exact (Grows.adopt hg (c.pushed ++ r.below) m.stack.global.queue).after (.log _ .ret _)

theorem runGlobal_grows (unit : Work) (queue : List Work) :
    m.Grows (unit.invocations (m.context none)) (m.runGlobal unit queue) := by
  have hg := unit.run_grows (m.context none)
  cases hu : unit.run (m.context none) with
  | error e c =>
    rw [hu] at hg
    rw [runGlobal_error hu]
    exact ⟨Nat.le_refl _, hg.globals, hg.world⟩
  | ok o c =>
    rw [hu] at hg
    cases o with
    | next work => rw [runGlobal_next hu]; exact (Grows.adopt hg _ _).after (.settle _)
    | leave v => rw [runGlobal_leave hu]; exact ((Grows.adopt hg _ _).after (.log _ .ret _)).after (.settle _)

/-- **Steps** make the calls of their unit. -/
theorem step_grows : m.Grows m.stepInvocations m.step.machine := by
  unfold stepInvocations running?
  cases hf : m.finished with
  | true =>
    rw [step_finished hf]
    exact .refl m
  | false =>
    obtain ⟨done, ready, hn⟩ : ∃ done ready, nextReady m.stack.calls = (done, ready) := ⟨_, _, rfl⟩
    have hd (calls : List Activation) (unit : Work) : m.Grows [] ((m.dropped done calls).announce unit) :=
      (Grows.dropped m done calls).trans (.announce _ unit)
    simp only [Bool.false_eq_true, ↓reduceIte, hn]
    cases ready with
    | some r =>
      rw [step_ready hf hn]
      exact (hd _ r.unit).before (runCall_grows _ r)
    | none =>
      cases hq : takeUnit? m.stack.global.queue with
      | some u =>
        rw [step_top hf hn hq]
        exact (hd _ u.1).before (runGlobal_grows _ u.1 u.2)
      | none =>
        have hidle := Grows.dropped m done []
        rw [step_idle hf hn hq]
        exact ⟨hidle.steps, hidle.globals, hidle.world⟩

theorem logFired_grows (event : String) : ∀ (listeners : List Listener) (m : Machine),
    m.Grows [] (m.logFired event listeners)
  | [], m => .refl m
  | _ :: listeners, m => (Grows.log m _ _).before (logFired_grows event listeners _)

theorem callAll_grows (event : String) (listeners : List Listener) :
    m.Grows (listenerInvocations event listeners.reverse (m.context none)) (m.callAll event listeners) := by
  have hg := callListeners_grows event listeners.reverse (m.context none)
  cases hr : callListeners event listeners.reverse (m.context none) with
  | ok _ c => rw [hr] at hg; rw [callAll_ok hr]; exact ⟨Nat.le_refl _, hg.globals, hg.world⟩
  | error e c => rw [hr] at hg; rw [callAll_error hr]; exact ⟨Nat.le_refl _, hg.globals, hg.world⟩

/-- **Events** call their listeners. -/
theorem fire_grows (node : Nat) (event : String) :
    m.Grows (m.fireInvocations node event) (m.fire node event).2.machine := by
  rw [fire_machine]
  unfold fireInvocations
  split
  · exact .refl m
  · exact (logFired_grows event _ m).before (callAll_grows _ event _)

theorem perform_grows : ∀ c : Command, m.Grows (m.invocations c) (m.perform c)
  | .step => m.step_grows
  | .fire node event => m.fire_grows node event
  | .fireById id event => by
    show m.Grows _ (m.fireById id event).2.machine
    rw [invocations, fireById]
    cases m.world.document.bind (·.byId? id) with
    | some handle => exact m.fire_grows handle.node event
    | none => exact .refl m

end Commands

/-- **Runs** make the calls of their commands. -/
theorem performAll_grows : ∀ (commands : List Command) (m : Machine),
    m.Grows (m.invocationsIn commands) (m.performAll commands)
  | [], m => .refl m
  | c :: commands, m => (m.perform_grows c).trans (performAll_grows commands (m.perform c))

/-! ## What a host sees -/

/-- Everything that a host has seen of `m` is still there in `n`, and new things come behind it. -/
structure Retained (m n : Machine) : Prop where
  logs : m.world.logs <+: n.world.logs
  listeners : m.world.listeners <+: n.world.listeners
  steps : m.steps ≤ n.steps
  globals : ∀ name, m.stack.global.scope.has name → n.stack.global.scope.has name
  page : ∀ d, m.world.document = some d → ∃ d', n.world.document = some d' ∧ d.alerts <+: d'.alerts ∧
    d.prompts <+: d'.prompts ∧ d'.elements.map (·.tag) = d.elements.map (·.tag)

theorem Grows.retained {calls : List Invocation} {m n : Machine} (h : m.Grows calls n) : m.Retained n where
  logs := h.world.logs
  listeners := h.world.listeners
  steps := h.steps
  globals := h.globals
  page d hd := by
    obtain ⟨d', hd', hg⟩ := h.world.document d hd
    exact ⟨d', hd', hg.alerts ▸ List.prefix_append _ _, hg.prompts ▸ List.prefix_append _ _, hg.tags⟩

/-- **Histories only grow.** After any commands that a loaded machine got,

* one more command, be it a step or an event, takes nothing from the logs, the listeners, the alerts and prompts of the
  page, its elements and the names of the global scope, and counts no step back;
* the page shows the dialogs of the calls that were made since the start, and the answers that are left are those of the
  start without the first `n`, where `n` is the number of calls of `prompt` or, if there were more of these than answers,
  the number of answers. -/
theorem histories_grow {source : String} {document : Option Document} {scoping : Scoping} {m : Machine}
    (h : load source document scoping = .ok m) (commands : List Command) :
    (∀ c : Command, (m.performAll commands).Retained ((m.performAll commands).perform c)) ∧
    ∀ page, document = some page → ∃ now, (m.performAll commands).world.document = some now ∧
      page.Grows (m.invocationsIn commands) now ∧
      now.answers = page.answers.drop
        (min page.answers.length ((m.invocationsIn commands).countP (·.isOf "prompt"))) := by
  obtain ⟨program, -, -, rfl⟩ := load_ok h
  refine ⟨fun c => (perform_grows _ c).retained, fun page hpage => ?_⟩
  have hrun := performAll_grows commands (ofProgram program program.findings scoping document)
  obtain ⟨now, hnow, hg⟩ := hrun.world.document page hpage
  refine ⟨now, hnow, hg, ?_⟩
  rw [hg.answers]
  generalize List.countP _ _ = asked
  rcases Nat.le_total page.answers.length asked with hle | hle
  · rw [Nat.min_eq_left hle, List.drop_of_length_le hle, List.drop_length]
  · rw [Nat.min_eq_right hle]

/-- A script that asks with `prompt`, also as a listener, shows the answer and asks for consent. -/
def askingScript : String :=
  "let name = prompt('Name?');\nalert('Hi ' + name);\nif (confirm('More?')) alert(prompt('Age?'));\n" ++
    "document.getElementById('b').addEventListener('click', prompt);"

/-- A page with a button, for which two answers are prepared. -/
def answeringPage : Document :=
  { Document.empty with elements := [⟨some "b", "button", [], ∅, ∅, []⟩], answers := ["Ada", "36"] }

/-- All steps of the script, and two clicks. -/
def askingRun : List Command :=
  [.step, .step, .step, .step, .step, .fireById "b" "click", .fireById "b" "click"]

/-- Four calls of `prompt` take two answers. -/
theorem histories_grow_askingScript : ∃ m, load askingScript (some answeringPage) .chained = .ok m ∧
    (m.performAll askingRun).Retained ((m.performAll askingRun).perform (.fireById "b" "click")) ∧
    (m.invocationsIn askingRun).countP (·.isOf "prompt") = 4 ∧
    ∃ now, (m.performAll askingRun).world.document = some now ∧
      now.answers = answeringPage.answers.drop (min 2 4) ∧ now.alerts = ["Hi Ada", "36"] ∧
      now.prompts = ["Name?", "More?", "Age?", "", ""] := by
  have hrun : (load askingScript (some answeringPage) .chained).toOption.any (fun m =>
      let calls := m.invocationsIn askingRun
      calls.countP (·.isOf "prompt") == 4 && (calls.filter (·.isOf "alert")).map (·.message) == ["Hi Ada", "36"] &&
        (calls.filter fun i => i.isOf "prompt" || i.isOf "confirm").map (·.message) ==
          ["Name?", "More?", "Age?", "", ""]) = true := by decide +kernel
  obtain ⟨m, h, ht⟩ := exists_loaded hrun
  simp only [Bool.and_eq_true, beq_iff_eq] at ht
  obtain ⟨⟨hcount, halerts⟩, hprompts⟩ := ht
  obtain ⟨hretained, hpage⟩ := histories_grow h askingRun
  obtain ⟨now, hnow, hg, hanswers⟩ := hpage answeringPage rfl
  rw [hcount] at hanswers
  exact ⟨m, h, hretained _, hcount, now, hnow, hanswers, hg.alerts.trans (by rw [halerts]; rfl),
    hg.prompts.trans (by rw [hprompts]; rfl)⟩

end Machine

end Stepwise
