import Stepwise.Machine.Step

/-!
# What a step can be

An unfinished machine drops the calls that have no visible unit left, and then runs the next unit of a call
(`step_ready`), runs the next unit of the top level (`step_top`), or finds no work and finishes (`step_idle`). Invariants
of runs are proved from these three equations, so that `step` is opened only here. Noting that calls are done
(`concludedAll`) changes nothing but the logs. Before the first step stands `load_ok`: what it takes to load a text.
-/

namespace Stepwise

/-- A call after a unit of it left the context `c`, with `work` put in front of its queue. -/
def Activation.after (a : Activation) (c : Context) (work : List Work) : Activation :=
  { a with scope := c.locals.getD a.scope, queue := work ++ a.queue }

/-! ## The call that has the next unit -/

theorem nextReady_some : ∀ {calls done : List Activation} {r : Ready}, nextReady calls = (done, some r) →
    (∀ a ∈ done, takeUnit? a.queue = none) ∧ ∃ queue, calls = done ++ { r.owner with queue } :: r.below ∧
      takeUnit? queue = some (r.unit, r.owner.queue)
  | a :: calls, done, r, h => by
    rw [nextReady] at h
    cases hq : takeUnit? a.queue with
    | some u => rw [hq] at h; cases h; exact ⟨by simp, a.queue, rfl, hq⟩
    | none =>
      rw [hq] at h
      obtain ⟨done', ready, hn⟩ : ∃ done' ready, nextReady calls = (done', ready) := ⟨_, _, rfl⟩
      rw [hn] at h
      cases h
      obtain ⟨hd, queue, rfl, ht⟩ := nextReady_some hn
      exact ⟨by simpa using ⟨hq, hd⟩, queue, rfl, ht⟩

theorem nextReady_none : ∀ {calls done : List Activation}, nextReady calls = (done, none) → calls = done
  | [], _, h => by cases h; rfl
  | a :: calls, done, h => by
    rw [nextReady] at h
    cases hq : takeUnit? a.queue with
    | some u => rw [hq] at h; cases h
    | none =>
      rw [hq] at h
      obtain ⟨done', ready, hn⟩ : ∃ done' ready, nextReady calls = (done', ready) := ⟨_, _, rfl⟩
      rw [hn] at h
      cases h
      rw [nextReady_none hn]

namespace Machine

/-! ## Notes on finished calls -/

section Notes

variable (m : Machine) (a : Activation) (done : List Activation)

theorem concluded_eq : ∃ logs, m.concluded a = { m with world := { m.world with logs := m.world.logs ++ logs } } := by
  unfold concluded
  cases a.handling with
  | none => exact ⟨[], by simp⟩
  | some note => exact ⟨_, rfl⟩

theorem concludedAll_cons : m.concludedAll (a :: done) = (m.concluded a).concludedAll done := rfl

theorem concludedAll_eq :
    ∃ logs, m.concludedAll done = { m with world := { m.world with logs := m.world.logs ++ logs } } := by
  induction done generalizing m with
  | nil => exact ⟨[], by simp [concludedAll]⟩
  | cons a done ih =>
    obtain ⟨logs, h⟩ := m.concluded_eq a
    obtain ⟨more, hm⟩ := ih (m.concluded a)
    exact ⟨logs ++ more, by rw [concludedAll_cons, hm, h]; simp⟩

@[simp] theorem concluded_stack : (m.concluded a).stack = m.stack := by
  obtain ⟨logs, h⟩ := m.concluded_eq a
  rw [h]

@[simp] theorem concludedAll_stack : (m.concludedAll done).stack = m.stack := by
  obtain ⟨logs, h⟩ := m.concludedAll_eq done
  rw [h]

end Notes

/-! ## The three cases -/

/-- The machine after the calls `done` have left the stack, which leaves `calls` on it. -/
def dropped (m : Machine) (done calls : List Activation) : Machine :=
  ({ m with stack := { m.stack with calls } }).concludedAll done

theorem concludedAll_withStack : ∀ (done : List Activation) (m : Machine) (stack : Stack),
    ({ m with stack }).concludedAll done = { m.concludedAll done with stack }
  | [], _, _ => rfl
  | a :: done, m, stack => by
    have h : ({ m with stack }).concluded a = { m.concluded a with stack } := by
      unfold concluded
      cases a.handling <;> rfl
    rw [concludedAll_cons, concludedAll_cons, h]
    exact concludedAll_withStack done (m.concluded a) stack

theorem dropped_eq (m : Machine) (done calls : List Activation) :
    m.dropped done calls = { m.concludedAll done with stack := { m.stack with calls } } :=
  concludedAll_withStack done m _

@[simp] theorem dropped_stack (m : Machine) (done calls : List Activation) :
    (m.dropped done calls).stack = { m.stack with calls } := concludedAll_stack _ done

section Steps

variable {m : Machine} {done : List Activation}

/-- A finished machine stays as it is. -/
theorem step_finished (hf : m.finished = true) : m.step = ⟨m, false⟩ := by
  unfold step
  rw [if_pos hf]

/-- The next unit belongs to a call. -/
theorem step_ready {r : Ready} (hf : m.finished = false) (h : nextReady m.stack.calls = (done, some r)) :
    m.step = ⟨((m.dropped done (r.owner :: r.below)).announce r.unit).runCall r, true⟩ := by
  unfold step dropped
  simp only [hf, Bool.false_eq_true, ↓reduceIte, h]

/-- The next unit belongs to the top level. -/
theorem step_top {unit : Work} {queue : List Work} (hf : m.finished = false)
    (h : nextReady m.stack.calls = (done, none)) (hq : takeUnit? m.stack.global.queue = some (unit, queue)) :
    m.step = ⟨((m.dropped done []).announce unit).runGlobal unit queue, true⟩ := by
  unfold step dropped
  simp only [hf, Bool.false_eq_true, ↓reduceIte, h, concludedAll_stack, hq]

/-- There is no unit left. -/
theorem step_idle (hf : m.finished = false) (h : nextReady m.stack.calls = (done, none))
    (hq : takeUnit? m.stack.global.queue = none) :
    m.step = ⟨{ m.dropped done [] with
      stack := ⟨{ (m.dropped done []).stack.global with queue := [] }, []⟩, finished := true }, false⟩ := by
  unfold step dropped
  simp only [hf, Bool.false_eq_true, ↓reduceIte, h, concludedAll_stack, hq]

/-- After a unit, the calls with an empty queue leave the stack. If nothing is left at all, the run is finished. -/
theorem settle_eq (m : Machine) :
    m.settle =
      let calls := m.stack.calls.dropWhile (·.queue.isEmpty)
      let rest := m.dropped (m.stack.calls.takeWhile (·.queue.isEmpty)) calls
      if calls.isEmpty && m.stack.global.queue.isEmpty then { rest with finished := true } else rest := by
  simp only [settle, dropped, concludedAll_stack]

theorem settle_stack (m : Machine) :
    m.settle.stack = { m.stack with calls := m.stack.calls.dropWhile (·.queue.isEmpty) } := by
  rw [settle_eq]
  dsimp only
  split <;> exact dropped_stack _ _ _

end Steps

/-! ## Running a unit -/

/-- The machine with the world and the global scope of a context, the given calls and queue of the top level. -/
def adopt (m : Machine) (c : Context) (calls : List Activation) (queue : List Work) : Machine :=
  { m with world := c.world, stack := ⟨⟨c.globals, queue⟩, calls⟩ }

section Units

variable {m : Machine} {r : Ready} {unit : Work} {queue work : List Work} {v : Value} {e : RuntimeError} {c : Context}

theorem runCall_next (h : r.unit.run (m.context (some r.owner.scope)) = .ok (.next work) c) :
    m.runCall r = (m.adopt c (c.pushed ++ r.owner.after c work :: r.below) m.stack.global.queue).settle := by
  unfold runCall
  rw [h]
  rfl

/-- A value that leaves a call takes it off the stack, and no other call. -/
theorem runCall_leave (h : r.unit.run (m.context (some r.owner.scope)) = .ok (.leave v) c) :
    m.runCall r =
      (((m.adopt c (c.pushed ++ r.below) m.stack.global.queue).logReturn r.owner.name v).concluded r.owner).settle := by
  unfold runCall
  rw [h]
  rfl

theorem runCall_error (h : r.unit.run (m.context (some r.owner.scope)) = .error e c) :
    m.runCall r = (m.adopt c (c.pushed ++ r.owner.after c [] :: r.below) m.stack.global.queue).halt e := by
  unfold runCall
  rw [h]
  rfl

theorem runGlobal_next (h : unit.run (m.context none) = .ok (.next work) c) :
    m.runGlobal unit queue = (m.adopt c c.pushed (work ++ queue)).settle := by
  unfold runGlobal
  rw [h]
  rfl

theorem runGlobal_leave (h : unit.run (m.context none) = .ok (.leave v) c) :
    m.runGlobal unit queue = ((m.adopt c c.pushed []).logReturn "(global)" v).settle := by
  unfold runGlobal
  rw [h]
  rfl

theorem runGlobal_error (h : unit.run (m.context none) = .error e c) :
    m.runGlobal unit queue = (m.adopt c c.pushed queue).halt e := by
  unfold runGlobal
  rw [h]
  rfl

end Units

/-! ## What units leave alone -/

/-- The script of a machine, its warnings and its scoping. -/
def script (m : Machine) : Program × List Finding × Scoping := (m.program, m.warnings, m.scoping)

/-- The line and the sentence of the last unit, and the number of units so far. -/
def told (m : Machine) : Option Nat × String × Nat := (m.line, m.explanation, m.steps)

/-- What running a unit does not change. -/
def fixed (m : Machine) : (Program × List Finding × Scoping) × Option Nat × String × Nat := (m.script, m.told)

section Fixed

variable (m : Machine)

@[simp] theorem concludedAll_fixed (done : List Activation) : (m.concludedAll done).fixed = m.fixed := by
  obtain ⟨logs, h⟩ := m.concludedAll_eq done
  rw [h]
  rfl

@[simp] theorem dropped_fixed (done calls : List Activation) : (m.dropped done calls).fixed = m.fixed :=
  concludedAll_fixed _ done

@[simp] theorem settle_fixed : m.settle.fixed = m.fixed := by
  rw [settle_eq]
  dsimp only
  split
  · exact m.dropped_fixed _ _
  · exact m.dropped_fixed _ _

@[simp] theorem runCall_fixed (r : Ready) : (m.runCall r).fixed = m.fixed := by
  cases h : r.unit.run (m.context (some r.owner.scope)) with
  | error e c => rw [runCall_error h]; rfl
  | ok o c =>
    cases o with
    | next work => rw [runCall_next h, settle_fixed]; rfl
    | leave v => rw [runCall_leave h, settle_fixed]; exact concludedAll_fixed _ [r.owner]

@[simp] theorem runGlobal_fixed (unit : Work) (queue : List Work) : (m.runGlobal unit queue).fixed = m.fixed := by
  cases h : unit.run (m.context none) with
  | error e c => rw [runGlobal_error h]; rfl
  | ok o c =>
    cases o with
    | next work => rw [runGlobal_next h, settle_fixed]; rfl
    | leave v => rw [runGlobal_leave h, settle_fixed]; rfl

theorem announce_fixed (unit : Work) :
    (m.announce unit).fixed = (m.script, some unit.span.line, unit.sentence, m.steps + 1) := rfl

/-- A step that an observer is shown tells of a unit and counts it. All others tell of nothing. -/
theorem step_fixed : (m.step.shown = false ∧ m.step.machine.fixed = m.fixed) ∨
    ∃ unit : Work, m.step.shown = true ∧
      m.step.machine.fixed = (m.script, some unit.span.line, unit.sentence, m.steps + 1) := by
  cases hf : m.finished with
  | true => rw [step_finished hf]; exact .inl ⟨rfl, rfl⟩
  | false =>
    obtain ⟨done, ready, hn⟩ : ∃ done ready, nextReady m.stack.calls = (done, ready) := ⟨_, _, rfl⟩
    have hd (calls : List Activation) (unit : Work) : ((m.dropped done calls).announce unit).fixed =
        (m.script, some unit.span.line, unit.sentence, m.steps + 1) := by
      have h := m.dropped_fixed done calls
      rw [announce_fixed]
      exact congrArg (fun f => (f.1, some unit.span.line, unit.sentence, f.2.2.2 + 1)) h
    cases ready with
    | some r => exact .inr ⟨r.unit, by rw [step_ready hf hn], by rw [step_ready hf hn, runCall_fixed, hd]⟩
    | none =>
      cases hq : takeUnit? m.stack.global.queue with
      | some u => exact .inr ⟨u.1, by rw [step_top hf hn hq], by rw [step_top hf hn hq, runGlobal_fixed, hd]⟩
      | none => rw [step_idle hf hn hq]; exact .inl ⟨rfl, m.dropped_fixed done []⟩

theorem step_steps : m.step.machine.steps = m.steps + if m.step.shown then 1 else 0 := by
  rcases m.step_fixed with ⟨hs, h⟩ | ⟨unit, hs, h⟩ <;> rw [hs] <;> exact congrArg (·.2.2.2) h

theorem step_script : m.step.machine.script = m.script := by
  rcases m.step_fixed with ⟨-, h⟩ | ⟨unit, -, h⟩ <;> exact congrArg (·.1) h

end Fixed

/-! ## Loading -/

section Loading

variable {source : String} {document : Option Document} {scoping : Scoping} {m : Machine}

/-- A script is loaded unless some of its findings are errors. -/
theorem load_parsed {program : Program} (hp : Program.parse source = .ok program) (document : Option Document)
    (scoping : Scoping) : load source document scoping =
      if (program.findings.filter Finding.isError).isEmpty then
        .ok (ofProgram program (program.findings.filter (not ∘ Finding.isError)) scoping document)
      else .error (.check (program.findings.filter Finding.isError)) := by
  unfold load
  rw [hp]
  change (if (program.findings.partition Finding.isError).1.isEmpty = true then
    Except.ok (ofProgram program (program.findings.partition Finding.isError).2 scoping document)
    else Except.error (LoadError.check (program.findings.partition Finding.isError).1)) = _
  rw [List.partition_eq_filter_filter]

theorem filter_not_isError {findings : List Finding} (hf : ∀ f ∈ findings, f.isError = false) :
    findings.filter (not ∘ Finding.isError) = findings := List.filter_eq_self.2 fun f hm => by simp [hf f hm]

/-- A text that is loaded was read, and its findings are the warnings of the machine. -/
theorem load_ok (h : load source document scoping = .ok m) : ∃ program, Program.parse source = .ok program ∧
    (∀ f ∈ program.findings, f.isError = false) ∧ m = ofProgram program program.findings scoping document := by
  cases hp : Program.parse source with
  | error e =>
    unfold load at h
    rw [hp] at h
    cases h
  | ok program =>
    rw [load_parsed hp] at h
    split at h
    · rename_i he
      have hf : ∀ f ∈ program.findings, f.isError = false := by simpa using he
      rw [filter_not_isError hf] at h
      cases h
      exact ⟨program, rfl, hf, rfl⟩
    · cases h

/-- A script without errors is loaded, whatever the scoping. -/
theorem load_of_parse {program : Program} (hp : Program.parse source = .ok program)
    (hf : ∀ f ∈ program.findings, f.isError = false) (document : Option Document) (scoping : Scoping) :
    load source document scoping = .ok (ofProgram program program.findings scoping document) := by
  have herrors : program.findings.filter Finding.isError = [] := List.filter_eq_nil_iff.2 fun f hm => by simp [hf f hm]
  rw [load_parsed hp, filter_not_isError hf, herrors]
  rfl

/-- A test of the machine that a text is loaded as. -/
theorem exists_loaded {test : Machine → Bool} (h : (load source document scoping).toOption.any test = true) :
    ∃ m, load source document scoping = .ok m ∧ test m = true := by
  cases hl : load source document scoping with
  | error e => rw [hl] at h; cases h
  | ok m => rw [hl] at h; exact ⟨m, rfl, h⟩

end Loading

end Machine

end Stepwise
