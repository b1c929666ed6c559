import Stepwise.CommandLine.Run
import Stepwise.Proofs.Machine.Visible

/-!
# The step limit of a run

A run on the command line steps a machine until it is finished or the limit is reached, and then fires events, each
followed by stepping as before. `Phase.next` is one turn of these loops: they look at the number of steps that the machine
has counted, and nothing bounds the number of turns beforehand. `Session.drive` counts its turns instead. The two agree
since a step that is not counted finishes the machine (`Machine.finished_of_unseen`), and so does stepping with a limit in
general (`Machine.runFor_runsUntil`).

**`Machine.run_within_step_limit`**: every run ends, with as many steps as the limit allows at most.
-/

namespace Stepwise

/-! ## Steps with a limit -/

namespace Machine

variable {m : Machine}

/-- A step that is not counted finishes the machine. -/
theorem finished_of_unseen (h : m.step.shown = false) : m.step.machine.finished = true := by
  cases hf : m.finished with
  | true => rw [step_finished hf, hf]
  | false =>
    cases hp : m.pending with
    | nil => rw [step_of_no_pending hf hp]
    | cons u rest =>
      obtain ⟨depth, unit⟩ := u
      obtain ⟨done, kept, queue, -, -, -, hs⟩ := step_of_pending hf hp
      rw [hs] at h
      cases h

theorem step_counted (h : m.step.machine.finished = false) : m.step.machine.steps = m.steps + 1 := by
  cases hs : m.step.shown with
  | true => rw [step_steps, hs, if_pos rfl]
  | false => rw [finished_of_unseen hs] at h; cases h

theorem step_steps_le (m : Machine) : m.step.machine.steps ≤ m.steps + 1 := by
  rw [step_steps]
  split <;> omega

/-- Steps are taken, from `start` counted steps on, until there are `limit` more or the machine is finished. -/
inductive RunsUntil (limit start : Nat) : Machine → Machine → Prop where
  | limit {m : Machine} : limit ≤ m.steps - start → RunsUntil limit start m m
  | done {m : Machine} : m.steps - start < limit → m.step.machine.finished = true →
    RunsUntil limit start m m.step.machine
  | more {m n : Machine} : m.steps - start < limit → m.step.machine.finished = false →
    RunsUntil limit start m.step.machine n → RunsUntil limit start m n

variable {σ : Type} (observe : σ → Machine → σ)

/-- Counting turns and counting steps is the same. -/
theorem runFor_runsUntil (n : Nat) (acc : σ) {m : Machine} {limit start : Nat} (hs : start ≤ m.steps)
    (hn : m.steps - start + n = limit) : RunsUntil limit start m (m.runFor observe n acc).2 := by
  induction n generalizing m acc with
  | zero => exact .limit (Nat.le_of_eq hn.symm)
  | succ n ih =>
    have hlt : m.steps - start < limit := by omega
    rw [runFor]
    cases hf : m.step.machine.finished with
    | true => exact .done hlt hf
    | false =>
      have hcount := step_counted hf
      exact .more hlt hf (ih _ (by omega) (by omega))

end Machine

namespace Session

variable {mode : PrintMode} {maxSteps : Nat}

/-! ## Driving a session -/

theorem printStep_machine (s : Session) : (s.printStep mode).machine = s.machine := by
  unfold printStep
  dsimp only
  split <;> rfl

/-- A step that is printed. -/
def advance (mode : PrintMode) (s : Session) : Session := ({ s with machine := s.machine.step.machine }).printStep mode

theorem advance_machine (s : Session) : (s.advance mode).machine = s.machine.step.machine := printStep_machine _

theorem drive_finished {s : Session} (hf : s.machine.finished = true) (n : Nat) : s.drive mode n = s := by
  cases n with
  | zero => rfl
  | succ n => rw [drive, if_pos hf]

theorem driveTo_finished {s : Session} (hf : s.machine.finished = true) : s.driveTo mode maxSteps = s :=
  drive_finished hf _

theorem driveTo_limit {s : Session} (h : maxSteps ≤ s.machine.steps) : s.driveTo mode maxSteps = s := by
  rw [driveTo, Nat.sub_eq_zero_of_le h, drive]

/-- One turn of driving. -/
theorem driveTo_advance {s : Session} (hf : s.machine.finished = false) (h : s.machine.steps < maxSteps) :
    s.driveTo mode maxSteps = (s.advance mode).driveTo mode maxSteps := by
  obtain ⟨n, hn⟩ : ∃ n, maxSteps - s.machine.steps = n + 1 := ⟨maxSteps - s.machine.steps - 1, by omega⟩
  have hdrive : s.driveTo mode maxSteps = (s.advance mode).drive mode n := by
    rw [driveTo, hn, drive, hf]
    rfl
  cases hd : (s.advance mode).machine.finished with
  | true => rw [hdrive, drive_finished hd, driveTo_finished hd]
  | false =>
    rw [advance_machine] at hd
    have hcount := Machine.step_counted hd
    rw [hdrive, driveTo, advance_machine, hcount, show maxSteps - (s.machine.steps + 1) = n by omega]

/-- Printing aside, driving is running with a limit. -/
theorem drive_machine {σ : Type} (observe : σ → Machine → σ) (n : Nat) (acc : σ) (s : Session) :
    (s.drive mode n).machine = (s.machine.runFor observe n acc).2 := by
  induction n generalizing s acc with
  | zero => rfl
  | succ n ih =>
    rw [Machine.runFor]
    cases hf : s.machine.finished with
    | true =>
      rw [drive_finished hf, Machine.step_finished hf]
      simp only [hf, ↓reduceIte]
    | false =>
      have hdrive : s.drive mode (n + 1) = (s.advance mode).drive mode n := by
        rw [drive, hf]
        rfl
      have hm : (s.advance mode).machine = s.machine.step.machine := advance_machine s
      cases hd : s.machine.step.machine.finished with
      | true =>
        rw [hdrive, drive_finished (hm ▸ hd), hm]
        simp only [↓reduceIte]
      | false =>
        simp only [Bool.false_eq_true, ↓reduceIte]
        rw [hdrive, ← hm]
        exact ih _ _

end Session

/-! ## The loops of a run -/

/-- Where a run stands. -/
inductive Phase where
  /-- The machine is driven. -/
  | driving (s : Session) (targets : List String)
  /-- Driving has returned, with the answer `completed`, or an event had no listeners. The next target is looked at. -/
  | choosing (s : Session) (completed : Bool) (targets : List String)
  | ended (s : Session) (completed : Bool) (failure : Option Failure)

namespace Phase

def session : Phase → Session
  | driving s _ | choosing s _ _ | ended s _ _ => s

section Loops

variable (mode : PrintMode) (maxSteps : Nat)

/-- Fires the event of a target. -/
def fire (s : Session) (completed : Bool) (rest : List String) (id event : String) : Phase :=
  let fired := s.machine.fireById id event
  let s := { s with machine := fired.2.machine }
  if fired.1 = 0 then choosing (s.print (.noListeners event id)) completed rest else driving (s.printLogs mode) rest

/-- One turn of the loops. -/
def next : Phase → Phase
  | driving s targets =>
    if s.machine.finished then choosing s true targets
    else if maxSteps ≤ s.machine.steps then choosing s false targets
    else driving (s.advance mode) targets
  | choosing s completed [] => ended s completed none
  | choosing s completed (text :: rest) =>
    if ! completed then ended s completed none
    else
      match Session.target? text with
      | none => ended s completed (some (.badEvent text))
      | some (id, event) => fire mode s completed rest id event
  | ended s completed failure => ended s completed failure

/-- The run after a number of turns. -/
def later : Nat → Phase → Phase
  | 0, p => p
  | n + 1, p => later n (p.next mode maxSteps)

end Loops

section Turns

variable {mode : PrintMode} {maxSteps : Nat}

theorem later_add (i j : Nat) (p : Phase) :
    later mode maxSteps (i + j) p = later mode maxSteps j (later mode maxSteps i p) := by
  induction i generalizing p with
  | zero => rw [Nat.zero_add, later]
  | succ i ih => rw [Nat.add_right_comm, later, later, ih]

theorem next_finished {s : Session} (hf : s.machine.finished = true) (targets : List String) :
    (driving s targets).next mode maxSteps = choosing s true targets := if_pos hf

theorem next_limit {s : Session} (hf : s.machine.finished = false) (h : maxSteps ≤ s.machine.steps)
    (targets : List String) : (driving s targets).next mode maxSteps = choosing s false targets := by
  rw [next, hf, if_neg Bool.false_ne_true, if_pos h]

theorem next_advance {s : Session} (hf : s.machine.finished = false) (h : s.machine.steps < maxSteps)
    (targets : List String) : (driving s targets).next mode maxSteps = driving (s.advance mode) targets := by
  rw [next, hf, if_neg Bool.false_ne_true, if_neg (Nat.not_le.2 h)]

/-- How many turns driving may take. -/
def turnsLeft (maxSteps : Nat) (s : Session) : Nat := if s.machine.finished then 0 else maxSteps - s.machine.steps + 1

theorem turnsLeft_advance {s : Session} (hf : s.machine.finished = false) (h : s.machine.steps < maxSteps) :
    turnsLeft maxSteps (s.advance mode) < turnsLeft maxSteps s := by
  rw [turnsLeft, turnsLeft, hf, if_neg Bool.false_ne_true, Session.advance_machine]
  cases hd : s.machine.step.machine.finished with
  | true => simp
  | false =>
    have hcount := Machine.step_counted hd
    rw [if_neg Bool.false_ne_true]
    omega

/-- **Driving returns.** Every step that is counted brings the machine closer to the limit, and one that is not counted is
the last. -/
theorem driving_returns (mode : PrintMode) (maxSteps : Nat) (s : Session) (targets : List String) : ∃ n,
    (∀ i ≤ n, ∃ s', later mode maxSteps i (driving s targets) = driving s' targets) ∧
    later mode maxSteps (n + 1) (driving s targets) =
      choosing (s.driveTo mode maxSteps) (s.driveTo mode maxSteps).machine.finished targets := by
  induction hn : turnsLeft maxSteps s using Nat.strongRecOn generalizing s with
  | ind k ih =>
    have hfirst : ∀ i ≤ 0, ∃ s', later mode maxSteps i (driving s targets) = driving s' targets :=
      fun i hi => ⟨s, by rw [Nat.le_zero.1 hi]; rfl⟩
    cases hf : s.machine.finished with
    | true =>
      refine ⟨0, hfirst, ?_⟩
      rw [later, later, next_finished hf, Session.driveTo_finished hf, hf]
    | false =>
      rcases Nat.lt_or_ge s.machine.steps maxSteps with hlt | hge
      · have hnext : (driving s targets).next mode maxSteps = driving (s.advance mode) targets :=
          next_advance hf hlt targets
        obtain ⟨n, hdriving, hlast⟩ := ih _ (hn ▸ turnsLeft_advance hf hlt) (s.advance mode) rfl
        refine ⟨n + 1, fun i hi => ?_, ?_⟩
        · cases i with
          | zero => exact hfirst 0 (Nat.le_refl 0)
          | succ i =>
            rw [later, hnext]
            exact hdriving i (Nat.le_of_succ_le_succ hi)
        · rw [later, hnext, Session.driveTo_advance hf hlt]
          exact hlast
      · refine ⟨0, hfirst, ?_⟩
        rw [later, later, next_limit hf hge, Session.driveTo_limit hge, hf]

end Turns

end Phase

/-! ## Events -/

namespace Machine

variable {m : Machine}

theorem fireById_eq (m : Machine) (id event : String) :
    m.fireById id event = (0, ⟨m, false⟩) ∨ ∃ node, m.fireById id event = m.fire node event := by
  unfold fireById
  split
  · exact .inr ⟨_, rfl⟩
  · exact .inl rfl

/-- An event without listeners changes nothing. -/
theorem fire_none {node : Nat} {event : String} (h : (m.fire node event).1 = 0) : (m.fire node event).2.machine = m := by
  rw [fire_machine]
  split
  · rfl
  · rename_i hsome
    rw [Bool.or_eq_true, not_or, Bool.not_eq_true, Bool.not_eq_true] at hsome
    have hlen : (m.fire node event).1 = (m.listenersFor node event).length := by
      unfold fire
      simp only [hsome.1, hsome.2, Bool.false_eq_true, ↓reduceIte]
      split <;> rfl
    rw [hlen, List.length_eq_zero_iff] at h
    rw [h] at hsome
    cases hsome.2

theorem fireById_none {id event : String} (h : (m.fireById id event).1 = 0) : (m.fireById id event).2.machine = m := by
  rcases m.fireById_eq id event with heq | ⟨node, heq⟩
  · rw [heq]
  · rw [heq] at h ⊢
    exact fire_none h

theorem fire_steps (m : Machine) (node : Nat) (event : String) : (m.fire node event).2.machine.steps = m.steps := by
  rw [fire_machine]
  split
  · rfl
  · obtain ⟨logs, hlogs⟩ := m.logFired_eq event (m.listenersFor node event)
    rw [hlogs]
    unfold callAll
    split <;> rfl

/-- Events count no steps. -/
theorem fireById_steps (m : Machine) (id event : String) : (m.fireById id event).2.machine.steps = m.steps := by
  rcases m.fireById_eq id event with heq | ⟨node, heq⟩
  · rw [heq]
  · rw [heq]
    exact m.fire_steps node event

end Machine

section Targets

variable {mode : PrintMode} {maxSteps : Nat} {s : Session} {text id event : String} {rest : List String}

/-- The session after an event was fired, with what was logged. -/
def Session.fired (mode : PrintMode) (s : Session) (id event : String) : Session :=
  ({ s with machine := (s.machine.fireById id event).2.machine }).printLogs mode

theorem Session.fireAll_unheard (hf : s.machine.finished = true) (ht : Session.target? text = some (id, event))
    (hc : (s.machine.fireById id event).1 = 0) : s.fireAll mode maxSteps (text :: rest) =
      (s.print (.noListeners event id)).fireAll mode maxSteps rest := by
  obtain ⟨count, move, hr⟩ : ∃ count move, s.machine.fireById id event = (count, move) := ⟨_, _, rfl⟩
  rw [hr] at hc
  cases hc
  rw [Session.fireAll]
  simp only [hf, ht, hr, Bool.not_true, Bool.false_eq_true, ↓reduceIte]

theorem Session.fireAll_heard (hf : s.machine.finished = true) (ht : Session.target? text = some (id, event))
    (hc : (s.machine.fireById id event).1 ≠ 0) : s.fireAll mode maxSteps (text :: rest) =
      ((s.fired mode id event).driveTo mode maxSteps).fireAll mode maxSteps rest := by
  obtain ⟨count, move, hr⟩ : ∃ count move, s.machine.fireById id event = (count, move) := ⟨_, _, rfl⟩
  rw [hr] at hc
  obtain ⟨n, rfl⟩ := Nat.exists_eq_succ_of_ne_zero hc
  rw [Session.fireAll, Session.fired]
  simp only [hf, ht, hr, Bool.not_true, Bool.false_eq_true, ↓reduceIte]

namespace Phase

theorem next_unheard (ht : Session.target? text = some (id, event)) (hc : (s.machine.fireById id event).1 = 0) :
    (choosing s true (text :: rest)).next mode maxSteps = choosing (s.print (.noListeners event id)) true rest := by
  have hsame := Machine.fireById_none hc
  simp only [next, ht, fire, hc, hsame, Bool.not_true, Bool.false_eq_true, ↓reduceIte]

theorem next_heard (ht : Session.target? text = some (id, event)) (hc : (s.machine.fireById id event).1 ≠ 0) :
    (choosing s true (text :: rest)).next mode maxSteps = driving (s.fired mode id event) rest := by
  simp only [next, ht, fire, hc, Session.fired, Bool.not_true, Bool.false_eq_true, ↓reduceIte]

/-- **Runs end** as the events are fired in turn. -/
theorem choosing_ends (targets : List String) (s : Session) : ∃ n,
    later mode maxSteps n (choosing s s.machine.finished targets) =
      ended (s.fireAll mode maxSteps targets).1 (s.fireAll mode maxSteps targets).1.machine.finished
        (s.fireAll mode maxSteps targets).2 := by
  induction targets generalizing s with
  | nil => exact ⟨1, rfl⟩
  | cons text rest ih =>
    cases hf : s.machine.finished with
    | false => exact ⟨1, by simp [later, next, Session.fireAll, hf]⟩
    | true =>
      cases ht : Session.target? text with
      | none => exact ⟨1, by simp [later, next, Session.fireAll, ht, hf]⟩
      | some target =>
        obtain ⟨id, event⟩ := target
        by_cases hc : (s.machine.fireById id event).1 = 0
        · obtain ⟨n, hn⟩ := ih (s.print (.noListeners event id))
          refine ⟨n + 1, ?_⟩
          rw [later, next_unheard ht hc, Session.fireAll_unheard hf ht hc, ← hn]
          exact congrArg (fun b => later mode maxSteps n (choosing _ b rest)) hf.symm
        · obtain ⟨i, -, hi⟩ := driving_returns mode maxSteps (s.fired mode id event) rest
          obtain ⟨n, hn⟩ := ih ((s.fired mode id event).driveTo mode maxSteps)
          refine ⟨(i + 1) + n + 1, ?_⟩
          rw [later, next_heard ht hc, Session.fireAll_heard hf ht hc, later_add, hi, hn]

/-! ## What holds at all times -/

/-- The answer of the last drive. -/
def answer? : Phase → Option Bool
  | driving _ _ => none
  | choosing _ completed _ | ended _ completed _ => some completed

/-- The limit is kept, and the answer says whether the machine is finished. -/
structure Sound (maxSteps : Nat) (p : Phase) : Prop where
  steps : p.session.machine.steps ≤ maxSteps
  answer : ∀ b, p.answer? = some b → b = p.session.machine.finished

theorem Sound.next {p : Phase} (h : p.Sound maxSteps) : (p.next mode maxSteps).Sound maxSteps := by
  cases p with
  | driving s targets =>
    cases hf : s.machine.finished with
    | true =>
      rw [next_finished hf]
      exact ⟨h.steps, fun b hb => by cases hb; exact hf.symm⟩
    | false =>
      rcases Nat.lt_or_ge s.machine.steps maxSteps with hlt | hge
      · rw [next_advance hf hlt]
        refine ⟨?_, fun b hb => by cases hb⟩
        have hstep := s.machine.step_steps_le
        rw [session, Session.advance_machine]
        omega
      · rw [next_limit hf hge]
        exact ⟨h.steps, fun b hb => by cases hb; exact hf.symm⟩
  | choosing s completed targets =>
    have hanswer : completed = s.machine.finished := h.answer completed rfl
    have hended (failure : Option Failure) : (ended s completed failure).Sound maxSteps :=
      ⟨h.steps, fun b hb => by cases hb; exact hanswer⟩
    cases targets with
    | nil => exact hended none
    | cons text rest =>
      cases completed with
      | false => exact hended none
      | true =>
        cases ht : Session.target? text with
        | none =>
          have hnext : (choosing s true (text :: rest)).next mode maxSteps = ended s true (some (.badEvent text)) := by
            simp [Phase.next, ht]
          rw [hnext]
          exact hended _
        | some target =>
          by_cases hc : (s.machine.fireById target.1 target.2).1 = 0
          · rw [next_unheard ht hc]
            exact ⟨h.steps, fun b hb => by cases hb; exact hanswer⟩
          · rw [next_heard ht hc]
            refine ⟨?_, fun b hb => by cases hb⟩
            exact Nat.le_trans (Nat.le_of_eq (s.machine.fireById_steps target.1 target.2)) h.steps
  | ended s completed failure => exact h

theorem Sound.later {p : Phase} (h : p.Sound maxSteps) (mode : PrintMode) (k : Nat) :
    (later mode maxSteps k p).Sound maxSteps := by
  induction k generalizing p with
  | zero => exact h
  | succ k ih => exact ih h.next

end Phase

end Targets

/-! ## Runs of scripts -/

/-- What is known and printed when a run starts. -/
def Machine.opening (m : Machine) : Session := ⟨m, 0, (m.warnings.map Line.warning).reverse⟩

/-- What is reported when a run has ended. -/
def Session.report (mode : PrintMode) (maxSteps : Nat) (s : Session) : Option Failure → Report
  | some failure => ⟨s.lines.reverse, some failure⟩
  | none => ⟨s.lines.reverse ++ closing mode maxSteps s.machine, s.machine.error.map (.runtime s.machine.line)⟩

theorem Machine.present_eq (m : Machine) (mode : PrintMode) (maxSteps : Nat) (targets : List String) :
    m.present mode maxSteps targets =
      ((m.opening.driveTo mode maxSteps).fireAll mode maxSteps targets).1.report mode maxSteps
        ((m.opening.driveTo mode maxSteps).fireAll mode maxSteps targets).2 := by
  unfold present
  dsimp only
  rw [opening]
  split
  · rename_i hf
    rw [hf]
    rfl
  · rename_i hf
    rw [hf]
    rfl

/-- A run ends, and its report is made of the session that is left then. -/
theorem Machine.present_ended (m : Machine) (mode : PrintMode) (maxSteps : Nat) (targets : List String) :
    ∃ n s failure, Phase.later mode maxSteps n (.driving m.opening targets) = .ended s s.machine.finished failure ∧
      m.present mode maxSteps targets = s.report mode maxSteps failure := by
  obtain ⟨i, -, hi⟩ := Phase.driving_returns mode maxSteps m.opening targets
  obtain ⟨n, hn⟩ := Phase.choosing_ends targets (m.opening.driveTo mode maxSteps)
  exact ⟨(i + 1) + n, _, _, by rw [Phase.later_add, hi, hn], m.present_eq mode maxSteps targets⟩

/-- The machine of a run is loaded from its file. -/
theorem Command.load_of_machine {surroundings : Surroundings} {settings : Settings} {o : RunOptions} {m : Machine}
    (h : Command.machine surroundings settings o = .ok m) :
    ∃ source document, Machine.load source (some document) settings.scoping = .ok m := by
  unfold Command.machine at h
  split at h
  · cases h
  · rename_i source _
    cases hd : Command.document surroundings o with
    | error f => rw [hd] at h; cases h
    | ok document =>
      rw [hd] at h
      dsimp only [Bind.bind, Except.bind] at h
      refine ⟨source, document, ?_⟩
      cases hl : Machine.load source (some document) settings.scoping with
      | error e => rw [hl] at h; cases h
      | ok n => rw [hl] at h; cases h; rfl

/-- **The step limit.** For every script that can be loaded, every limit and all targets,

* the run ends. Its report is made of the session that is left then;
* at no moment of it are there more steps than the limit;
* whenever driving has returned, its answer is whether the machine is finished;
* driving returns every time. From its start on, and from any later point of it, it leaves the machine that stepping with
  the rest of the limit leaves, be it that turns are counted or steps. -/
theorem Machine.run_within_step_limit {surroundings : Surroundings} {settings : Settings} {o : RunOptions} {m : Machine}
    (h : Command.machine surroundings settings o = .ok m) (mode : PrintMode) (maxSteps : Nat) (targets : List String) :
    (∃ n s failure, Phase.later mode maxSteps n (.driving m.opening targets) = .ended s s.machine.finished failure ∧
      m.present mode maxSteps targets = s.report mode maxSteps failure) ∧
    (∀ k, (Phase.later mode maxSteps k (.driving m.opening targets)).session.machine.steps ≤ maxSteps) ∧
    (∀ k s completed rest, Phase.later mode maxSteps k (.driving m.opening targets) = .choosing s completed rest →
      (completed = true ↔ s.machine.finished = true)) ∧
    ∀ k s rest, Phase.later mode maxSteps k (.driving m.opening targets) = .driving s rest → ∃ n s',
      (∀ i ≤ n, ∃ between, Phase.later mode maxSteps (k + i) (.driving m.opening targets) = .driving between rest) ∧
      Phase.later mode maxSteps (k + (n + 1)) (.driving m.opening targets) = .choosing s' s'.machine.finished rest ∧
      (∀ (σ : Type) (observe : σ → Machine → σ) (acc : σ),
        s'.machine = (s.machine.runFor observe (maxSteps - s.machine.steps) acc).2) ∧
      RunsUntil (maxSteps - s.machine.steps) s.machine.steps s.machine s'.machine := by
  obtain ⟨source, document, hload⟩ := Command.load_of_machine h
  have hstart : m.opening.machine.steps ≤ maxSteps := by
    obtain ⟨program, -, -, rfl⟩ := load_ok hload
    exact Nat.zero_le _
  have hsound : (Phase.driving m.opening targets).Sound maxSteps := ⟨hstart, fun b hb => by cases hb⟩
  refine ⟨m.present_ended mode maxSteps targets, fun k => (hsound.later mode k).steps, fun k s completed rest hk => ?_,
    fun k s rest hk => ?_⟩
  · have hanswer := (hsound.later mode k).answer
    rw [hk] at hanswer
    rw [hanswer completed rfl]
    rfl
  · obtain ⟨n, hdriving, hn⟩ := Phase.driving_returns mode maxSteps s rest
    refine ⟨n, s.driveTo mode maxSteps, fun i hi => ?_, ?_, fun σ observe acc => Session.drive_machine observe _ acc s, ?_⟩
    · rw [Phase.later_add, hk]
      exact hdriving i hi
    · rw [Phase.later_add, hk]
      exact hn
    · rw [Session.driveTo, Session.drive_machine (fun (u : Unit) _ => u) _ () s]
      exact runFor_runsUntil _ _ () (Nat.le_refl _) (by omega)

/-- A directory with one script, which never ends. -/
def endlessDirectory : Surroundings := ⟨fun file => if file = "endless.js" then some "for (;;) 1;" else none, []⟩

/-- The run of that script, and a target that it never comes to. -/
def endlessOptions : RunOptions := ⟨"endless.js", none, ["b:click"], [], none, false, false⟩

/-- With a limit of five steps the run takes all of them, and the machine is not finished. -/
theorem Machine.run_within_step_limit_endlessDirectory : ∃ m,
    Command.machine endlessDirectory .default endlessOptions = .ok m ∧
    (m.opening.driveTo ⟨false, true⟩ 5).machine.steps = 5 ∧
    (m.opening.driveTo ⟨false, true⟩ 5).machine.finished = false ∧
    (∃ n s failure, Phase.later ⟨false, true⟩ 5 n (.driving m.opening ["b:click"]) = .ended s s.machine.finished failure ∧
      m.present ⟨false, true⟩ 5 ["b:click"] = s.report ⟨false, true⟩ 5 failure) ∧
    (∀ k, (Phase.later ⟨false, true⟩ 5 k (.driving m.opening ["b:click"])).session.machine.steps ≤ 5) ∧
    (∀ k s completed rest, Phase.later ⟨false, true⟩ 5 k (.driving m.opening ["b:click"]) = .choosing s completed rest →
      (completed = true ↔ s.machine.finished = true)) := by
  have hrun : (Command.machine endlessDirectory .default endlessOptions).toOption.any (fun m =>
      (m.opening.driveTo ⟨false, true⟩ 5).machine.steps == 5 &&
        ! (m.opening.driveTo ⟨false, true⟩ 5).machine.finished) = true := by decide +kernel
  cases h : Command.machine endlessDirectory .default endlessOptions with
  | error f => rw [h] at hrun; cases hrun
  | ok m =>
    rw [h] at hrun
    obtain ⟨hsteps, hfinished⟩ := Bool.and_eq_true_iff.1 hrun
    obtain ⟨hends, hlimit, hanswer, -⟩ := run_within_step_limit h ⟨false, true⟩ 5 ["b:click"]
    exact ⟨m, rfl, beq_iff_eq.1 hsteps, by simpa using hfinished, hends, hlimit, hanswer⟩

end Stepwise
