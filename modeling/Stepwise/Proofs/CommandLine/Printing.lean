import Mathlib.Data.List.Basic
import Stepwise.Proofs.CommandLine.Driving
import Stepwise.Proofs.Machine.Histories

/-!
# What a run prints

A session keeps the lines that were printed and the number of log entries that were dealt with. Between two turns of a run
everything that was logged has been printed (`Session.Flushed`), whatever the turn did: step, fire an event, or find no
listener.

* **`Arguments.log_lines_complete`**: the log lines of a run are the log of its last machine.

A line about a step is printed in every turn of driving, also in one that finds no unit left and only finishes the
machine. Such an idle turn prints the line of the last step again (`Turn.told`).

* **`Arguments.step_lines_tell_turns`**: the step lines of a run tell its turns of driving. They count the units that ran
  one by one exactly if no turn was idle.
-/

namespace Stepwise

/-! ## Commands -/

/-- What `run` prints, if the script can be loaded. -/
theorem Arguments.report_run {a : Arguments} {surroundings : Surroundings} {o : RunOptions} {settings : Settings}
    {m : Machine} (hc : a.command = .run o) (hs : a.source.load? surroundings = some settings)
    (hm : Command.machine surroundings settings o = .ok m) :
    a.report surroundings = m.present ⟨o.json, settings.showLogs⟩ settings.maxSteps o.fire := by
  unfold report
  rw [hc]
  dsimp only
  rw [hs]
  dsimp only
  rw [hm]

theorem Command.machine_start {surroundings : Surroundings} {settings : Settings} {o : RunOptions} {m : Machine}
    (h : Command.machine surroundings settings o = .ok m) : m.world.logs = [] ∧ m.told = (none, "", 0) := by
  obtain ⟨source, document, hload⟩ := Command.load_of_machine h
  obtain ⟨program, -, -, rfl⟩ := Machine.load_ok hload
  exact ⟨rfl, rfl⟩

/-! ## Log lines -/

/-- The entry that a line shows. -/
def Line.shown? : Line → Option LogEntry
  | log entry => some entry
  | _ => none

/-- What a line tells about a step: its line, what it did, and its number. -/
def Line.told? : Line → Option (Option Nat × String × Nat)
  | step number line explanation => some (line, explanation, number)
  | _ => none

/-- Log lines go to the output, and their text is that of the entry. -/
theorem Line.text_of_shown? {line : Line} {entry : LogEntry} (h : line.shown? = some entry) :
    line.toErrors = false ∧ line.text = "      " ++ entry.text ++ "\n" := by
  cases line <;> cases h
  exact ⟨rfl, rfl⟩

namespace Session

/-- The entries that were printed, first to last. -/
def entries (s : Session) : List LogEntry := s.lines.reverse.filterMap Line.shown?

theorem entries_print (s : Session) {line : Line} (h : line.shown? = none) : (s.print line).entries = s.entries := by
  simp [entries, print, h]

/-- Everything that was logged has been printed, once and in order. -/
structure Flushed (s : Session) : Prop where
  logged : s.logged = s.machine.world.logs.length
  printed : s.entries = s.machine.world.logs

/-- Printing the logs makes up for what has been logged since. -/
theorem printLogs_flushed {s : Session} (h : s.entries = s.machine.world.logs.take s.logged) :
    (s.printLogs ⟨false, true⟩).Flushed := by
  refine ⟨rfl, ?_⟩
  have hentries (logs : List LogEntry) : (logs.map Line.log).filterMap Line.shown? = logs := by
    rw [List.filterMap_map]
    exact List.filterMap_some
  have hfresh : (s.printLogs ⟨false, true⟩).entries = s.entries ++ s.machine.world.logs.drop s.logged := by
    simp only [entries, printLogs, Bool.not_true, Bool.or_self, Bool.false_eq_true, ↓reduceIte, List.reverse_append,
      List.reverse_reverse, List.filterMap_append, hentries]
  rw [hfresh, h, List.take_append_drop]
  rfl

namespace Flushed

variable {s : Session}

/-- A line that is no log line. -/
theorem print (h : s.Flushed) {line : Line} (hl : line.shown? = none) : (s.print line).Flushed :=
  ⟨h.logged, (s.entries_print hl).trans h.printed⟩

/-- The entries that were printed are the first ones of a machine that has logged more. -/
theorem entries_eq_take (h : s.Flushed) {logs : List LogEntry} (hp : s.machine.world.logs <+: logs) :
    s.entries = logs.take s.logged := by
  rw [h.printed, h.logged]
  exact List.prefix_iff_eq_take.1 hp

theorem advance (h : s.Flushed) : (s.advance ⟨false, true⟩).Flushed := by
  have hp : s.machine.world.logs <+: s.machine.step.machine.world.logs := s.machine.step_grows.retained.logs
  refine printLogs_flushed (s := Session.print { s with machine := s.machine.step.machine } _) ?_
  rw [entries_print _ rfl]
  exact h.entries_eq_take hp

theorem fired (h : s.Flushed) (id event : String) : (s.fired ⟨false, true⟩ id event).Flushed :=
  printLogs_flushed (h.entries_eq_take (s.machine.perform_grows (.fireById id event)).retained.logs)

end Flushed

end Session

/-! ## Turns -/

/-- What a turn of driving does: a unit runs, or there is none left. -/
inductive Turn where
  | ran (unit : Work)
  | idle

/-- The turn that comes next. -/
def Machine.turn (m : Machine) : Turn := m.pending.head?.elim .idle fun u => .ran u.2

namespace Phase

variable {mode : PrintMode} {maxSteps : Nat}

/-- The next turn of a run, if it is one of driving that takes a step. -/
def turn? (maxSteps : Nat) : Phase → Option Turn
  | driving s _ => if s.machine.finished || maxSteps ≤ s.machine.steps then none else some s.machine.turn
  | _ => none

/-- **What a turn can do.** It takes a step and prints it, or it prints no step at all. -/
theorem next_cases (mode : PrintMode) (maxSteps : Nat) (p : Phase) :
    (∃ s targets, p = driving s targets ∧ s.machine.finished = false ∧ p.turn? maxSteps = some s.machine.turn ∧
      p.next mode maxSteps = driving (s.advance mode) targets) ∨
    p.turn? maxSteps = none ∧ ((p.next mode maxSteps).session = p.session ∨
      (∃ event id, (p.next mode maxSteps).session = p.session.print (.noListeners event id)) ∨
      ∃ id event, (p.next mode maxSteps).session = p.session.fired mode id event) := by
  cases p with
  | driving s targets =>
    cases hf : s.machine.finished with
    | true => exact .inr ⟨by simp [turn?, hf], .inl (by rw [next_finished hf]; rfl)⟩
    | false =>
      rcases Nat.lt_or_ge s.machine.steps maxSteps with hlt | hge
      · exact .inl ⟨s, targets, rfl, hf, by simp [turn?, hf, hlt], next_advance hf hlt targets⟩
      · exact .inr ⟨by simp [turn?, hge], .inl (by rw [next_limit hf hge]; rfl)⟩
  | choosing s completed targets =>
    refine .inr ⟨rfl, ?_⟩
    cases targets with
    | nil => exact .inl rfl
    | cons text rest =>
      cases completed with
      | false => exact .inl rfl
      | true =>
        cases ht : Session.target? text with
        | none => exact .inl (by simp [next, ht, session])
        | some target =>
          by_cases hc : (s.machine.fireById target.1 target.2).1 = 0
          · exact .inr (.inl ⟨target.2, target.1, by rw [next_unheard ht hc]; rfl⟩)
          · exact .inr (.inr ⟨target.1, target.2, by rw [next_heard ht hc]; rfl⟩)
  | ended s completed failure => exact .inr ⟨rfl, .inl rfl⟩

end Phase

/-! ## The log of a run -/

namespace Phase

variable {maxSteps : Nat} {p : Phase}

theorem next_flushed (h : p.session.Flushed) : (p.next ⟨false, true⟩ maxSteps).session.Flushed := by
  rcases p.next_cases ⟨false, true⟩ maxSteps with
    ⟨s, targets, rfl, -, -, hnext⟩ | ⟨-, hnext | ⟨event, id, hnext⟩ | ⟨id, event, hnext⟩⟩
  · rw [hnext]
    exact Session.Flushed.advance h
  · rw [hnext]
    exact h
  · rw [hnext]
    exact h.print rfl
  · rw [hnext]
    exact h.fired id event

theorem later_flushed (h : p.session.Flushed) (n : Nat) : (later ⟨false, true⟩ maxSteps n p).session.Flushed := by
  induction n generalizing p with
  | zero => exact h
  | succ n ih => exact ih (next_flushed h)

end Phase

/-- The lines at the end of a run show neither entries nor steps. -/
theorem Session.mem_closing {showLogs : Bool} {maxSteps : Nat} {m : Machine} {line : Line}
    (h : line ∈ closing ⟨false, showLogs⟩ maxSteps m) : line.shown? = none ∧ line.told? = none := by
  simp only [closing, Bool.false_eq_true, ↓reduceIte, List.mem_append, List.mem_cons, List.mem_map] at h
  rcases h with ((rfl | ⟨_, -, rfl⟩) | ⟨_, -, rfl⟩) | h
  · exact ⟨rfl, rfl⟩
  · exact ⟨rfl, rfl⟩
  · exact ⟨rfl, rfl⟩
  · split at h
    · cases h
    · cases List.mem_singleton.1 h
      exact ⟨rfl, rfl⟩

/-- What a view of lines sees of a report, if it sees nothing of the lines at the end. -/
theorem Session.report_lines {β : Type} {view : Line → Option β} (s : Session) {mode : PrintMode} {maxSteps : Nat}
    (h : ∀ line ∈ closing mode maxSteps s.machine, view line = none) (failure : Option Failure) :
    (s.report mode maxSteps failure).lines.filterMap view = s.lines.reverse.filterMap view := by
  cases failure with
  | some f => rfl
  | none => rw [report, List.filterMap_append, List.filterMap_eq_nil_iff.2 h, List.append_nil]

theorem Machine.opening_flushed {m : Machine} (h : m.world.logs = []) : m.opening.Flushed := by
  refine ⟨?_, ?_⟩
  · rw [opening, h]
    rfl
  · simp [opening, Session.entries, Line.shown?, h]

/-- The texts of the lines that show entries. -/
theorem texts_of_entries (lines : List Line) : (lines.filter (·.shown?.isSome)).map Line.text =
    (lines.filterMap Line.shown?).map fun entry => "      " ++ entry.text ++ "\n" := by
  induction lines with
  | nil => rfl
  | cons line lines ih =>
    cases h : line.shown? with
    | none => rw [List.filter_cons_of_neg (by simp [h]), List.filterMap_cons_none h, ih]
    | some entry =>
      rw [List.filter_cons_of_pos (by simp [h]), List.filterMap_cons_some h, List.map_cons, List.map_cons, ih,
        (Line.text_of_shown? h).2]

/-- **Every log entry is printed once.** When logs are shown, the log lines that a run prints show the entries of the last
machine, in order, each with its text. This holds whatever ends the run, be it the end of the script, an error, an event
that fails or has no listeners, the step limit or a bad target; and at any moment of the run what was printed so far are
the entries so far. -/
theorem Arguments.log_lines_complete {a : Arguments} {surroundings : Surroundings} {o : RunOptions} {settings : Settings}
    {m : Machine} (hc : a.command = .run o) (hs : a.source.load? surroundings = some settings)
    (hm : Command.machine surroundings settings o = .ok m) (hjson : o.json = false) (hshow : settings.showLogs = true) :
    (∃ n s failure,
      Phase.later ⟨false, true⟩ settings.maxSteps n (.driving m.opening o.fire) = .ended s s.machine.finished failure ∧
      a.report surroundings = s.report ⟨false, true⟩ settings.maxSteps failure ∧
      (a.report surroundings).lines.filterMap Line.shown? = s.machine.world.logs ∧
      ((a.report surroundings).lines.filter (·.shown?.isSome)).map Line.text =
        s.machine.world.logs.map fun entry => "      " ++ entry.text ++ "\n") ∧
    ∀ k, (Phase.later ⟨false, true⟩ settings.maxSteps k (.driving m.opening o.fire)).session.entries =
      (Phase.later ⟨false, true⟩ settings.maxSteps k (.driving m.opening o.fire)).session.machine.world.logs := by
  have hstart : (Phase.driving m.opening o.fire).session.Flushed :=
    Machine.opening_flushed (Command.machine_start hm).1
  have hflushed (k : Nat) :
      (Phase.later ⟨false, true⟩ settings.maxSteps k (.driving m.opening o.fire)).session.Flushed :=
    Phase.later_flushed hstart k
  refine ⟨?_, fun k => (hflushed k).printed⟩
  obtain ⟨n, s, failure, hended, hreport⟩ := m.present_ended ⟨false, true⟩ settings.maxSteps o.fire
  have hlogs : s.entries = s.machine.world.logs := by
    have h := (hflushed n).printed
    rwa [hended] at h
  rw [report_run hc hs hm, hjson, hshow, texts_of_entries, hreport,
    s.report_lines (fun line hl => (Session.mem_closing hl).1)]
  exact ⟨n, s, failure, hended, rfl, hlogs, congrArg (List.map _) hlogs⟩

/-- A directory with a page of one element and a script that registers a listener which fails as soon as it is called. -/
def failingDirectory : Surroundings := ⟨fun file =>
  if file = "a.js" then some "let b = document.getElementById('b');\nb.addEventListener('click', b.addEventListener);"
  else if file = "d.json" then some "\x7b\"elements\": [\x7b\"id\": \"b\"\x7d]\x7d"
  else none, []⟩

/-- The run of that script, with an event that has no listeners before the one that fails, and another one after it. -/
def failingOptions : RunOptions := ⟨"a.js", some "d.json", ["b:input", "b:click", "b:click"], [], some 9, false, false⟩

/-- Three entries are logged, the last of them by the event that fails, and all are printed. -/
theorem Arguments.log_lines_complete_failingDirectory : ∃ settings m n s failure,
    (Arguments.source ⟨none, .run failingOptions⟩).load? failingDirectory = some settings ∧
    Command.machine failingDirectory settings failingOptions = .ok m ∧ settings.showLogs = true ∧
    Phase.later ⟨false, true⟩ settings.maxSteps n (.driving m.opening failingOptions.fire) =
      .ended s s.machine.finished failure ∧
    (Arguments.report ⟨none, .run failingOptions⟩ failingDirectory).failure.isSome = true ∧
    (Arguments.report ⟨none, .run failingOptions⟩ failingDirectory).lines.filterMap Line.shown? = s.machine.world.logs ∧
    s.machine.world.logs.length = 3 := by
  have hrun : ((Arguments.source ⟨none, .run failingOptions⟩).load? failingDirectory).any (fun settings =>
      settings.showLogs && (Command.machine failingDirectory settings failingOptions).toOption.isSome) = true := by
    decide +kernel
  have hreport : (Arguments.report ⟨none, .run failingOptions⟩ failingDirectory).failure.isSome = true ∧
      ((Arguments.report ⟨none, .run failingOptions⟩ failingDirectory).lines.filterMap Line.shown?).length = 3 := by
    decide +kernel
  obtain ⟨settings, hs, hrun⟩ := (Option.any_eq_true ..).1 hrun
  obtain ⟨hshow, hloaded⟩ := Bool.and_eq_true_iff.1 hrun
  cases hm : Command.machine failingDirectory settings failingOptions with
  | error f => rw [hm] at hloaded; cases hloaded
  | ok m =>
    obtain ⟨⟨n, s, failure, hended, -, hlogs, -⟩, -⟩ := log_lines_complete rfl hs hm rfl hshow
    refine ⟨settings, m, n, s, failure, hs, hm, hshow, hended, hreport.1, hlogs, ?_⟩
    rw [← hlogs]
    exact hreport.2

/-! ## Step lines -/

namespace Turn

/-- What is told about the last step after a turn. -/
def told (last : Option Nat × String × Nat) : Turn → Option Nat × String × Nat
  | ran unit => (some unit.span.line, unit.sentence, last.2.2 + 1)
  | idle => last

/-- What turns tell, one after the other. -/
def tellings (last : Option Nat × String × Nat) : List Turn → List (Option Nat × String × Nat)
  | [] => []
  | t :: turns => t.told last :: tellings (t.told last) turns

/-- The unit that ran. -/
def unit? : Turn → Option Work
  | ran unit => some unit
  | idle => none

theorem tellings_length (last : Option Nat × String × Nat) (turns : List Turn) :
    (tellings last turns).length = turns.length := by
  induction turns generalizing last with
  | nil => rfl
  | cons t turns ih => rw [tellings, List.length_cons, ih, List.length_cons]

/-- Units that run without an idle turn are counted one by one. -/
theorem tellings_ran (last : Option Nat × String × Nat) (units : List Work) : tellings last (units.map ran) =
    units.mapIdx fun i u => (some u.span.line, u.sentence, last.2.2 + i + 1) := by
  induction units generalizing last with
  | nil => rfl
  | cons u units ih =>
    rw [List.map_cons, tellings, ih, List.mapIdx_cons]
    simp only [told, Nat.add_zero]
    congr 1
    exact List.mapIdx_eq_mapIdx_iff.2 fun i hi => by simp only [Prod.mk.injEq, true_and]; omega

theorem map_ran_units {turns : List Turn} (h : ∀ t ∈ turns, t ≠ idle) : (turns.filterMap unit?).map ran = turns := by
  induction turns with
  | nil => rfl
  | cons t turns ih =>
    obtain ⟨ht, hturns⟩ := List.forall_mem_cons.1 h
    cases t with
    | ran u => rw [List.filterMap_cons_some (f := unit?) rfl, List.map_cons, ih hturns]
    | idle => exact absurd rfl ht

/-- The tellings count the units one by one exactly if no turn was idle. -/
theorem tellings_eq_iff (turns : List Turn) : tellings (none, "", 0) turns =
    ((turns.filterMap unit?).mapIdx fun i u => (some u.span.line, u.sentence, i + 1)) ↔ ∀ t ∈ turns, t ≠ idle := by
  constructor
  · rintro h t ht rfl
    have hlength := congrArg List.length h
    rw [tellings_length, List.length_mapIdx] at hlength
    have hlt : (turns.filterMap unit?).length < turns.length :=
      List.length_filterMap_lt_length_iff_exists.2 ⟨idle, ht, rfl⟩
    omega
  · intro h
    conv_lhs => rw [← map_ran_units h, tellings_ran]
    simp only [Nat.zero_add]

end Turn

namespace Machine

variable {m : Machine}

/-- A step tells of the unit that it runs. -/
theorem step_told (hf : m.finished = false) : m.step.machine.told = m.turn.told m.told := by
  unfold turn
  cases hp : m.pending with
  | nil =>
    rw [step_of_no_pending hf hp]
    rfl
  | cons u rest =>
    obtain ⟨depth, unit⟩ := u
    obtain ⟨done, kept, queue, -, -, -, hstep⟩ := step_of_pending hf hp
    rw [hstep]
    exact congrArg Prod.snd (((m.unwound done kept).announce unit).runTop_fixed unit queue)

/-- Events tell of no step. -/
theorem fireById_told (m : Machine) (id event : String) : (m.fireById id event).2.machine.told = m.told := by
  rcases m.fireById_eq id event with heq | ⟨node, heq⟩
  · rw [heq]
  · rw [heq, fire_machine]
    split
    · rfl
    · obtain ⟨logs, hlogs⟩ := m.logFired_eq event (m.listenersFor node event)
      rw [hlogs]
      unfold callAll
      split <;> rfl

end Machine

namespace Session

variable {s : Session}

/-- What the step lines say that were printed, first to last. -/
def tellings (s : Session) : List (Option Nat × String × Nat) := s.lines.reverse.filterMap Line.told?

theorem tellings_print (s : Session) (line : Line) : (s.print line).tellings = s.tellings ++ line.told?.toList := by
  cases h : line.told? <;> simp [tellings, print, h]

theorem tellings_printLogs (mode : PrintMode) (s : Session) : (s.printLogs mode).tellings = s.tellings := by
  have hnone (logs : List LogEntry) : (logs.map Line.log).filterMap Line.told? = [] :=
    List.filterMap_eq_nil_iff.2 (by simp [Line.told?])
  unfold tellings printLogs
  dsimp only
  split
  · rfl
  · rw [List.reverse_append, List.reverse_reverse, List.filterMap_append, hnone, List.append_nil]

theorem tellings_advance (showLogs : Bool) (s : Session) :
    (s.advance ⟨false, showLogs⟩).tellings = s.tellings ++ [s.machine.step.machine.told] :=
  (tellings_printLogs _ _).trans (tellings_print _ _)

end Session

namespace Phase

/-- The turns of driving among the first turns of a run. -/
def turns (mode : PrintMode) (maxSteps : Nat) : Nat → Phase → List Turn
  | 0, _ => []
  | n + 1, p => (p.turn? maxSteps).toList ++ turns mode maxSteps n (p.next mode maxSteps)

/-- One turn prints what it tells. -/
theorem next_tells (showLogs : Bool) (maxSteps : Nat) (p : Phase) :
    (p.next ⟨false, showLogs⟩ maxSteps).session.tellings =
      p.session.tellings ++ Turn.tellings p.session.machine.told (p.turn? maxSteps).toList ∧
    (p.next ⟨false, showLogs⟩ maxSteps).session.machine.told =
      (p.turn? maxSteps).elim p.session.machine.told (Turn.told p.session.machine.told) := by
  rcases p.next_cases ⟨false, showLogs⟩ maxSteps with
    ⟨s, targets, rfl, hf, hturn, hnext⟩ | ⟨hturn, hnext | ⟨event, id, hnext⟩ | ⟨id, event, hnext⟩⟩
  · rw [hnext, hturn]
    refine ⟨?_, ?_⟩
    · rw [session, Session.tellings_advance, Machine.step_told hf]
      rfl
    · rw [session, Session.advance_machine, Machine.step_told hf]
      rfl
  · rw [hnext, hturn]
    exact ⟨(List.append_nil _).symm, rfl⟩
  · rw [hnext, hturn]
    exact ⟨Session.tellings_print _ _, rfl⟩
  · rw [hnext, hturn]
    refine ⟨?_, p.session.machine.fireById_told id event⟩
    exact (Session.tellings_printLogs _ _).trans (List.append_nil _).symm

theorem next_steps (showLogs : Bool) (maxSteps : Nat) (p : Phase) :
    (p.next ⟨false, showLogs⟩ maxSteps).session.machine.steps =
      p.session.machine.steps + ((p.turn? maxSteps).toList.filterMap Turn.unit?).length := by
  have hsteps := congrArg (·.2.2) (p.next_tells showLogs maxSteps).2
  cases hturn : p.turn? maxSteps with
  | none =>
    rw [hturn] at hsteps
    exact hsteps
  | some t =>
    rw [hturn] at hsteps
    cases t with
    | ran unit => exact hsteps
    | idle => exact hsteps

/-- **Runs** print what their turns tell, and count the units that ran. -/
theorem later_tells (showLogs : Bool) (maxSteps n : Nat) (p : Phase) :
    (later ⟨false, showLogs⟩ maxSteps n p).session.tellings =
      p.session.tellings ++ Turn.tellings p.session.machine.told (turns ⟨false, showLogs⟩ maxSteps n p) ∧
    (later ⟨false, showLogs⟩ maxSteps n p).session.machine.steps =
      p.session.machine.steps + ((turns ⟨false, showLogs⟩ maxSteps n p).filterMap Turn.unit?).length := by
  induction n generalizing p with
  | zero => exact ⟨(List.append_nil _).symm, rfl⟩
  | succ n ih =>
    obtain ⟨htells, htold⟩ := p.next_tells showLogs maxSteps
    obtain ⟨ihtells, ihsteps⟩ := ih (p.next ⟨false, showLogs⟩ maxSteps)
    rw [later, turns, ihtells, ihsteps, htells, htold]
    refine ⟨?_, ?_⟩
    · cases p.turn? maxSteps <;> simp [Turn.tellings]
    · rw [next_steps, List.filterMap_append, List.length_append, Nat.add_assoc]

/-- An idle turn finds no unit, and it is the last one before driving returns. -/
theorem idle_turn {mode : PrintMode} {maxSteps : Nat} {p : Phase} (h : p.turn? maxSteps = some .idle) : ∃ s targets,
    p = driving s targets ∧ s.machine.finished = false ∧ s.machine.pending = [] ∧
    p.next mode maxSteps = driving (s.advance mode) targets ∧ (s.advance mode).machine.finished = true := by
  rcases p.next_cases mode maxSteps with ⟨s, targets, hp, hf, hturn, hnext⟩ | ⟨hturn, -⟩
  · have hidle : s.machine.turn = .idle := Option.some.inj (hturn.symm.trans h)
    have hpending : s.machine.pending = [] := by
      unfold Machine.turn at hidle
      cases hu : s.machine.pending with
      | nil => rfl
      | cons u rest => rw [hu] at hidle; cases hidle
    refine ⟨s, targets, hp, hf, hpending, hnext, ?_⟩
    rw [Session.advance_machine, Machine.step_of_no_pending hf hpending]
  · rw [hturn] at h
    cases h

end Phase

theorem Machine.opening_tellings (m : Machine) : m.opening.tellings = [] := by
  simp [opening, Session.tellings, Line.told?]

/-- **The step lines of a run.** They tell the turns of driving that the run consists of, up to its end.

* A turn that ran a unit tells the line and the sentence of that unit and counts it; an idle turn tells again what was
  told last, or `0` and no line before the first unit.
* The number of steps at the end is the number of units that ran.
* The lines carry the numbers from `1` up to that, the `i`-th with the line and the sentence of the `i`-th unit, exactly if
  no turn was idle.
* In an idle turn the machine is not finished, though no visible unit is left for it. The turn finishes it. -/
theorem Arguments.step_lines_tell_turns {a : Arguments} {surroundings : Surroundings} {o : RunOptions}
    {settings : Settings} {m : Machine} (hc : a.command = .run o) (hs : a.source.load? surroundings = some settings)
    (hm : Command.machine surroundings settings o = .ok m) (hjson : o.json = false) : ∃ n s failure turns,
    Phase.later ⟨false, settings.showLogs⟩ settings.maxSteps n (.driving m.opening o.fire) =
      .ended s s.machine.finished failure ∧
    a.report surroundings = s.report ⟨false, settings.showLogs⟩ settings.maxSteps failure ∧
    Phase.turns ⟨false, settings.showLogs⟩ settings.maxSteps n (.driving m.opening o.fire) = turns ∧
    (a.report surroundings).lines.filterMap Line.told? = Turn.tellings (none, "", 0) turns ∧
    s.machine.steps = (turns.filterMap Turn.unit?).length ∧
    ((a.report surroundings).lines.filterMap Line.told? =
      ((turns.filterMap Turn.unit?).mapIdx fun i u => (some u.span.line, u.sentence, i + 1)) ↔
        ∀ turn ∈ turns, turn ≠ .idle) ∧
    ∀ k, (Phase.later ⟨false, settings.showLogs⟩ settings.maxSteps k (.driving m.opening o.fire)).turn?
        settings.maxSteps = some .idle → ∃ s targets,
      Phase.later ⟨false, settings.showLogs⟩ settings.maxSteps k (.driving m.opening o.fire) = .driving s targets ∧
      s.machine.finished = false ∧ s.machine.pending = [] ∧
      Phase.later ⟨false, settings.showLogs⟩ settings.maxSteps (k + 1) (.driving m.opening o.fire) =
        .driving (s.advance ⟨false, settings.showLogs⟩) targets ∧
      (s.advance ⟨false, settings.showLogs⟩).machine.finished = true := by
  obtain ⟨n, s, failure, hended, hreport⟩ := m.present_ended ⟨false, settings.showLogs⟩ settings.maxSteps o.fire
  obtain ⟨htells, hsteps⟩ := Phase.later_tells settings.showLogs settings.maxSteps n (.driving m.opening o.fire)
  have hstart : m.told = (none, "", 0) := (Command.machine_start hm).2
  have hlines : (a.report surroundings).lines.filterMap Line.told? = Turn.tellings (none, "", 0)
      (Phase.turns ⟨false, settings.showLogs⟩ settings.maxSteps n (.driving m.opening o.fire)) := by
    rw [report_run hc hs hm, hjson, hreport, s.report_lines (fun line hl => (Session.mem_closing hl).2), ← hstart]
    rw [hended] at htells
    exact htells.trans (by rw [Phase.session, m.opening_tellings]; rfl)
  refine ⟨n, s, failure, _, hended, ?_, rfl, hlines, ?_, ?_, fun k hk => ?_⟩
  · rw [report_run hc hs hm, hjson, hreport]
  · rw [hended] at hsteps
    have hzero : m.opening.machine.steps = 0 := congrArg (·.2.2) hstart
    rw [Phase.session, Phase.session, hzero, Nat.zero_add] at hsteps
    exact hsteps
  · rw [hlines]
    exact Turn.tellings_eq_iff _
  · obtain ⟨s, targets, hp, hf, hpending, hnext, hfinished⟩ := Phase.idle_turn hk
    refine ⟨s, targets, hp, hf, hpending, ?_, hfinished⟩
    rw [Phase.later_add]
    exact hnext

/-- A directory with a script that ends with an empty statement. -/
def trailingDirectory : Surroundings := ⟨fun file => if file = "a.js" then some "let a = 1;;" else none, []⟩

def trailingOptions : RunOptions := ⟨"a.js", none, [], [], some 9, false, false⟩

/-- The run of that script has one unit and two turns. -/
theorem Arguments.step_lines_tell_turns_trailingDirectory : ∃ settings m n s failure turns,
    (Arguments.source ⟨none, .run trailingOptions⟩).load? trailingDirectory = some settings ∧
    Command.machine trailingDirectory settings trailingOptions = .ok m ∧
    Phase.later ⟨false, settings.showLogs⟩ settings.maxSteps n (.driving m.opening trailingOptions.fire) =
      .ended s s.machine.finished failure ∧
    Phase.turns ⟨false, settings.showLogs⟩ settings.maxSteps n (.driving m.opening trailingOptions.fire) = turns ∧
    (Arguments.report ⟨none, .run trailingOptions⟩ trailingDirectory).lines.filterMap Line.told? =
      Turn.tellings (none, "", 0) turns ∧
    turns.length = 2 ∧ s.machine.steps = (turns.filterMap Turn.unit?).length := by
  have hrun : ((Arguments.source ⟨none, .run trailingOptions⟩).load? trailingDirectory).any (fun settings =>
      (Command.machine trailingDirectory settings trailingOptions).toOption.isSome) = true := by decide +kernel
  have hlength : ((Arguments.report ⟨none, .run trailingOptions⟩ trailingDirectory).lines.filterMap Line.told?).length =
      2 := by decide +kernel
  obtain ⟨settings, hs, hloaded⟩ := (Option.any_eq_true ..).1 hrun
  cases hm : Command.machine trailingDirectory settings trailingOptions with
  | error f => rw [hm] at hloaded; cases hloaded
  | ok m =>
    obtain ⟨n, s, failure, turns, hended, -, hturns, hlines, hsteps, -⟩ := step_lines_tell_turns rfl hs hm rfl
    rw [hlines, Turn.tellings_length] at hlength
    exact ⟨settings, m, n, s, failure, turns, hs, hm, hended, hturns, hlines, hlength, hsteps⟩

/-- The step lines of that run carry the number `1` twice, so they do not count from `1` up to any number. -/
theorem Arguments.step_told_again :
    ((Arguments.report ⟨none, .run trailingOptions⟩ trailingDirectory).lines.filterMap Line.told?).map (·.2.2) = [1, 1] ∧
    ∀ n, ((Arguments.report ⟨none, .run trailingOptions⟩ trailingDirectory).lines.filterMap Line.told?).map (·.2.2) ≠
      List.range' 1 n := by
  have hnumbers : ((Arguments.report ⟨none, .run trailingOptions⟩ trailingDirectory).lines.filterMap Line.told?).map
      (·.2.2) = [1, 1] := by decide +kernel
  refine ⟨hnumbers, fun n hn => ?_⟩
  rw [hnumbers] at hn
  have hlength := congrArg List.length hn
  rw [List.length_range'] at hlength
  rw [← hlength] at hn
  exact absurd hn (by decide)

end Stepwise
