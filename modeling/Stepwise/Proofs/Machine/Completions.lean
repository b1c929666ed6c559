import Stepwise.Proofs.Machine.Failures
import Stepwise.Proofs.Machine.Pending

/-!
# Events that were handled

A call that handles an event is pushed when the event is fired, and when it leaves the stack an entry of the logs says so.
A call leaves in one of three ways (`Departure`), each of them a round of a step. `Stage.Accounted` says what a round does to
the events that calls handle and to the entries that report them, and `Machine.Fires` what an event does to them.

Along a run these add up: the events that were reported and those that calls on the stack still handle are the events that
were scheduled (`Machine.balance`).

**`Machine.completions_logged_once`** puts this together. In a machine that is finished without an error there are as many
reports as there were callbacks of the script.
-/

namespace Stepwise

open Eval

/-! ## The events that calls handle -/

namespace Stack

/-- The event that each call handles, innermost call first. -/
def handling (s : Stack) : List (Option EventNote) := s.calls.map (·.handling)

/-- The events that are being handled. -/
def notes (s : Stack) : List EventNote := s.handling.filterMap id

theorem modifyAt_handling (s : Stack) (depth : Nat) (f : Frame → Frame) : (s.modifyAt depth f).handling = s.handling := by
  unfold modifyAt
  split
  · rfl
  · refine List.ext_getElem? fun i => ?_
    simp only [handling, List.getElem?_map, List.getElem?_modify]
    cases s.calls[i]? with
    | none => rfl
    | some a =>
      simp only [Option.map_some]
      split <;> rfl

theorem frames_handling (s : Stack) : s.frames.map FrameView.handling = none :: s.handling.reverse := by
  simp [frames, handling, FrameView.ofActivation, Function.comp_def]

end Stack

/-- What marks no end of a call does not read as a report. -/
theorem World.LogsOn.quiet {w w' : World} (h : w.LogsOn w') :
    ∃ entries, (∀ x ∈ entries, x.isCompletion = false) ∧ w'.logs = w.logs ++ entries := by
  obtain ⟨entries, he, hm⟩ := h
  exact ⟨entries, fun x hx => (Bool.or_eq_false_iff.1 (hm x hx)).2, he⟩

namespace Machine

/-- Calls that an evaluation makes handle no event. -/
theorem Footprint.handling {depth : Nat} {tried : List Trial} {m n : Machine} (h : Footprint depth tried m n) :
    ∃ pushed, (∀ x ∈ pushed, x = none) ∧ n.stack.handling = pushed ++ m.stack.handling := by
  obtain ⟨kept, pushed, hframes, hkept, -, hpushed, -⟩ := h.frames
  have hold : kept.map FrameView.handling = none :: m.stack.handling.reverse := by
    have hmap := congrArg (List.map (·.2.2)) hkept
    rw [List.map_map, List.map_map] at hmap
    rw [← Stack.frames_handling]
    exact hmap
  have hnew : ∀ x ∈ pushed.map FrameView.handling, x = none := by
    have hmap := congrArg (List.map (·.2.2)) hpushed
    rw [List.map_map, List.map_map] at hmap
    rw [show pushed.map FrameView.handling = _ from hmap]
    intro x hx
    obtain ⟨fn, -, rfl⟩ := List.mem_map.1 hx
    rfl
  have hall := n.stack.frames_handling
  rw [hframes, List.map_append, hold, List.cons_append] at hall
  refine ⟨(pushed.map FrameView.handling).reverse, fun x hx => hnew x (List.mem_reverse.1 hx), ?_⟩
  rw [← List.reverse_reverse n.stack.handling, ← (List.cons.inj hall).2, List.reverse_append, List.reverse_reverse]

section Taken

variable {m t n : Machine} {w : Work} {r : Except RuntimeError Outcome}

theorem take?_handling (h : m.take? = some (w, t)) : t.stack.handling = m.stack.handling := by
  unfold take? at h
  split at h
  · cases h
  · cases h
    exact Stack.modifyAt_handling _ _ _

/-- What the evaluation of a unit leaves of the events, and what it logs. -/
theorem evaluate_taken (ht : m.take? = some (w, t)) (h : (t.announce w).evaluate t.stack.depth w.run = (r, n)) :
    (∃ pushed, (∀ x ∈ pushed, x = none) ∧ n.stack.handling = pushed ++ m.stack.handling) ∧ m.world.LogsOn n.world := by
  have hfoot := evaluate_footprint (m := t.announce w) w.run_tries (Nat.le_refl _)
  rw [show (t.announce w).stack.depth = t.stack.depth from rfl, h] at hfoot
  obtain ⟨pushed, hnone, hp⟩ := hfoot.handling
  replace hp : n.stack.handling = pushed ++ t.stack.handling := hp
  have hlogs : t.world.LogsOn n.world := hfoot.logs
  rw [take?_handling ht] at hp
  obtain ⟨stack, rfl⟩ := take?_eq ht
  exact ⟨⟨pushed, hnone, hp⟩, hlogs⟩

/-- A call without work has no unit to take. -/
theorem take?_none {a : Activation} {calls : List Activation} (hc : m.stack.calls = a :: calls) (hq : a.queue = []) :
    m.take? = none := by
  have hqueue : m.stack.current.queue = [] := by
    rw [Stack.current, hc]
    exact hq
  unfold take?
  rw [hqueue]

end Taken

end Machine

/-! ## Rounds -/

/-- How a call leaves the stack. -/
inductive Departure where
  /-- It has no work when the next unit is looked for. -/
  | exhausted
  /-- It is left with a value. -/
  | returned
  /-- It has no work after a unit. -/
  | settled
deriving DecidableEq

namespace Stage

open Machine

/-- The call that leaves the stack in the next round. -/
def departure? : Stage → Option (Departure × Activation)
  | seeking m =>
    match m.stack.calls with
    | [] => none
    | a :: _ =>
      match m.take? with
      | none => some (.exhausted, a)
      | some (w, t) =>
        if w.transparent then none
        else
          match (t.announce w).evaluate t.stack.depth w.run with
          | (.ok (.leave _), _) => some (.returned, a)
          | _ => none
  | settling m =>
    match m.stack.calls with
    | [] => none
    | a :: _ => if a.queue.isEmpty then some (.settled, a) else none
  | ended _ _ => none

/-- The calls that leave the stack in the next round, which is one at most. -/
def leaving (s : Stage) : List Activation := (s.departure?.map Prod.snd).toList

/-- What the next round does to the events that calls handle, and what it reports of them. -/
structure Accounted (s : Stage) : Prop where
  /-- Only the innermost call can leave. -/
  innermost : s.leaving <+: s.machine.stack.calls
  /-- New calls handle no event. -/
  handling : ∃ pushed, (∀ x ∈ pushed, x = none) ∧
    s.next.machine.stack.handling = pushed ++ s.machine.stack.handling.drop s.leaving.length
  /-- The event of the call that leaves is reported, after all else that is logged, and nothing else is. -/
  logs : ∃ entries, (∀ x ∈ entries, x.isCompletion = false) ∧
    s.next.machine.world.logs = s.machine.world.logs ++ entries ++ doneNotes s.next.machine.line s.leaving

section Accounted

variable {s : Stage} {m : Machine} {a : Activation} {calls : List Activation}

/-- A round in which no call leaves. -/
theorem accounted_quiet (hp : s.departure? = none)
    (hh : ∃ pushed, (∀ x ∈ pushed, x = none) ∧ s.next.machine.stack.handling = pushed ++ s.machine.stack.handling)
    (hl : ∃ entries, (∀ x ∈ entries, x.isCompletion = false) ∧
      s.next.machine.world.logs = s.machine.world.logs ++ entries) : s.Accounted := by
  have hleaving : s.leaving = [] := by
    rw [leaving, hp]
    rfl
  obtain ⟨entries, he, hlogs⟩ := hl
  refine ⟨by rw [hleaving]; exact List.nil_prefix, by rw [hleaving]; exact hh, entries, he, ?_⟩
  rw [hleaving, hlogs]
  exact (List.append_nil _).symm

/-- A round in which the innermost call leaves. -/
theorem accounted_departure {p : Departure} (hp : s.departure? = some (p, a)) (hc : s.machine.stack.calls = a :: calls)
    (hh : ∃ pushed, (∀ x ∈ pushed, x = none) ∧ s.next.machine.stack.handling = pushed ++ calls.map (·.handling))
    (hl : ∃ entries, (∀ x ∈ entries, x.isCompletion = false) ∧
      s.next.machine.world.logs = s.machine.world.logs ++ entries ++ doneNotes s.next.machine.line [a]) :
    s.Accounted := by
  have hleaving : s.leaving = [a] := by
    rw [leaving, hp]
    rfl
  refine ⟨⟨calls, by rw [hleaving, hc]; rfl⟩, ?_, by rw [hleaving]; exact hl⟩
  have hold : s.machine.stack.handling = a.handling :: calls.map (·.handling) := by rw [Stack.handling, hc, List.map_cons]
  rw [hleaving, hold]
  exact hh

/-- A call without work is taken off. -/
theorem accounted_dropped {p : Departure} (hp : s.departure? = some (p, a)) (hc : s.machine.stack.calls = a :: calls)
    (hn : s.next.machine = s.machine.dropped [a] calls) : s.Accounted := by
  rw [dropped_eq_unwound] at hn
  refine accounted_departure hp hc ⟨[], by simp, ?_⟩ ⟨[], by simp, ?_⟩
  · rw [hn]
    rfl
  · rw [hn, List.append_nil]
    rfl

/-- A unit leaves its call. -/
theorem accounted_returned {t n : Machine} {w : Work} {v : Value} {pushed below : List Activation} {owner : Activation}
    (ht : m.take? = some (w, t)) (hw : w.transparent = false)
    (hr : (t.announce w).evaluate t.stack.depth w.run = (.ok (.leave v), n))
    (hc : n.stack.calls = pushed ++ owner :: below) (hd : below.length + 1 = t.stack.depth)
    (hn : (seeking m).next =
      settling (((n.withCalls (pushed ++ below)).logReturn owner.name v).concluded owner)) : (seeking m).Accounted := by
  obtain ⟨⟨new, hnew, hh⟩, hl⟩ := evaluate_taken ht hr
  obtain ⟨entries, he, hlogs⟩ := hl.quiet
  -- The calls below the new ones are those of `m`, and `owner` is the innermost of these.
  have hlen : m.stack.handling.length = below.length + 1 := by
    rw [hd, ← take?_handling ht]
    exact List.length_map _
  rw [Stack.handling, hc, List.map_append, List.map_cons] at hh
  obtain ⟨hpushed, hbelow⟩ := List.append_inj' hh (by rw [hlen]; simp)
  cases hcalls : m.stack.calls with
  | nil =>
    rw [Stack.handling, hcalls] at hbelow
    cases hbelow
  | cons a calls =>
    rw [Stack.handling, hcalls, List.map_cons] at hbelow
    obtain ⟨howner, hrest⟩ := List.cons.inj hbelow
    have hp : (seeking m).departure? = some (.returned, a) := by simp [departure?, hcalls, ht, hw, hr]
    have hnotes (line : Option Nat) : doneNotes line [owner] = doneNotes line [a] := by
      rw [doneNotes, doneNotes, List.filterMap_cons, List.filterMap_cons, howner]
    refine accounted_departure hp hcalls ⟨new, hnew, ?_⟩ ?_
    · rw [hn, ← hpushed, ← hrest, ← List.map_append]
      exact congrArg Stack.handling (concluded_stack _ owner)
    · have hmachine := concludedAll_notes [owner] ((n.withCalls (pushed ++ below)).logReturn owner.name v)
      refine ⟨entries ++ [⟨.ret, s!"{owner.name} returned {v.shown}", n.line⟩], ?_, ?_⟩
      · exact List.forall_mem_append.2 ⟨he, by simp [LogEntry.isCompletion]⟩
      · rw [hn]
        change (concludedAll _ [owner]).world.logs = _ ++ doneNotes (concludedAll _ [owner]).line [a]
        rw [hmachine, ← hnotes]
        change n.world.logs ++ [_] ++ _ = _
        rw [hlogs]
        simp only [List.append_assoc]
        rfl

/-- A unit runs and leaves no call. -/
theorem accounted_ran {t n : Machine} {w : Work} {r : Except RuntimeError Outcome} (ht : m.take? = some (w, t))
    (hr : (t.announce w).evaluate t.stack.depth w.run = (r, n)) (hp : (seeking m).departure? = none)
    (hh : (seeking m).next.machine.stack.handling = n.stack.handling) (more : List LogEntry)
    (hm : ∀ x ∈ more, x.isCompletion = false) (hl : (seeking m).next.machine.world.logs = n.world.logs ++ more) :
    (seeking m).Accounted := by
  obtain ⟨⟨new, hnew, hn⟩, hlogs⟩ := evaluate_taken ht hr
  obtain ⟨entries, he, hlogs⟩ := hlogs.quiet
  refine accounted_quiet hp ⟨new, hnew, hh.trans hn⟩ ⟨entries ++ more, List.forall_mem_append.2 ⟨he, hm⟩, ?_⟩
  rw [hl, hlogs, List.append_assoc]
  rfl

/-- Nothing that is accounted for changes. -/
theorem accounted_same (hp : s.departure? = none) (hh : s.next.machine.stack.handling = s.machine.stack.handling)
    (hl : s.next.machine.world.logs = s.machine.world.logs) : s.Accounted :=
  accounted_quiet hp ⟨[], by simp, hh⟩ ⟨[], by simp, by rw [hl, List.append_nil]⟩

/-- **Rounds** are accounted for. -/
theorem accounted (s : Stage) : s.Accounted := by
  have hround := s.next_round
  generalize hn : s.next = s' at hround
  cases hround with
  | @exhausted m a calls hc hq =>
    have hp : (seeking m).departure? = some (.exhausted, a) := by simp [departure?, hc, take?_none hc hq]
    exact accounted_dropped hp hc (by rw [hn]; rfl)
  | @settled m a calls hc hq =>
    have hp : (settling m).departure? = some (.settled, a) := by simp [departure?, hc, hq]
    exact accounted_dropped hp hc (by rw [hn]; rfl)
  | returned ht hw hr hc hd => exact accounted_returned ht hw hr hc hd hn
  | @left m t n w v ht hw hr hd =>
    have hcalls : m.stack.calls = [] := by
      have hlen := congrArg List.length (take?_handling ht)
      rw [Stack.handling, Stack.handling, List.length_map, List.length_map] at hlen
      exact List.eq_nil_of_length_eq_zero (hlen.symm.trans hd)
    have hp : (seeking m).departure? = none := by simp [departure?, hcalls]
    refine accounted_ran ht hr hp (by rw [hn]; rfl) [_] ?_ (by rw [hn]; rfl)
    simp [LogEntry.isCompletion]
  | @scheduled m t n w work ht hw hr =>
    have hp : (seeking m).departure? = none := by cases hc : m.stack.calls <;> simp [departure?, hc, ht, hw, hr]
    refine accounted_ran ht hr hp (by rw [hn]; exact Stack.modifyAt_handling _ _ _) [] (by simp) ?_
    rw [hn, List.append_nil]
    rfl
  | @failed m t n w e ht hw hr =>
    have hp : (seeking m).departure? = none := by cases hc : m.stack.calls <;> simp [departure?, hc, ht, hw, hr]
    refine accounted_ran ht hr hp (by rw [hn]; rfl) [] (by simp) ?_
    rw [hn, List.append_nil]
    rfl
  | @opened m t w ht hw =>
    have hp : (seeking m).departure? = none := by cases hc : m.stack.calls <;> simp [departure?, hc, ht, hw]
    refine accounted_same hp ?_ ?_
    · rw [hn]
      exact (Stack.modifyAt_handling _ _ _).trans (take?_handling ht)
    · obtain ⟨stack, rfl⟩ := take?_eq ht
      rw [hn]
      rfl
  | @idle m hc hq =>
    have hp : (seeking m).departure? = none := by simp [departure?, hc]
    exact accounted_same hp (by rw [hn]; rfl) (by rw [hn]; rfl)
  | @busy m a calls hc hq =>
    have hp : (settling m).departure? = none := by simp [departure?, hc, hq]
    exact accounted_same hp (by rw [hn]; rfl) (by rw [hn]; rfl)
  | @emptied m hc =>
    have hp : (settling m).departure? = none := by simp [departure?, hc]
    refine accounted_same hp ?_ ?_
    · rw [hn]
      split <;> rfl
    · rw [hn]
      split <;> rfl
  | ended move answer => exact accounted_same rfl (by rw [hn]) (by rw [hn])

end Accounted

end Stage

/-! ## Steps -/

/-- The entries that read as reports of events that were handled. -/
def reports (entries : List LogEntry) : List LogEntry := entries.filter LogEntry.isCompletion

theorem reports_append (xs ys : List LogEntry) : reports (xs ++ ys) = reports xs ++ reports ys := List.filter_append ..

theorem reports_eq_nil {entries : List LogEntry} (h : ∀ x ∈ entries, x.isCompletion = false) : reports entries = [] :=
  List.filter_eq_nil_iff.2 fun x hx => by simp [h x hx]

theorem reports_doneNotes (line : Option Nat) (done : List Activation) :
    reports (doneNotes line done) = doneNotes line done := by
  refine List.filter_eq_self.2 fun x hx => ?_
  obtain ⟨a, -, ha⟩ := List.mem_filterMap.1 hx
  obtain ⟨note, -, rfl⟩ := Option.map_eq_some_iff.1 ha
  exact LogEntry.isCompletion_note note line

theorem doneNotes_message (line : Option Nat) (done : List Activation) :
    (doneNotes line done).map (·.message) = ((done.map (·.handling)).filterMap id).map EventNote.message := by
  induction done with
  | nil => rfl
  | cons a done ih =>
    cases ha : a.handling with
    | none => simpa [doneNotes, ha] using ih
    | some note => simpa [doneNotes, ha] using ih

namespace Machine

/-- From `m` to `n` the logs grew, and the events that were reported are those that calls no longer handle. -/
def Reports (m n : Machine) : Prop :=
  ∃ entries, n.world.logs = m.world.logs ++ entries ∧
    (reports entries).map (·.message) ++ n.stack.notes.map EventNote.message = m.stack.notes.map EventNote.message

theorem Reports.refl (m : Machine) : m.Reports m := ⟨[], by simp, rfl⟩

theorem Reports.trans {m n k : Machine} (h : m.Reports n) (h' : n.Reports k) : m.Reports k := by
  obtain ⟨entries, hlogs, hnotes⟩ := h
  obtain ⟨more, hlogs', hnotes'⟩ := h'
  refine ⟨entries ++ more, by rw [hlogs', hlogs, List.append_assoc], ?_⟩
  rw [reports_append, List.map_append, List.append_assoc, hnotes', hnotes]

end Machine

namespace Stage

open Machine

theorem Accounted.reports {s : Stage} (h : s.Accounted) : s.machine.Reports s.next.machine := by
  obtain ⟨calls, hcalls⟩ := h.innermost
  obtain ⟨pushed, hnone, hh⟩ := h.handling
  obtain ⟨entries, he, hl⟩ := h.logs
  refine ⟨_, by rw [hl, List.append_assoc], ?_⟩
  rw [reports_append, reports_eq_nil he, List.nil_append, reports_doneNotes, doneNotes_message]
  have hpushed : pushed.filterMap id = [] := List.filterMap_eq_nil_iff.2 hnone
  have hold : s.machine.stack.handling = s.leaving.map (·.handling) ++ calls.map (·.handling) := by
    rw [Stack.handling, ← hcalls, List.map_append]
  rw [Stack.notes, Stack.notes, hh, List.filterMap_append, hpushed, List.nil_append, hold,
    List.drop_left' (List.length_map _), List.filterMap_append, List.map_append]

theorem later_reports (n : Nat) (s : Stage) : s.machine.Reports (later n s).machine := by
  induction n generalizing s with
  | zero => exact .refl _
  | succ n ih => exact s.accounted.reports.trans (ih s.next)

end Stage

namespace Machine

/-- **A step** reports the events whose calls leave the stack. -/
theorem step_reports (m : Machine) : m.Reports m.step.machine := by
  obtain ⟨n, hn⟩ := m.stage_leads
  have h := Stage.later_reports n m.stage
  rw [hn, stage_machine] at h
  exact h

end Machine

/-! ## Events -/

namespace Listener

/-- The callback is a function of the script. -/
def isScript (l : Listener) : Bool :=
  match l.callback with
  | .func _ => true
  | _ => false

/-- What is reported when the callback is done. -/
def note (l : Listener) : EventNote := ⟨l.event, l.target.text⟩

/-- What is logged when the event is fired. -/
def announcement (line : Option Nat) (l : Listener) : LogEntry :=
  ⟨.event, s!"{l.event} event fired on {l.target.text}", line⟩

end Listener

/-- The events of the callbacks of the script, in the order of the listeners. -/
def scriptNotes (ls : List Listener) : List EventNote := (ls.filter (·.isScript)).map Listener.note

/-- A callback of the script becomes a call, and a built-in one makes none. -/
theorem callValue_handling {l : Listener} {c d : Context} {v : Value}
    (h : callValue l.callback [] (some l.note) "listener" c = .ok v d) :
    (∃ calls, d.pushed = calls ++ c.pushed ∧ calls.reverse.map (·.handling) = (scriptNotes [l]).map some) ∧
      c.world.LogsOn d.world := by
  cases hc : l.callback with
  | func fn =>
    rw [hc] at h
    cases h
    have hs : scriptNotes [l] = [l.note] := by simp [scriptNotes, Listener.isScript, hc]
    exact ⟨⟨[_], rfl, by rw [hs]; rfl⟩, .of_eq rfl⟩
  | builtin fn receiver =>
    rw [hc] at h
    have hs : scriptNotes [l] = [] := by simp [scriptNotes, Listener.isScript, hc]
    have hcalm := callBuiltin_follows fn receiver [] c
    rw [show callBuiltin fn receiver [] c = .ok v d from h] at hcalm
    obtain ⟨calls, hp, hn⟩ := hcalm.pushed
    have hnil : calls = [] := by simpa using hn
    exact ⟨⟨[], by rw [hnil] at hp; exact hp, by rw [hs]; rfl⟩, hcalm.logs⟩
  | _ =>
    rw [hc] at h
    cases h

/-- Calling listeners makes a call for each callback of the script, the first one below the others. -/
theorem callListeners_handling {event : String} : ∀ (ls : List Listener) {c d : Context}, (∀ l ∈ ls, l.event = event) →
    callListeners event ls c = .ok () d →
      (∃ calls, d.pushed = calls ++ c.pushed ∧ calls.reverse.map (·.handling) = (scriptNotes ls).map some) ∧
        c.world.LogsOn d.world
  | [], c, d, _, h => by
    cases h
    exact ⟨⟨[], rfl, rfl⟩, .of_eq rfl⟩
  | l :: ls, c, d, hls, h => by
    obtain ⟨rfl, hls⟩ := List.forall_mem_cons.1 hls
    replace h : (callValue l.callback [] (some l.note) "listener" >>= fun _ => callListeners l.event ls) c = .ok () d := h
    cases hr : callValue l.callback [] (some l.note) "listener" c with
    | error e c' =>
      rw [bind_error hr] at h
      cases h
    | ok v c' =>
      rw [bind_ok hr] at h
      obtain ⟨⟨calls, hp, hh⟩, hlogs⟩ := callValue_handling hr
      obtain ⟨⟨more, hp', hh'⟩, hlogs'⟩ := callListeners_handling ls hls h
      refine ⟨⟨more ++ calls, by rw [hp', hp, List.append_assoc], ?_⟩, hlogs.trans hlogs'⟩
      have hsplit : scriptNotes (l :: ls) = scriptNotes [l] ++ scriptNotes ls := by
        rw [scriptNotes, scriptNotes, scriptNotes, ← List.map_append, ← List.filter_append]
        rfl
      rw [List.reverse_append, List.map_append, hh, hh', hsplit, List.map_append]

namespace Machine

section Events

variable {m : Machine}

/-- The events that a command gives callbacks of the script to handle. -/
def scheduledBy (m : Machine) (c : Command) : List EventNote := scriptNotes (m.called c)

/-- The entries that announce an event to its listeners. -/
def announcedBy (m : Machine) (c : Command) : List LogEntry := (m.called c).map (Listener.announcement m.line)

/-- The command is an event without an error. Calls for the callbacks of the script are put on the stack, that of the first
listener at the top, and nothing that is logged, apart from the announcements, reads as a report. -/
structure Fires (m : Machine) (c : Command) : Prop where
  handling : (m.perform c).stack.handling = (m.scheduledBy c).map some ++ m.stack.handling
  logs : ∃ entries, (∀ x ∈ entries, x.isCompletion = false) ∧
    (m.perform c).world.logs = m.world.logs ++ m.announcedBy c ++ entries

theorem logFired_logs {event : String} (ls : List Listener) (m : Machine) (hls : ∀ l ∈ ls, l.event = event) :
    m.logFired event ls =
      { m with world := { m.world with logs := m.world.logs ++ ls.map (Listener.announcement m.line) } } := by
  induction ls generalizing m with
  | nil => simp [logFired]
  | cons l ls ih =>
    obtain ⟨rfl, hls⟩ := List.forall_mem_cons.1 hls
    have hfirst := ih (m.log .event s!"{l.event} event fired on {l.target.text}") hls
    rw [logFired, List.foldl_cons]
    refine hfirst.trans ?_
    simp only [log, World.log, List.append_assoc]
    rfl

theorem callAll_fires {event : String} {ls : List Listener} (hls : ∀ l ∈ ls, l.event = event)
    (he : (m.callAll event ls).error = none) :
    (m.callAll event ls).stack.handling = (scriptNotes ls).map some ++ m.stack.handling ∧
      m.world.LogsOn (m.callAll event ls).world := by
  cases hr : callListeners event ls.reverse (m.context none) with
  | error e c =>
    rw [callAll_error hr] at he
    cases he
  | ok _ c =>
    obtain ⟨⟨calls, hp, hh⟩, hlogs⟩ := callListeners_handling ls.reverse (fun l hl => hls l (List.mem_reverse.1 hl)) hr
    rw [show (m.context none).pushed = [] from rfl, List.append_nil] at hp
    have hcalls : calls.map (·.handling) = (scriptNotes ls).map some := by
      rw [scriptNotes, List.filter_reverse, List.map_reverse, List.map_reverse, List.map_reverse] at hh
      exact List.reverse_inj.1 hh
    rw [callAll_ok hr]
    refine ⟨?_, hlogs⟩
    rw [← hcalls, ← hp]
    exact List.map_append

theorem fire_fires {node : Nat} {event : String} (he : (m.fire node event).2.machine.error = none) :
    (m.fire node event).2.machine.stack.handling = (scriptNotes (m.listenersFor node event)).map some ++ m.stack.handling ∧
      ∃ entries, (∀ x ∈ entries, x.isCompletion = false) ∧ (m.fire node event).2.machine.world.logs =
        m.world.logs ++ (m.listenersFor node event).map (Listener.announcement m.line) ++ entries := by
  have hls : ∀ l ∈ m.listenersFor node event, l.event = event := by
    intro l hl
    have hboth := (List.mem_filter.1 hl).2
    rw [Bool.and_eq_true] at hboth
    exact beq_iff_eq.1 hboth.2
  rw [fire_machine] at he ⊢
  split at he
  · rename_i hnone
    rw [if_pos hnone]
    rw [he] at hnone
    have hnil : m.listenersFor node event = [] := by simpa using hnone
    rw [hnil]
    exact ⟨rfl, [], by simp, by simp⟩
  · rename_i hsome
    rw [if_neg hsome]
    rw [logFired_logs _ m hls] at he ⊢
    obtain ⟨hh, hlogs⟩ := callAll_fires hls he
    exact ⟨hh, hlogs.quiet⟩

/-- **Events** put calls on the stack. -/
theorem perform_fires {c : Command} (hc : c ≠ .step) (he : (m.perform c).error = none) : m.Fires c := by
  cases c with
  | step => exact absurd rfl hc
  | fire node event =>
    obtain ⟨hh, hl⟩ := fire_fires he
    exact ⟨hh, hl⟩
  | fireById id event =>
    cases hid : m.world.document.bind (·.byId? id) with
    | none =>
      have hperform : m.perform (.fireById id event) = m := by
        rw [perform, fireById, hid]
      have hcalled : m.called (.fireById id event) = [] := by
        rw [called, hid]
        rfl
      refine ⟨?_, [], by simp, ?_⟩
      · rw [hperform, scheduledBy, hcalled]
        rfl
      · rw [hperform, announcedBy, hcalled]
        simp
    | some handle =>
      have hperform : m.perform (.fireById id event) = (m.fire handle.node event).2.machine := by
        rw [perform, fireById, hid]
      have hcalled : m.called (.fireById id event) = m.listenersFor handle.node event := by
        rw [called, hid]
        rfl
      rw [hperform] at he
      obtain ⟨hh, hl⟩ := fire_fires he
      refine ⟨?_, ?_⟩
      · rw [hperform, scheduledBy, hcalled]
        exact hh
      · rw [hperform, announcedBy, hcalled]
        exact hl

end Events

/-! ## Runs -/

/-- The entries that a command adds to the logs to report events that were handled. Only steps do that. -/
def reportsBy (m : Machine) : Command → List LogEntry
  | .step => reports (m.step.machine.world.logs.drop m.world.logs.length)
  | _ => []

/-- What the commands of a run give, in turn. -/
def alongRun {α : Type} (give : Machine → Command → List α) : List Command → Machine → List α
  | [], _ => []
  | c :: commands, m => give m c ++ alongRun give commands (m.perform c)

section Runs

variable {m : Machine}

/-- What a command reports, and what calls handle after it, are what it schedules and what calls handled before. -/
theorem perform_balance {c : Command} (he : (m.perform c).error = none) :
    (m.reportsBy c).map (·.message) ++ (m.perform c).stack.notes.map EventNote.message =
        (m.scheduledBy c).map EventNote.message ++ m.stack.notes.map EventNote.message ∧
      reports (m.perform c).world.logs = reports m.world.logs ++ (m.reportsBy c ++ reports (m.announcedBy c)) := by
  by_cases hc : c = .step
  · subst hc
    obtain ⟨entries, hlogs, hnotes⟩ := m.step_reports
    have hby : m.reportsBy .step = reports entries := by rw [reportsBy, hlogs, List.drop_left]
    rw [hby]
    refine ⟨hnotes, ?_⟩
    rw [perform, hlogs, reports_append]
    exact congrArg _ (List.append_nil _).symm
  · have hfires := perform_fires hc he
    obtain ⟨entries, hquiet, hlogs⟩ := hfires.logs
    have hby : m.reportsBy c = [] := by
      cases c with
      | step => exact absurd rfl hc
      | fire | fireById => rfl
    have hnotes : (m.perform c).stack.notes = m.scheduledBy c ++ m.stack.notes := by
      rw [Stack.notes, hfires.handling, List.filterMap_append, List.filterMap_map]
      exact congrArg (· ++ m.stack.notes) List.filterMap_some
    rw [hby, hnotes, hlogs, reports_append, reports_append, reports_eq_nil hquiet, List.append_nil, List.map_append]
    exact ⟨rfl, rfl⟩

/-- Errors stay. -/
theorem error_of_performAll (h : m.Consistent) {commands : List Command} (he : (m.performAll commands).error = none) :
    m.error = none := by
  cases hm : m.error with
  | none => rfl
  | some e =>
    rw [performAll_of_refuses fun c => h.refuses (by rw [hm]; rfl) c, hm] at he
    cases he

/-- **Balance** of a run without an error. -/
theorem balance {commands : List Command} (h : m.Consistent) (he : (m.performAll commands).error = none) :
    ((alongRun reportsBy commands m).map (·.message) ++ (m.performAll commands).stack.notes.map EventNote.message).Perm
        ((alongRun scheduledBy commands m).map EventNote.message ++ m.stack.notes.map EventNote.message) ∧
      (reports (m.performAll commands).world.logs).Perm
        (reports m.world.logs ++ (alongRun reportsBy commands m ++ reports (alongRun announcedBy commands m))) := by
  induction commands generalizing m with
  | nil => exact ⟨.refl _, by rw [alongRun, alongRun]; simp [performAll, reports]⟩
  | cons c commands ih =>
    have hnext := perform_consistent h c
    obtain ⟨hnotes, hlogs⟩ := perform_balance (error_of_performAll hnext he)
    obtain ⟨hrest, hmore⟩ := ih hnext he
    refine ⟨?_, ?_⟩
    · rw [alongRun, alongRun, List.map_append, List.map_append, List.append_assoc, List.append_assoc]
      refine (hrest.append_left _).trans (List.perm_append_comm_assoc ..|>.trans ?_)
      rw [hnotes]
      exact List.perm_append_comm_assoc ..
    · rw [alongRun, alongRun, reports_append]
      refine hmore.trans ?_
      rw [hlogs]
      simp only [List.append_assoc]
      exact (List.perm_append_comm_assoc ..).append_left _ |>.append_left _

/-- **Events are reported once.** Whatever commands a loaded machine got, as long as there was no error,

* in every round of the next step only the innermost call can leave the stack, be it that it has no work left before or
  after a unit, or that it returns. If it handles an event, this is the moment at which the event is reported, with one
  entry. Nothing else is reported: not for a call that handles no event, and not for a call that stays;
* firing an event puts a call on the stack for each callback of the script, to handle the event, and reports nothing;
* what was reported so far, with what calls on the stack handle, is what was scheduled for callbacks of the script;
* once the machine is finished there are as many reports as there were such callbacks. These are all entries of the logs
  that read as reports, except for the announcements of events whose own name makes them read so. -/
theorem completions_logged_once {source : String} {document : Option Document} {scoping : Scoping}
    (h : load source document scoping = .ok m) (commands : List Command) (he : (m.performAll commands).error = none) :
    (∀ k, (Stage.later k (m.performAll commands).stage).Accounted) ∧
    (∀ c, c ≠ .step → ((m.performAll commands).perform c).error = none → (m.performAll commands).Fires c) ∧
    ((alongRun reportsBy commands m).map (·.message) ++
      (m.performAll commands).stack.notes.map EventNote.message).Perm
        ((alongRun scheduledBy commands m).map EventNote.message) ∧
    ((m.performAll commands).finished = true →
      (alongRun reportsBy commands m).length = (alongRun scheduledBy commands m).length ∧
      (reports (m.performAll commands).world.logs).length =
        (alongRun scheduledBy commands m).length + (reports (alongRun announcedBy commands m)).length) := by
  obtain ⟨program, -, -, rfl⟩ := load_ok h
  have hstart : (ofProgram program program.findings scoping document).Consistent := Running.consistent ⟨rfl, rfl⟩
  obtain ⟨hnotes, hlogs⟩ := balance hstart he
  replace hnotes := hnotes.trans (.of_eq (List.append_nil _))
  refine ⟨fun k => Stage.accounted _, fun c hc hn => perform_fires hc hn, hnotes, fun hf => ?_⟩
  -- A finished machine has no calls, so that nothing is left to be reported.
  have hcalls := ((performAll_consistent commands hstart).no_work hf he).1
  have hlen := hnotes.length_eq
  rw [Stack.notes, Stack.handling, hcalls] at hlen
  simp only [List.map_nil, List.filterMap_nil, List.append_nil, List.length_map] at hlen
  have hnone : reports (ofProgram program program.findings scoping document).world.logs = [] := rfl
  rw [← hlen, hlogs.length_eq, hnone, List.nil_append, List.length_append]
  exact ⟨rfl, rfl⟩

/-- A callback that returns, and one that makes a call, which is no callback then. -/
def twoListenersScript : String :=
  "function f() { return; }\nfunction g() { f(); }\nlet b = document.getElementById('b');\n" ++
    "b.addEventListener('click', f);\nb.addEventListener('click', g);"

/-- All steps of the script, a click, and another one after the callback `f`. -/
def twoClicksRun : List Command :=
  List.replicate 5 .step ++ [.fireById "b" "click", .step, .fireById "b" "click"] ++ List.replicate 5 .step

/-- There are two reports for `f`, which returns, and two for `g`, which has no work left when its call of `f` has returned.
That call reports nothing. -/
theorem completions_logged_once_twoListenersScript : ∃ m,
    load twoListenersScript (some buttonPage) .snapshot = .ok m ∧
    (m.performAll twoClicksRun).error = none ∧ (m.performAll twoClicksRun).finished = true ∧
    (∀ k, (Stage.later k (m.performAll twoClicksRun).stage).Accounted) ∧
    (∀ c, c ≠ .step → ((m.performAll twoClicksRun).perform c).error = none → (m.performAll twoClicksRun).Fires c) ∧
    (alongRun reportsBy twoClicksRun m).length = 4 ∧ (alongRun scheduledBy twoClicksRun m).length = 4 ∧
    (reports (m.performAll twoClicksRun).world.logs).length =
      4 + (reports (alongRun announcedBy twoClicksRun m)).length := by
  have hrun : (load twoListenersScript (some buttonPage) .snapshot).toOption.any (fun m =>
      (m.performAll twoClicksRun).error.isNone && (m.performAll twoClicksRun).finished &&
        (alongRun scheduledBy twoClicksRun m).length == 4) = true := by decide +kernel
  obtain ⟨m, h, ht⟩ := exists_loaded hrun
  simp only [Bool.and_eq_true, beq_iff_eq, Option.isNone_iff_eq_none] at ht
  obtain ⟨⟨he, hf⟩, hfour⟩ := ht
  obtain ⟨hrounds, hfires, -, hcount⟩ := completions_logged_once h twoClicksRun he
  obtain ⟨hsame, hlogs⟩ := hcount hf
  rw [hfour] at hsame hlogs
  exact ⟨m, h, he, hf, hrounds, hfires, hsame, hfour, hlogs⟩

end Runs

end Machine

end Stepwise
