import Mathlib.Data.List.Induction
import Stepwise.Proofs.Machine.Listeners

/-!
# Unfinished machines

A machine has work if a unit waits in the queue of one of its frames (`Stack.HasWork`). Steps and events decide in
different ways whether the machine is finished. A step looks at the queues, so that an unfinished machine has work after
it (`step_hasWork`). An event looks at the number of listeners, and only a callback of the script leaves work behind
(`perform_adds`).

**`Machine.unfinished_hasWork`** says when the two disagree: an unfinished machine has no work exactly if it was finished
before, and since then there were only events whose listeners are all built-in. The next step then finishes it and does
nothing else. `Machine.unfinished_idle` is such a machine.
-/

namespace Stepwise

/-! ## Work -/

/-- A unit waits in the queue of some frame. -/
def Stack.HasWork (s : Stack) : Prop := ∃ f ∈ s.frames, f.queue ≠ []

theorem Stack.hasWork_iff (s : Stack) : s.HasWork ↔ s.global.queue ≠ [] ∨ ∃ a ∈ s.calls, a.queue ≠ [] := by
  constructor
  · rintro ⟨f, hf, hq⟩
    rcases List.mem_cons.1 hf with rfl | hf
    · exact .inl hq
    · obtain ⟨a, ha, rfl⟩ := List.mem_map.1 hf
      exact .inr ⟨a, List.mem_reverse.1 ha, hq⟩
  · rintro (hq | ⟨a, ha, hq⟩)
    · exact ⟨_, List.mem_cons_self, hq⟩
    · exact ⟨.ofActivation a, List.mem_cons_of_mem _ (List.mem_map_of_mem (List.mem_reverse.2 ha)), hq⟩

namespace Machine

variable {m : Machine}

/-! ## Steps -/

/-- Settling stops at a call with work, or finds out whether the top level has any. -/
theorem settle_hasWork (hf : m.settle.finished = false) : m.settle.stack.HasWork := by
  rw [settle_eq] at hf
  dsimp only at hf
  rw [settle_stack, Stack.hasWork_iff]
  dsimp only
  cases hc : m.stack.calls.dropWhile (·.queue.isEmpty) with
  | cons a calls =>
    have ha := List.head?_dropWhile_not (fun a : Activation => a.queue.isEmpty) m.stack.calls
    rw [hc] at ha
    exact .inr ⟨a, List.mem_cons_self, by simpa using ha⟩
  | nil =>
    refine .inl fun hq => ?_
    rw [hc, hq] at hf
    cases hf

theorem runCall_hasWork {r : Ready} (hf : (m.runCall r).finished = false) : (m.runCall r).stack.HasWork := by
  cases hu : r.unit.run (m.context (some r.owner.scope)) with
  | error e c =>
    rw [runCall_error hu] at hf
    cases hf
  | ok o c =>
    cases o with
    | next work =>
      rw [runCall_next hu] at hf ⊢
      exact settle_hasWork hf
    | leave v =>
      rw [runCall_leave hu] at hf ⊢
      exact settle_hasWork hf

theorem runGlobal_hasWork {unit : Work} {queue : List Work} (hf : (m.runGlobal unit queue).finished = false) :
    (m.runGlobal unit queue).stack.HasWork := by
  cases hu : unit.run (m.context none) with
  | error e c =>
    rw [runGlobal_error hu] at hf
    cases hf
  | ok o c =>
    cases o with
    | next work =>
      rw [runGlobal_next hu] at hf ⊢
      exact settle_hasWork hf
    | leave v =>
      rw [runGlobal_leave hu] at hf ⊢
      exact settle_hasWork hf

/-- **After a step** an unfinished machine has work. -/
theorem step_hasWork (hf : m.step.machine.finished = false) : m.step.machine.stack.HasWork := by
  cases hm : m.finished with
  | true =>
    rw [step_finished hm, hm] at hf
    cases hf
  | false =>
    obtain ⟨done, ready, hn⟩ : ∃ done ready, nextReady m.stack.calls = (done, ready) := ⟨_, _, rfl⟩
    cases ready with
    | some r =>
      rw [step_ready hm hn] at hf ⊢
      exact runCall_hasWork hf
    | none =>
      cases hq : takeUnit? m.stack.global.queue with
      | some u =>
        rw [step_top hm hn hq] at hf ⊢
        exact runGlobal_hasWork hf
      | none =>
        rw [step_idle hm hn hq] at hf
        cases hf

/-- Without work, a step finishes the machine and does nothing else. -/
theorem step_of_not_hasWork (hf : m.finished = false) (hcalls : m.stack.calls = []) (hq : m.stack.global.queue = []) :
    m.step = ⟨{ m with finished := true }, false⟩ := by
  obtain ⟨program, warnings, scoping, ⟨⟨scope, queue⟩, calls⟩, world, finished, error, line, explanation, steps⟩ := m
  cases hf
  cases hcalls
  cases hq
  rfl

/-! ## Events -/

/-- The listeners that a command calls. -/
def called (m : Machine) : Command → List Listener
  | .step => []
  | .fire node event => m.listenersFor node event
  | .fireById id event => ((m.world.document.bind (·.byId? id)).map (m.listenersFor ·.node event)).getD []

/-- `n` has to do what `m` has to do, and calls above that unless the listeners are all built-in. -/
def Adds (m : Machine) (ls : List Listener) (n : Machine) : Prop :=
  ∃ calls, n.stack.calls = calls ++ m.stack.calls ∧ n.stack.global.queue = m.stack.global.queue ∧
    (∀ a ∈ calls, a.queue ≠ []) ∧ (calls = [] ↔ ∀ l ∈ ls, l.isBuiltin = true)

theorem adds_nil (m : Machine) : m.Adds [] m := ⟨[], by simp⟩

theorem callAll_adds {event : String} {ls : List Listener} (hf : (m.callAll event ls).finished = false) :
    m.Adds ls (m.callAll event ls) := by
  cases hr : callListeners event ls.reverse (m.context none) with
  | error e d =>
    rw [callAll_error hr] at hf
    cases hf
  | ok _ d =>
    obtain ⟨hall, k, hk, rfl⟩ := (callListeners_reverse (c := m.context none) rfl rfl d).1 hr
    refine ⟨scriptCalls (m.context none) event ls, ?_, ?_, fun a ha => ?_, ?_⟩
    · rw [callAll_ok hr]
      rfl
    · rw [callAll_ok hr]
      rfl
    · simpa using scriptCalls_queue a ha
    · unfold scriptCalls
      rw [List.filterMap_eq_nil_iff]
      constructor
      · intro hnone l hl
        cases hb : l.isBuiltin with
        | true => rfl
        | false =>
          have hmem : l ∈ ls.filter (! ·.isBuiltin) := List.mem_filter.2 ⟨hl, by simp [hb]⟩
          have hsome := hall l hmem
          rw [hnone l hmem] at hsome
          cases hsome
      · intro hbuiltin l hl
        obtain ⟨hmem, hb⟩ := List.mem_filter.1 hl
        rw [hbuiltin l hmem] at hb
        cases hb

theorem fire_adds (h : m.Consistent) {node : Nat} {event : String} (hf : (m.fire node event).2.machine.finished = false) :
    m.Adds (m.listenersFor node event) (m.fire node event).2.machine := by
  rw [fire_machine] at hf ⊢
  split at hf
  · rename_i hnone
    -- A machine with an error is finished, so there is no listener.
    rw [if_pos hnone]
    rw [(h.running hf).error] at hnone
    have hls : m.listenersFor node event = [] := by simpa using hnone
    rw [hls]
    exact m.adds_nil
  · rename_i hsome
    rw [if_neg hsome]
    obtain ⟨logs, hlogs⟩ := m.logFired_eq event (m.listenersFor node event)
    obtain ⟨calls, hcalls⟩ := callAll_adds hf
    rw [hlogs] at hcalls ⊢
    exact ⟨calls, hcalls⟩

/-- **After an event** there is the work that was there before, and that of the callbacks of the script. -/
theorem perform_adds (h : m.Consistent) {c : Command} (hc : c ≠ .step) (hf : (m.perform c).finished = false) :
    m.Adds (m.called c) (m.perform c) := by
  cases c with
  | step => exact absurd rfl hc
  | fire node event => exact fire_adds h hf
  | fireById id event =>
    change m.Adds (m.called (.fireById id event)) (m.fireById id event).2.machine
    replace hf : (m.fireById id event).2.machine.finished = false := hf
    rw [called]
    unfold fireById at hf ⊢
    cases hid : m.world.document.bind (·.byId? id) with
    | none => exact m.adds_nil
    | some handle =>
      rw [hid] at hf
      exact fire_adds h hf

/-! ## Runs -/

/-- The commands are events, and their listeners are all built-in. -/
def OnlyBuiltins (m : Machine) : List Command → Prop
  | [] => True
  | c :: commands => (c ≠ .step ∧ ∀ l ∈ m.called c, l.isBuiltin = true) ∧ (m.perform c).OnlyBuiltins commands

/-- At some point the machine was finished, and since then there were only events with built-in listeners. -/
def Idled (m : Machine) (commands : List Command) : Prop :=
  ∃ first events, commands = first ++ events ∧ (m.performAll first).finished = true ∧
    (m.performAll first).OnlyBuiltins events

theorem performAll_concat (m : Machine) (commands : List Command) (c : Command) :
    m.performAll (commands ++ [c]) = (m.performAll commands).perform c := List.foldl_append

theorem onlyBuiltins_concat {commands : List Command} {c : Command} :
    m.OnlyBuiltins (commands ++ [c]) ↔ m.OnlyBuiltins commands ∧
      c ≠ .step ∧ ∀ l ∈ (m.performAll commands).called c, l.isBuiltin = true := by
  induction commands generalizing m with
  | nil => simp [OnlyBuiltins, performAll]
  | cons d commands ih =>
    rw [List.cons_append, OnlyBuiltins, OnlyBuiltins, ih, ← and_assoc]
    rfl

theorem Idled.of_finished {commands : List Command} (hf : (m.performAll commands).finished = true) :
    m.Idled commands := ⟨commands, [], by simp, hf, trivial⟩

/-- The last command of a run that leaves the machine unfinished. -/
theorem idled_concat {commands : List Command} {c : Command} (hf : ((m.performAll commands).perform c).finished = false) :
    m.Idled (commands ++ [c]) ↔
      m.Idled commands ∧ c ≠ .step ∧ ∀ l ∈ (m.performAll commands).called c, l.isBuiltin = true := by
  constructor
  · rintro ⟨first, events, heq, hfirst, hevents⟩
    rcases List.eq_nil_or_concat events with rfl | ⟨events, d, rfl⟩
    · rw [List.append_nil] at heq
      rw [← heq, performAll_concat, hf] at hfirst
      cases hfirst
    · rw [List.concat_eq_append, ← List.append_assoc] at heq
      obtain ⟨rfl, hd⟩ := List.append_inj' heq rfl
      cases hd
      rw [List.concat_eq_append, onlyBuiltins_concat] at hevents
      refine ⟨⟨first, events, rfl, hfirst, hevents.1⟩, ?_⟩
      unfold performAll at hevents ⊢
      rw [List.foldl_append]
      exact hevents.2
  · rintro ⟨⟨first, events, rfl, hfirst, hevents⟩, hc⟩
    refine ⟨first, events ++ [c], by simp, hfirst, onlyBuiltins_concat.2 ⟨hevents, ?_⟩⟩
    unfold performAll at hc ⊢
    rw [List.foldl_append] at hc
    exact hc

/-- Until an error stops it, a machine that has idled has nothing to do, and any other has work. -/
theorem idled_or_hasWork (hstart : m.Running) (hwork : m.stack.HasWork) (commands : List Command)
    (he : (m.performAll commands).error = none) :
    (m.Idled commands → (m.performAll commands).stack.calls = [] ∧ (m.performAll commands).stack.global.queue = []) ∧
    (¬ m.Idled commands → (m.performAll commands).stack.HasWork) := by
  induction commands using List.reverseRecOn with
  | nil =>
    refine ⟨?_, fun _ => hwork⟩
    rintro ⟨first, events, heq, hfirst, -⟩
    rw [(List.append_eq_nil_iff.1 heq.symm).1] at hfirst
    cases hstart.finished.symm.trans hfirst
  | append_singleton commands c ih =>
    have hbefore := performAll_consistent commands hstart.consistent
    have hafter := performAll_consistent (commands ++ [c]) hstart.consistent
    cases hf : (m.performAll (commands ++ [c])).finished with
    | true => exact ⟨fun _ => hafter.no_work hf he, fun hnot => absurd (Idled.of_finished hf) hnot⟩
    | false =>
      rw [performAll_concat] at hf he ⊢
      rw [idled_concat hf]
      -- A machine with an error would have refused the last command.
      have hnone : (m.performAll commands).error = none := by
        cases hs : (m.performAll commands).error with
        | none => rfl
        | some e =>
          rw [(hbefore.refuses (by rw [hs]; rfl) c).unchanged, hs] at he
          cases he
      obtain ⟨hidle, hbusy⟩ := ih hnone
      by_cases hc : c = .step
      · subst hc
        exact ⟨fun hnot => absurd rfl hnot.2.1, fun _ => step_hasWork hf⟩
      · obtain ⟨calls, hcalls, hqueue, hwaiting, hbuiltin⟩ := perform_adds hbefore hc hf
        rw [Stack.hasWork_iff, hcalls, hqueue]
        constructor
        · rintro ⟨hidled, -, hall⟩
          rw [hbuiltin.2 hall, (hidle hidled).1]
          exact ⟨rfl, (hidle hidled).2⟩
        · intro hnot
          by_cases hidled : m.Idled commands
          · have hne : calls ≠ [] := fun hnil => hnot ⟨hidled, hc, hbuiltin.1 hnil⟩
            obtain ⟨a, ha⟩ := List.exists_mem_of_ne_nil calls hne
            exact .inr ⟨a, List.mem_append_left _ ha, hwaiting a ha⟩
          · have hsome := hbusy hidled
            rw [Stack.hasWork_iff] at hsome
            exact hsome.imp id fun ⟨a, ha, hq⟩ => ⟨a, List.mem_append_right _ ha, hq⟩

/-- **Unfinished machines have work**, except after events that only built-in functions handled. Whatever commands a
loaded machine got, if it is not finished then

* some frame has a unit in its queue, unless the machine was finished at some point and has since got only events whose
  listeners are all built-in;
* if there is no unit, the next step finishes the machine, changes nothing else and is seen by no observer. -/
theorem unfinished_hasWork {source : String} {document : Option Document} {scoping : Scoping}
    (h : load source document scoping = .ok m) (commands : List Command)
    (hf : (m.performAll commands).finished = false) :
    ((m.performAll commands).stack.HasWork ↔ ¬ m.Idled commands) ∧
    (¬ (m.performAll commands).stack.HasWork →
      (m.performAll commands).step = ⟨{ m.performAll commands with finished := true }, false⟩) := by
  obtain ⟨program, -, -, rfl⟩ := load_ok h
  have hstart : (ofProgram program program.findings scoping document).Running := ⟨rfl, rfl⟩
  have hwork : (ofProgram program program.findings scoping document).stack.HasWork :=
    (Stack.hasWork_iff _).2 (.inl (List.cons_ne_nil _ _))
  have hrun := performAll_consistent commands hstart.consistent
  obtain ⟨hidle, hbusy⟩ := idled_or_hasWork hstart hwork commands (hrun.running hf).error
  have hiff : ((ofProgram program program.findings scoping document).performAll commands).stack.HasWork ↔
      ¬ (ofProgram program program.findings scoping document).Idled commands := by
    refine ⟨fun hsome hidled => ?_, hbusy⟩
    rw [Stack.hasWork_iff, (hidle hidled).1, (hidle hidled).2] at hsome
    simp at hsome
  refine ⟨hiff, fun hnone => ?_⟩
  obtain ⟨hcalls, hqueue⟩ := hidle (not_not.1 fun hnot => hnone (hbusy hnot))
  exact step_of_not_hasWork hf hcalls hqueue

/-- A built-in listener of one event, and a function of the script that listens for another. -/
def twoEventsScript : String :=
  "let b = document.getElementById('b');\nb.addEventListener('click', console.log);\n" ++
    "b.addEventListener('keydown', function () \x7b \x7d);"

/-- All steps of the script and a click, which a built-in function handles. -/
def clickedRun : List Command := [.step, .step, .step, .fireById "b" "click"]

/-- The click leaves nothing to do, and a key after it does. -/
theorem unfinished_hasWork_twoEventsScript : ∃ m, load twoEventsScript (some buttonPage) .snapshot = .ok m ∧
    (m.performAll clickedRun).finished = false ∧ m.Idled clickedRun ∧ ¬ (m.performAll clickedRun).stack.HasWork ∧
    (m.performAll clickedRun).step = ⟨{ m.performAll clickedRun with finished := true }, false⟩ ∧
    (m.performAll (clickedRun ++ [.fireById "b" "keydown"])).finished = false ∧
    (m.performAll (clickedRun ++ [.fireById "b" "keydown"])).stack.HasWork := by
  have hrun : (load twoEventsScript (some buttonPage) .snapshot).toOption.any (fun m =>
      let n := m.performAll clickedRun
      let k := m.performAll (clickedRun ++ [.fireById "b" "keydown"])
      ! n.finished && n.stack.frames.all (·.queue.isEmpty) && ! k.finished &&
        k.stack.frames.any (! ·.queue.isEmpty)) = true := by decide +kernel
  obtain ⟨m, h, ht⟩ := exists_loaded hrun
  simp only [Bool.and_eq_true, Bool.not_eq_eq_eq_not, Bool.not_true, List.all_eq_true, List.any_eq_true,
    List.isEmpty_iff, List.isEmpty_eq_false_iff] at ht
  obtain ⟨⟨⟨hf, hnone⟩, hf'⟩, hsome⟩ := ht
  have hidle : ¬ (m.performAll clickedRun).stack.HasWork := fun ⟨f, hmem, hq⟩ => hq (hnone f hmem)
  obtain ⟨hiff, hstep⟩ := unfinished_hasWork h clickedRun hf
  exact ⟨m, h, hf, not_not.1 (mt hiff.2 hidle), hidle, hstep hidle, hf', hsome⟩

/-- A script that listens with a built-in function. -/
def loggingScript : String := "document.getElementById('b').addEventListener('click', console.log);"

/-- The script ran to its end, and a click starts the machine again although no frame has anything to do. -/
theorem unfinished_idle : ∃ m, load loggingScript (some buttonPage) .snapshot = .ok m ∧
    (m.performAll [.step]).finished = true ∧ (m.performAll [.step, .fireById "b" "click"]).finished = false ∧
    ∀ f ∈ (m.performAll [.step, .fireById "b" "click"]).stack.frames, f.queue = [] := by
  have hrun : (load loggingScript (some buttonPage) .snapshot).toOption.any (fun m =>
      let n := m.performAll [.step, .fireById "b" "click"]
      (m.performAll [.step]).finished && ! n.finished && n.stack.frames.all (·.queue.isEmpty)) = true := by
    decide +kernel
  obtain ⟨m, h, ht⟩ := exists_loaded hrun
  simp only [Bool.and_eq_true, Bool.not_eq_eq_eq_not, Bool.not_true, List.all_eq_true, List.isEmpty_iff] at ht
  exact ⟨m, h, ht.1.1, ht.1.2, ht.2⟩

end Machine

end Stepwise
