import Stepwise.Proofs.Machine.Commands
import Stepwise.Proofs.Machine.Moments

/-!
# One visible unit per step

The work that is left for a machine is a list of visible units (`Machine.pending`): those of the innermost call first,
then those of the calls below it, and those of the top level last. A block stands for its statements there, and an empty
statement for nothing.

**`Machine.step_runs_one_unit`**: without such units a step empties the stack and finishes the machine, unseen. Otherwise
it takes off the calls above the first unit, runs that unit in the frame that it belongs to, and nothing else. The loop
that does so ends in both cases, whether or not the script ever does.
-/

namespace Stepwise

/-! ## Visible units -/

mutual

/-- The visible units of a statement, first to last. -/
def Stmt.visible : Stmt → List Work
  | .block body _ => Stmt.listVisible body
  | .empty _ => []
  | s => [.stmt s]

def Stmt.listVisible : List Stmt → List Work
  | [] => []
  | s :: ss => s.visible ++ Stmt.listVisible ss

end

def Work.visible : Work → List Work
  | stmt s => s.visible
  | w => [w]

def visibleUnits (queue : List Work) : List Work := queue.flatMap Work.visible

theorem visibleUnits_append (queue queue' : List Work) :
    visibleUnits (queue ++ queue') = visibleUnits queue ++ visibleUnits queue' := List.flatMap_append

theorem visibleUnits_stmts (body : List Stmt) : visibleUnits (body.map Work.stmt) = Stmt.listVisible body := by
  induction body with
  | nil => rfl
  | cons s body ih =>
    rw [Stmt.listVisible, ← ih]
    rfl

mutual

theorem Stmt.visible_eq_nil : ∀ s : Stmt, s.firstUnit? = none → s.visible = []
  | .block body _, h => Stmt.listVisible_eq_nil body h
  | .empty _, _ => rfl

theorem Stmt.listVisible_eq_nil : ∀ body : List Stmt, Stmt.firstUnitOf? body = none → Stmt.listVisible body = []
  | [], _ => rfl
  | s :: ss, h => by
    rw [Stmt.firstUnitOf?] at h
    cases hs : s.firstUnit? with
    | some u => rw [hs] at h; cases h
    | none =>
      rw [hs] at h
      rw [Stmt.listVisible, s.visible_eq_nil hs, Stmt.listVisible_eq_nil ss h, List.append_nil]

end

mutual

theorem Stmt.visible_eq_cons {w : Work} {rest : List Work} : ∀ s : Stmt, s.firstUnit? = some (w, rest) →
    s.visible = w :: visibleUnits rest
  | .block body _, h => Stmt.listVisible_eq_cons body h
  | .declare .., h | .function _, h | .expr .., h | .ifElse .., h | .for .., h | .ret .., h | .unsupported .., h => by
    cases h
    rfl

theorem Stmt.listVisible_eq_cons {w : Work} {rest : List Work} : ∀ body : List Stmt,
    Stmt.firstUnitOf? body = some (w, rest) → Stmt.listVisible body = w :: visibleUnits rest
  | s :: ss, h => by
    rw [Stmt.firstUnitOf?] at h
    cases hs : s.firstUnit? with
    | some u =>
      rw [hs] at h
      cases h
      rw [Stmt.listVisible, s.visible_eq_cons hs, visibleUnits_append, visibleUnits_stmts]
      rfl
    | none =>
      rw [hs] at h
      rw [Stmt.listVisible, s.visible_eq_nil hs, Stmt.listVisible_eq_cons ss h]
      rfl

end

theorem takeUnit?_eq_none {queue : List Work} (h : takeUnit? queue = none) : visibleUnits queue = [] := by
  induction queue with
  | nil => rfl
  | cons w queue ih =>
    cases w with
    | stmt s =>
      rw [takeUnit?] at h
      cases hs : s.firstUnit? with
      | some u => rw [hs] at h; cases h
      | none =>
        rw [hs] at h
        show s.visible ++ visibleUnits queue = []
        rw [s.visible_eq_nil hs, ih h]
        rfl
    | _ => cases h

/-- Taking the next unit takes the first visible one. -/
theorem takeUnit?_eq_some {queue rest : List Work} {w : Work} (h : takeUnit? queue = some (w, rest)) :
    visibleUnits queue = w :: visibleUnits rest := by
  induction queue with
  | nil => cases h
  | cons v queue ih =>
    cases v with
    | stmt s =>
      rw [takeUnit?] at h
      cases hs : s.firstUnit? with
      | some u =>
        rw [hs] at h
        cases h
        show s.visible ++ visibleUnits queue = _
        rw [s.visible_eq_cons hs, visibleUnits_append]
        rfl
      | none =>
        rw [hs] at h
        show s.visible ++ visibleUnits queue = _
        rw [s.visible_eq_nil hs, ih h]
        rfl
    | _ => cases h; rfl

/-! ## The work that is left -/

/-- The visible units of calls, those of the innermost call first, each with the depth of its frame. -/
def pendingCalls : List Activation → List (Nat × Work)
  | [] => []
  | a :: calls => (visibleUnits a.queue).map (calls.length + 1, ·) ++ pendingCalls calls

theorem pendingCalls_done {done calls : List Activation} (h : ∀ a ∈ done, takeUnit? a.queue = none) :
    pendingCalls (done ++ calls) = pendingCalls calls := by
  induction done with
  | nil => rfl
  | cons a done ih =>
    obtain ⟨ha, hdone⟩ := List.forall_mem_cons.1 h
    rw [List.cons_append, pendingCalls, takeUnit?_eq_none ha, ih hdone]
    rfl

theorem nextReady_none_done {calls done : List Activation} (h : nextReady calls = (done, none)) :
    ∀ a ∈ done, takeUnit? a.queue = none := by
  induction calls generalizing done with
  | nil => cases h; simp
  | cons a calls ih =>
    rw [nextReady] at h
    cases ha : takeUnit? a.queue with
    | some u => rw [ha] at h; cases h
    | none =>
      rw [ha] at h
      obtain ⟨done', ready, hn⟩ : ∃ done' ready, nextReady calls = (done', ready) := ⟨_, _, rfl⟩
      rw [hn] at h
      cases h
      exact List.forall_mem_cons.2 ⟨ha, ih hn⟩

theorem pendingCalls_none {calls done : List Activation} (h : nextReady calls = (done, none)) :
    pendingCalls calls = [] := by
  have hd : pendingCalls (done ++ []) = [] := pendingCalls_done (nextReady_none_done h)
  rwa [List.append_nil, ← nextReady_none h] at hd

theorem Stack.frames_append (g : Frame) (new calls : List Activation) :
    (Stack.mk g (new ++ calls)).frames = (Stack.mk g calls).frames ++ new.reverse.map FrameView.ofActivation := by
  simp [frames]

/-- A frame in the middle of the stack, addressed by its depth. -/
theorem Stack.frameAt_middle (g : Frame) (done below : List Activation) (a : Activation) :
    Stack.frameAt ⟨g, done ++ a :: below⟩ (below.length + 1) = .ofActivation a := by
  simp [Stack.frameAt, Stack.frames]

/-- What is logged when calls are done. -/
def doneNotes (line : Option Nat) (done : List Activation) : List LogEntry :=
  done.filterMap fun a => a.handling.map fun note => ⟨.event, note.message, line⟩

namespace Machine

/-- The visible units that are left, each with the depth of its frame, next unit first. -/
def pending (m : Machine) : List (Nat × Work) :=
  pendingCalls m.stack.calls ++ (visibleUnits m.stack.global.queue).map (0, ·)

/-- Runs a unit in the innermost frame, where `queue` follows it. -/
def runTop (m : Machine) (unit : Work) (queue : List Work) : Machine :=
  match m.stack.calls with
  | [] => m.runGlobal unit queue
  | a :: calls => m.runCall ⟨unit, { a with queue }, calls⟩

/-- The machine without the calls `done`, whose hooks have run, so that `kept` is left of the stack. -/
def unwound (m : Machine) (done kept : List Activation) : Machine :=
  { m with
    stack := { m.stack with calls := kept }
    world := { m.world with logs := m.world.logs ++ doneNotes m.line done } }

theorem concludedAll_notes (done : List Activation) (m : Machine) :
    m.concludedAll done = { m with world := { m.world with logs := m.world.logs ++ doneNotes m.line done } } := by
  induction done generalizing m with
  | nil => simp [concludedAll, doneNotes]
  | cons a done ih =>
    rw [concludedAll_cons, ih]
    unfold concluded
    cases ha : a.handling with
    | none => simp [doneNotes, ha]
    | some note => simp [doneNotes, ha, log, World.log]

theorem dropped_eq_unwound (m : Machine) (done kept : List Activation) : m.dropped done kept = m.unwound done kept :=
  concludedAll_notes done _

theorem runTop_fixed (m : Machine) (unit : Work) (queue : List Work) : (m.runTop unit queue).fixed = m.fixed := by
  unfold runTop
  split
  · exact m.runGlobal_fixed unit queue
  · exact m.runCall_fixed _

/-! ## Steps -/

section Steps

variable {m : Machine}

theorem step_of_no_pending (hf : m.finished = false) (h : m.pending = []) :
    m.step = ⟨{ m.unwound m.stack.calls [] with
      stack := ⟨{ m.stack.global with queue := [] }, []⟩, finished := true }, false⟩ := by
  obtain ⟨hcalls, hglobal⟩ := List.append_eq_nil_iff.1 h
  rw [List.map_eq_nil_iff] at hglobal
  have hg : takeUnit? m.stack.global.queue = none := by
    cases ht : takeUnit? m.stack.global.queue with
    | none => rfl
    | some u => rw [takeUnit?_eq_some ht] at hglobal; cases hglobal
  obtain ⟨done, ready, hn⟩ : ∃ done ready, nextReady m.stack.calls = (done, ready) := ⟨_, _, rfl⟩
  cases ready with
  | none =>
    rw [step_idle hf hn hg, dropped_eq_unwound, nextReady_none hn]
    rfl
  | some r =>
    obtain ⟨hdone, queue, hc, ht⟩ := nextReady_some hn
    rw [hc, pendingCalls_done hdone, pendingCalls, takeUnit?_eq_some ht] at hcalls
    cases hcalls

/-- The first unit that is left runs in the frame that it belongs to, after the calls above that frame were taken off. -/
theorem step_of_pending (hf : m.finished = false) {depth : Nat} {unit : Work} {rest : List (Nat × Work)}
    (h : m.pending = (depth, unit) :: rest) : ∃ done kept queue,
      m.stack.calls = done ++ kept ∧ kept.length = depth ∧
      visibleUnits (m.stack.frameAt depth).queue = unit :: visibleUnits queue ∧
      m.step = ⟨((m.unwound done kept).announce unit).runTop unit queue, true⟩ := by
  obtain ⟨done, ready, hn⟩ : ∃ done ready, nextReady m.stack.calls = (done, ready) := ⟨_, _, rfl⟩
  cases ready with
  | some r =>
    obtain ⟨hdone, queue, hc, ht⟩ := nextReady_some hn
    obtain ⟨tail, hp⟩ : ∃ tail, m.pending = (r.below.length + 1, r.unit) :: tail := by
      rw [pending, hc, pendingCalls_done hdone, pendingCalls, takeUnit?_eq_some ht]
      exact ⟨_, rfl⟩
    rw [hp] at h
    cases h
    have hframe : m.stack.frameAt (r.below.length + 1) = .ofActivation { r.owner with queue } := by
      have hs : m.stack = ⟨m.stack.global, done ++ { r.owner with queue } :: r.below⟩ := by rw [← hc]
      rw [hs, Stack.frameAt_middle]
    refine ⟨done, { r.owner with queue } :: r.below, r.owner.queue, hc, rfl, ?_, ?_⟩
    · rw [hframe]
      exact takeUnit?_eq_some ht
    · -- The queue of the frame on the stack does not matter, since running the unit replaces it.
      rw [step_ready hf hn, dropped_eq_unwound]
      rfl
  | none =>
    rw [pending, pendingCalls_none hn, List.nil_append] at h
    cases ht : takeUnit? m.stack.global.queue with
    | none => rw [takeUnit?_eq_none ht] at h; cases h
    | some u =>
      obtain ⟨w, queue⟩ := u
      rw [takeUnit?_eq_some ht] at h
      cases h
      refine ⟨done, [], queue, (nextReady_none hn).trans (List.append_nil done).symm, rfl, takeUnit?_eq_some ht, ?_⟩
      rw [step_top hf hn ht, dropped_eq_unwound]
      rfl

/-- **One step is one visible unit.** The loop of a step always ends, and it answers that the run is done exactly when
the machine is finished then. If no visible unit is left, the step takes all calls off, with their hooks, finishes the
machine and changes nothing else, and no observer is shown the machine. Otherwise the step takes off the calls above the
frame of the first unit, with their hooks, runs that unit in its frame, counts it and tells of it, and an observer is
shown the machine. -/
theorem step_runs_one_unit (hf : m.finished = false) :
    (Stage.seeking m).Leads (.ended m.step (if m.step.machine.finished then .done else .more)) ∧
    (m.pending = [] → m.step = ⟨{ m with
      stack := ⟨{ m.stack.global with queue := [] }, []⟩
      world := { m.world with logs := m.world.logs ++ doneNotes m.line m.stack.calls }
      finished := true }, false⟩) ∧
    ∀ depth unit rest, m.pending = (depth, unit) :: rest →
      m.step.shown = true ∧ m.step.machine.steps = m.steps + 1 ∧ m.step.machine.line = some unit.span.line ∧
      m.step.machine.explanation = unit.sentence ∧
      ∃ done kept queue, m.stack.calls = done ++ kept ∧ kept.length = depth ∧
        visibleUnits (m.stack.frameAt depth).queue = unit :: visibleUnits queue ∧
        m.step.machine = ((m.unwound done kept).announce unit).runTop unit queue := by
  refine ⟨seeking_leads hf, fun h => step_of_no_pending hf h, fun depth unit rest h => ?_⟩
  obtain ⟨done, kept, queue, hc, hl, hq, hs⟩ := step_of_pending hf h
  have ht := congrArg Prod.snd (((m.unwound done kept).announce unit).runTop_fixed unit queue)
  rw [hs]
  exact ⟨rfl, congrArg (·.2.2) ht, congrArg (·.1) ht, congrArg (·.2.1) ht, done, kept, queue, hc, hl, hq, rfl⟩

/-- A call that has only a block and empty statements to do, before a loop that never ends. -/
def endlessScript : String := "function f() { ; {} }\nf();\nfor (;;) ;"

/-- Whether the next unit belongs to the top level, below a call. -/
def isBelowCall (m : Machine) : Bool := ! m.finished && m.stack.depth == 1 && m.pending.head?.any (·.1 == 0)

/-- After two steps the call of `f` is left on the stack, and the third step enters the loop. -/
theorem step_runs_one_unit_endlessScript : ∃ m unit rest, load endlessScript none .snapshot = .ok m ∧
    (m.performAll [.step, .step]).finished = false ∧ (m.performAll [.step, .step]).stack.depth = 1 ∧
    (m.performAll [.step, .step]).pending = (0, unit) :: rest ∧
    (Stage.seeking (m.performAll [.step, .step])).Leads (.ended (m.performAll [.step, .step]).step
      (if (m.performAll [.step, .step]).step.machine.finished then .done else .more)) ∧
    (m.performAll [.step, .step]).step.machine.steps = (m.performAll [.step, .step]).steps + 1 ∧
    (m.performAll [.step, .step]).step.machine.explanation = unit.sentence := by
  have hrun : (load endlessScript none .snapshot).toOption.any (fun m => (m.performAll [.step, .step]).isBelowCall) =
      true := by decide +kernel
  obtain ⟨m, h, ht⟩ := exists_loaded hrun
  generalize hn : m.performAll [.step, .step] = n at ht
  simp only [isBelowCall, Bool.and_eq_true, Bool.not_eq_eq_eq_not, Bool.not_true, beq_iff_eq] at ht
  obtain ⟨⟨hf, hd⟩, hp⟩ := ht
  cases hu : n.pending with
  | nil => rw [hu] at hp; cases hp
  | cons u rest =>
    rw [hu] at hp
    obtain ⟨depth, unit⟩ := u
    cases beq_iff_eq.1 hp
    obtain ⟨hl, -, hs⟩ := step_runs_one_unit hf
    obtain ⟨-, hsteps, -, hexp, -⟩ := hs 0 unit rest hu
    refine ⟨m, unit, rest, h, ?_⟩
    rw [hn]
    exact ⟨hf, hd, hu, hl, hsteps, hexp⟩

end Steps

end Machine

end Stepwise
