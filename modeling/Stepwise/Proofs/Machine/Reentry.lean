import Stepwise.Proofs.Machine.Diagnostics
import Stepwise.Proofs.Machine.Scopes
import Stepwise.Proofs.Machine.Suspension

/-!
# Events in the middle of a run

In snapshot scoping a call starts with a copy of the global scope. Let `k` be the global scope when an event is fired.
The listeners and all calls that are made before they are done have a variable of their own for each name of `k`, so
none of them can assign to a name of `k` in the global scope. A name that `k` does not bind may be added
(`Machine.Sheltered`). The calls that the event interrupted are suspended, and these are not changed at all.

**`Machine.reentry_restores`**: when the last listener is done, the stack is what it was before the event, up to new
names in the global scope.
-/

namespace Stepwise

open Eval

/-! ## Scopes that cover other scopes -/

namespace Scope

variable {s k : Scope} {name : String}

/-- Each name of `k` is bound. -/
def Covers (s k : Scope) : Prop := ∀ name, k.has name = true → s.has name = true

/-- The scope is `k` up to names that `k` does not bind. -/
structure Extends (s k : Scope) : Prop where
  values : ∀ name, k.has name = true → s.get? name = k.get? name
  notes : s.notes = k.notes

/-- Only names that are bound have notes. -/
def NotesBound (s : Scope) : Prop := ∀ name, s.has name = false → s.note? name = none

theorem Covers.declare (h : s.Covers k) (name : String) (kind : BindingKind) (v : Value) :
    (s.declare name kind v).Covers k := fun other ho => by simp [h other ho]

theorem Covers.assign (h : s.Covers k) (name : String) (v : Value) : (s.assign name v).Covers k :=
  fun other ho => by simp [h other ho]

theorem Covers.bindParams (h : s.Covers k) (params : List String) (args : List Value) :
    (s.bindParams params args).Covers k := by
  induction params generalizing s args with
  | nil => exact h
  | cons p ps ih => exact ih (h.declare p .param _) args.tail

theorem Extends.refl (s : Scope) : s.Extends s := ⟨fun _ _ => rfl, rfl⟩

theorem Extends.covers (h : s.Extends k) : s.Covers k := fun name hn => by
  have hv : s.has name = k.has name := congrArg Option.isSome (h.values name hn)
  rwa [hv]

/-- A name that `k` does not bind may be assigned to. -/
theorem Extends.assign (h : s.Extends k) (hk : k.NotesBound) (hn : k.has name = false) (v : Value) :
    (s.assign name v).Extends k where
  values other ho := by
    have hne : other ≠ name := by
      rintro rfl
      rw [hn] at ho
      cases ho
    show (s.values.insert name v).get? other = _
    rw [NameMap.get?_insert, if_neg hne]
    exact h.values other ho
  notes := by
    have hnote : s.notes.get? name = none := by
      rw [h.notes]
      exact hk name hn
    unfold Scope.assign
    rw [hnote]
    exact h.notes

theorem NotesBound.declare (h : s.NotesBound) (name : String) (kind : BindingKind) (v : Value) :
    (s.declare name kind v).NotesBound := by
  intro other ho
  obtain ⟨hne, ho⟩ : other ≠ name ∧ s.has other = false := by simpa using ho
  show (s.notes.insert name _).get? other = none
  rw [NameMap.get?_insert, if_neg hne]
  exact h other ho

theorem NotesBound.assign (h : s.NotesBound) (name : String) (v : Value) : (s.assign name v).NotesBound := by
  intro other ho
  obtain ⟨hne, ho⟩ : other ≠ name ∧ s.has other = false := by simpa using ho
  unfold note? Scope.assign
  split
  · rw [NameMap.get?_insert, if_neg hne]
    exact h other ho
  · exact h other ho

end Scope

/-- No unit gives a note to a global name that is not bound. -/
theorem notesBound_closedScopes : ClosedScopes fun c => c.globals.NotesBound where
  world _ h := h
  assign {c _ _} h := by
    unfold Context.assign
    split
    · split
      · exact h
      · exact h.assign _ _
    · exact h.assign _ _
  declare {c _ _ _} h := by
    unfold Context.declare
    split
    · exact h
    · exact h.declare _ _ _
  push h := h

theorem notesBound_invariant : Machine.Invariant fun stack _ => stack.global.scope.NotesBound := by
  have hrun (w : Work) := w.run_keeps notesBound_closedScopes.closed 0 fun _ _ => trivial
  exact {
    dropped := fun h => h
    noted := fun _ _ h => h
    call_line := fun _ _ => trivial
    call_next := fun _ h _ hu => ((hrun _).of_ok h hu).1
    call_leave := fun _ h _ hu => ((hrun _).of_ok h hu).1
    call_error := fun _ h _ hu => (hrun _).of_error h hu
    top_line := fun _ _ => trivial
    top_next := fun _ h _ hu => ((hrun _).of_ok h hu).1
    top_leave := fun _ h _ hu => ((hrun _).of_ok h hu).1
    top_error := fun _ h _ hu => (hrun _).of_error h hu
    idle := fun h => h
    fired := fun {_ _ _ event listeners _ _ _} _ h _ hr => by
      have hk : Keeps (fun c => c.globals.NotesBound) (callListeners event listeners) fun _ => True :=
        callListeners_keeps_of_world (fun _ hc => hc) (fun hc => hc) event listeners
      rcases hr with hr | ⟨e, hr⟩
      · exact (hk.of_ok h hr).1
      · exact hk.of_error h hr }

/-! ## Calls that cannot reach the names of `k` -/

/-- Calls are made with copies of the global scope, and each of them has a variable for each name of `k`, which the global
scope holds unchanged. -/
structure Context.Sheltered (k : Scope) (c : Context) : Prop where
  scoping : c.scoping = .snapshot
  globals : c.globals.Extends k
  locals : ∀ s, c.locals = some s → s.Covers k
  pushed : ∀ a ∈ c.pushed, a.scope.Covers k

section Contexts

variable {k : Scope} {c : Context}

theorem Context.Sheltered.of_world (h : c.Sheltered k) (w : World) : Context.Sheltered k { c with world := w } :=
  ⟨h.scoping, h.globals, h.locals, h.pushed⟩

theorem Context.Sheltered.pushCall (h : c.Sheltered k) (fn : FunctionDef) (args : List Value)
    (handling : Option EventNote) : (c.pushCall fn args handling).Sheltered k := by
  have hs : (c.callScope fn args).Covers k := by
    unfold Context.callScope
    rw [h.scoping]
    exact h.globals.covers.bindParams fn.params args
  exact ⟨h.scoping, h.globals, h.locals, List.forall_mem_cons.2 ⟨hs, h.pushed⟩⟩

/-- What a unit of a call does. -/
theorem Context.sheltered_closedScopes (hk : k.NotesBound) :
    ClosedScopes fun c => c.Sheltered k ∧ c.locals.isSome = true where
  world w h := ⟨h.1.of_world w, h.2⟩
  push h := ⟨h.1.pushCall _ _ _, h.2⟩
  declare {c name kind v} h := by
    obtain ⟨h, hl⟩ := h
    obtain ⟨s, hs⟩ := Option.isSome_iff_exists.1 hl
    unfold Context.declare
    rw [hs]
    refine ⟨⟨h.scoping, h.globals, ?_, h.pushed⟩, rfl⟩
    rintro _ ⟨⟩
    exact (h.locals s hs).declare name kind v
  assign {c name v} h := by
    obtain ⟨h, hl⟩ := h
    obtain ⟨s, hs⟩ := Option.isSome_iff_exists.1 hl
    have hcovers := h.locals s hs
    cases hn : s.has name with
    | true =>
      rw [Context.assign_local hs hn]
      refine ⟨⟨h.scoping, h.globals, ?_, h.pushed⟩, rfl⟩
      rintro _ ⟨⟩
      exact hcovers.assign name v
    | false =>
      -- The call has no such variable, so the name is none of `k`.
      have hkn : k.has name = false := by
        rw [← Bool.not_eq_true] at hn ⊢
        exact fun hb => hn (hcovers name hb)
      rw [Context.assign_global (by rintro s' hs'; cases hs.symm.trans hs'; exact hn)]
      exact ⟨⟨h.scoping, h.globals.assign hk hkn v, h.locals, h.pushed⟩, hl⟩

end Contexts

/-- A stack is `k` up to names that the global scope of `k` does not bind. -/
structure Stack.Restores (s k : Stack) : Prop where
  calls : s.calls = k.calls
  queue : s.global.queue = k.global.queue
  scope : s.global.scope.Extends k.global.scope

namespace Machine

structure Sheltered (k : Scope) (m : Machine) : Prop where
  scoping : m.scoping = .snapshot
  globals : m.stack.global.scope.Extends k
  calls : ∀ a ∈ m.stack.calls, a.scope.Covers k

namespace Sheltered

variable {k : Scope} {m : Machine}

theorem context (h : m.Sheltered k) {locals : Option Scope} (hl : ∀ s, locals = some s → s.Covers k) :
    (m.context locals).Sheltered k := ⟨h.scoping, h.globals, hl, by simp [Machine.context]⟩

theorem adopt (h : m.Sheltered k) {c : Context} (hc : c.Sheltered k) {calls : List Activation}
    (hcalls : ∀ a ∈ calls, a.scope.Covers k) (queue : List Work) :
    (m.adopt c (c.pushed ++ calls) queue).Sheltered k :=
  ⟨h.scoping, hc.globals, List.forall_mem_append.2 ⟨hc.pushed, hcalls⟩⟩

theorem withCalls (h : m.Sheltered k) {calls : List Activation} (hcalls : ∀ a ∈ calls, a.scope.Covers k) :
    (m.withCalls calls).Sheltered k := ⟨h.scoping, h.globals, hcalls⟩

theorem concluded (h : m.Sheltered k) (a : Activation) : (m.concluded a).Sheltered k := by
  obtain ⟨logs, he⟩ := m.concluded_eq a
  rw [he]
  exact ⟨h.scoping, h.globals, h.calls⟩

theorem after {a : Activation} (ha : a.scope.Covers k) {c : Context} (hc : c.Sheltered k) (work : List Work) :
    (a.after c work).scope.Covers k := by
  show (c.locals.getD a.scope).Covers k
  cases hl : c.locals with
  | none => exact ha
  | some s => exact hc.locals s hl

/-- A unit of a call runs. -/
theorem enterCall (h : m.Sheltered k) (hk : k.NotesBound) {r : Ready} (ho : r.owner.scope.Covers k)
    (hb : ∀ a ∈ r.below, a.scope.Covers k) : (m.enterCall r).machine.Sheltered k := by
  have hkeeps := r.unit.run_keeps (Context.sheltered_closedScopes hk).closed 0 fun _ _ => trivial
  have hc : (m.context (some r.owner.scope)).Sheltered k ∧ (m.context (some r.owner.scope)).locals.isSome = true :=
    ⟨h.context (by rintro _ ⟨⟩; exact ho), rfl⟩
  unfold Machine.enterCall
  cases hu : r.unit.run (m.context (some r.owner.scope)) with
  | error e c =>
    have hc := (hkeeps.of_error hc hu).1
    have ha := h.adopt hc (List.forall_mem_cons.2 ⟨after ho hc [], hb⟩) m.stack.global.queue
    exact ⟨ha.scoping, ha.globals, ha.calls⟩
  | ok o c =>
    have hc := (hkeeps.of_ok hc hu).1.1
    cases o with
    | next work => exact h.adopt hc (List.forall_mem_cons.2 ⟨after ho hc work, hb⟩) _
    | leave v =>
      have ha := h.adopt hc hb m.stack.global.queue
      exact concluded (m := (m.adopt c (c.pushed ++ r.below) m.stack.global.queue).logReturn r.owner.name v)
        ⟨ha.scoping, ha.globals, ha.calls⟩ _

/-- **A round** keeps the shelter, as long as there are calls. -/
theorem next {s : Stage} (h : s.machine.Sheltered k) (hk : k.NotesBound) (hd : 0 < s.machine.stack.depth) :
    s.next.machine.Sheltered k := by
  cases s with
  | ended move answer => exact h
  | seeking m =>
    have h : m.Sheltered k := h
    obtain ⟨a, calls, hc⟩ : ∃ a calls, m.stack.calls = a :: calls := List.exists_cons_of_length_pos hd
    obtain ⟨ha, hcalls⟩ := List.forall_mem_cons.1 (hc ▸ h.calls)
    cases hq : a.queue with
    | nil =>
      rw [next_seeking_exhausted hc hq]
      exact (h.withCalls hcalls).concluded a
    | cons w queue =>
      rw [next_seeking_call hc hq]
      have hw (queue : List Work) : (m.withCalls ({ a with queue } :: calls)).Sheltered k :=
        h.withCalls (List.forall_mem_cons.2 ⟨ha, hcalls⟩)
      cases w.transparent with
      | true => exact hw _
      | false =>
        exact enterCall (m := (m.withCalls ({ a with queue } :: calls)).announce w)
          ⟨(hw queue).scoping, (hw queue).globals, (hw queue).calls⟩ hk ha hcalls
  | settling m =>
    have h : m.Sheltered k := h
    obtain ⟨a, calls, hc⟩ : ∃ a calls, m.stack.calls = a :: calls := List.exists_cons_of_length_pos hd
    obtain ⟨ha, hcalls⟩ := List.forall_mem_cons.1 (hc ▸ h.calls)
    rw [next_settling_call hc]
    cases a.queue.isEmpty with
    | true => exact (h.withCalls hcalls).concluded a
    | false => exact h

theorem moment (h : m.Sheltered k) (hk : k.NotesBound) {i : Nat}
    (hd : ∀ j < i, 0 < (m.moment .step j).stack.depth) : (m.moment .step i).Sheltered k := by
  induction i with
  | zero =>
    show m.stage.machine.Sheltered k
    unfold Machine.stage
    split <;> exact h
  | succ i ih =>
    have hi := ih fun j hj => hd j (Nat.lt_succ_of_lt hj)
    show (Stage.later (i + 1) m.stage).machine.Sheltered k
    rw [Stage.later_succ]
    exact next hi hk (hd i (Nat.lt_succ_self i))

theorem step (h : m.Sheltered k) (hk : k.NotesBound) (hd : ∀ i, 0 < (m.moment .step i).stack.depth) :
    m.step.machine.Sheltered k := by
  obtain ⟨n, hn⟩ := m.stage_leads
  have hm := h.moment (i := n) hk fun j _ => hd j
  rwa [Machine.moment, hn] at hm

theorem callAll (h : m.Sheltered k) (event : String) (listeners : List Listener) :
    (m.callAll event listeners).Sheltered k := by
  have hkeeps : Keeps (Context.Sheltered k) (callListeners event listeners.reverse) fun _ => True :=
    callListeners_keeps_of_world (fun w hc => hc.of_world w) (fun hc => hc.pushCall _ _ _) event _
  have hc : (m.context none).Sheltered k := h.context (by simp)
  cases hr : callListeners event listeners.reverse (m.context none) with
  | ok _ c =>
    have ha := h.adopt (hkeeps.of_ok hc hr).1 h.calls m.stack.global.queue
    rw [callAll_ok hr]
    exact ⟨ha.scoping, ha.globals, ha.calls⟩
  | error e c =>
    have ha := h.adopt (hkeeps.of_error hc hr) h.calls m.stack.global.queue
    rw [callAll_error hr]
    exact ⟨ha.scoping, ha.globals, ha.calls⟩

/-- **Events** only make further calls. -/
theorem fire (h : m.Sheltered k) (node : Nat) (event : String) : (m.fire node event).2.machine.Sheltered k := by
  rw [fire_machine]
  split
  · exact h
  · have hfired : (m.logFired event (m.listenersFor node event)).Sheltered k := by
      obtain ⟨logs, hlogs⟩ := m.logFired_eq event (m.listenersFor node event)
      rw [hlogs]
      exact ⟨h.scoping, h.globals, h.calls⟩
    exact hfired.callAll event _

theorem perform (h : m.Sheltered k) (hk : k.NotesBound) :
    ∀ c : Command, (∀ i, 0 < (m.moment c i).stack.depth) → (m.perform c).Sheltered k
  | .step, hd => h.step hk hd
  | .fire node event, _ => h.fire node event
  | .fireById id event, _ => by
    show (m.fireById id event).2.machine.Sheltered k
    unfold Machine.fireById
    split
    · exact h.fire _ event
    · exact h

/-- **Runs** keep the shelter, as long as there are calls. -/
theorem performAll (hk : k.NotesBound) : ∀ (commands : List Command) {m : Machine}, m.Sheltered k →
    StaysAbove 0 commands m → (m.performAll commands).Sheltered k
  | [], _, h, _ => h
  | c :: commands, _, h, ⟨⟨_, hd⟩, hrest⟩ => performAll hk commands (h.perform hk c hd) hrest

end Sheltered

/-! ## Back to the interrupted work -/

section Reentry

variable {source : String} {document : Option Document} {m : Machine} {node : Nat} {event : String}
  {after : List Command} {i : Nat}

/-- An event is fired, the machine gets the commands `after`, and `i` rounds into a further step. -/
def handling (m : Machine) (node : Nat) (event : String) (after : List Command) (i : Nat) : Machine :=
  ((m.perform (.fire node event)).performAll after).moment .step i

/-- The event pushed calls, and `handling m node event after i` is the first moment at which all of these and all that
came above them are gone. -/
structure HandledAt (m : Machine) (node : Nat) (event : String) (after : List Command) (i : Nat) : Prop where
  stays : StaysAbove m.stack.depth after (m.perform (.fire node event))
  busy : ∀ j < i, m.stack.depth < (m.handling node event after j).stack.depth
  done : (m.handling node event after i).stack.depth ≤ m.stack.depth

/-- The machine without the calls that the event interrupts. -/
def detached (m : Machine) : Machine := m.top m.stack.depth

theorem detached_above (m : Machine) : m.detached.above m.stack.calls m.stack.global.queue = m := by
  have hlow : m.stack.upTo m.stack.depth = m.stack.calls := by simp [Stack.upTo]
  have h := m.top_above m.stack.depth
  rwa [hlow] at h

/-- The interrupted calls are suspended until the event is handled. -/
theorem HandledAt.detached (h : m.HandledAt node event after i) :
    StaysAbove 0 after (m.detached.perform (.fire node event)) ∧
    (∀ j < i, 0 < (m.detached.handling node event after j).stack.depth) ∧
    (m.detached.handling node event after i).stack.calls = [] ∧
    m.handling node event after i =
      (m.detached.handling node event after i).above m.stack.calls m.stack.global.queue := by
  obtain ⟨hstays, hbusy, hdone⟩ := h
  have hfire : (m.detached.above m.stack.calls m.stack.global.queue).perform (.fire node event) =
      (m.detached.perform (.fire node event)).above m.stack.calls m.stack.global.queue := fire_above ..
  rw [detached_above] at hfire
  rw [hfire] at hstays
  replace hstays := (staysAbove_above _ _ rfl after _).1 hstays
  have hrun : (m.perform (.fire node event)).performAll after = _ :=
    hfire ▸ performAll_above m.stack.calls m.stack.global.queue after _ hstays
  -- Up to the round `i`, the moments are those of the detached machine above the interrupted calls.
  have hmoment {j : Nat} (hj : j ≤ i) : m.handling node event after j =
      (m.detached.handling node event after j).above m.stack.calls m.stack.global.queue := by
    unfold handling at hbusy ⊢
    rw [hrun] at hbusy ⊢
    exact moment_above _ _ _ fun l hl => hbusy l (Nat.lt_of_lt_of_le hl hj)
  refine ⟨hstays, fun j hj => ?_, ?_, hmoment (Nat.le_refl i)⟩
  · have hd := hbusy j hj
    rw [hmoment (Nat.le_of_lt hj), above_depth] at hd
    exact Nat.pos_of_lt_add_left hd
  · rw [hmoment (Nat.le_refl i), above_depth] at hdone
    have hz : (m.detached.handling node event after i).stack.depth + m.stack.depth ≤ 0 + m.stack.depth := by
      rwa [Nat.zero_add]
    exact List.eq_nil_of_length_eq_zero (Nat.le_zero.1 (Nat.le_of_add_le_add_right hz))

/-- **Events leave the interrupted work alone.** In snapshot scoping, whatever commands led to a machine, whatever event is
fired on it and whatever commands it gets then: at the moment when the last call is gone that the event brought about,
the calls are those of before, with their names, variables, notes, work and events. The top level has the same work, and
its scope has the same notes and the same values for all names that it had, and new names at most. -/
theorem reentry_restores (h : load source document .snapshot = .ok m) (before : List Command)
    (hh : (m.performAll before).HandledAt node event after i) :
    ((m.performAll before).handling node event after i).stack.Restores (m.performAll before).stack := by
  obtain ⟨program, -, -, rfl⟩ := load_ok h
  have hs := performAll_scoping before (ofProgram program program.findings .snapshot document)
  have hk := notesBound_invariant.performAll before (m := ofProgram program program.findings .snapshot document)
    fun _ _ => rfl
  generalize (ofProgram program program.findings .snapshot document).performAll before = n at hh hs hk ⊢
  obtain ⟨hstays, hbusy, hnil, he⟩ := hh.detached
  have hstart : n.detached.Sheltered n.stack.global.scope :=
    ⟨hs, .refl _, by simp [Machine.detached, top, Stack.beyond]⟩
  have hend : (n.detached.handling node event after i).Sheltered n.stack.global.scope :=
    ((hstart.fire node event).performAll hk after hstays).moment hk hbusy
  rw [he]
  refine ⟨?_, rfl, hend.globals⟩
  show (n.detached.handling node event after i).stack.calls ++ n.stack.calls = n.stack.calls
  rw [hnil, List.nil_append]

/-- A listener that assigns to a global name and to a new one, while the top level has work to do. -/
def interruptedScript : String :=
  "let x = 1;\nfunction h() { x = 5; y = 2; }\ndocument.getElementById('b').addEventListener('click', h);\nx = 3;"

/-- After three steps the event is fired. The listener is done in the second step after that, before its third round, and
`y` is a new global name then. -/
theorem reentry_restores_interruptedScript : ∃ m, load interruptedScript (some buttonPage) .snapshot = .ok m ∧
    (m.performAll [.step, .step, .step]).HandledAt 0 "click" [.step] 2 ∧
    ((m.performAll [.step, .step, .step]).handling 0 "click" [.step] 2).stack.global.scope.has "y" = true ∧
    ((m.performAll [.step, .step, .step]).handling 0 "click" [.step] 2).stack.Restores
      (m.performAll [.step, .step, .step]).stack := by
  have hrun : (load interruptedScript (some buttonPage) .snapshot).toOption.any (fun m =>
      let n := m.performAll [.step, .step, .step]
      let fired := n.perform (.fire 0 "click")
      n.stack.depth < fired.stack.depth && fired.momentsTest 3 (n.stack.depth < ·.stack.depth) &&
        n.stack.depth < fired.step.machine.stack.depth &&
        (List.range 2).all (fun j => n.stack.depth < (n.handling 0 "click" [.step] j).stack.depth) &&
        (n.handling 0 "click" [.step] 2).stack.depth ≤ n.stack.depth &&
        (n.handling 0 "click" [.step] 2).stack.global.scope.has "y") = true := by decide +kernel
  obtain ⟨m, h, ht⟩ := exists_loaded hrun
  simp only [Bool.and_eq_true, decide_eq_true_eq, List.all_eq_true, List.mem_range] at ht
  obtain ⟨⟨⟨⟨⟨hfired, hmoments⟩, hstep⟩, hbusy⟩, hdone⟩, hy⟩ := ht
  have hh : (m.performAll [.step, .step, .step]).HandledAt 0 "click" [.step] 2 :=
    ⟨⟨⟨hfired, fun i => of_decide_eq_true (of_momentsTest hmoments i)⟩, hstep⟩, hbusy, hdone⟩
  exact ⟨m, h, hh, hy, reentry_restores h _ hh⟩

end Reentry

end Machine

end Stepwise
