import Stepwise.Proofs.Machine.Commands
import Stepwise.Proofs.Machine.Keeps

/-!
# Invariants of frames

Most invariants of a machine speak of its parts one by one: of the values in the scopes, of the queues and of the world.
`Parts` collects three such predicates. If evaluation keeps them (`Parts.Kept`), and so does running the unit that is next
in a queue, they hold of a machine after any sequence of commands (`Parts.Kept.invariant`).
-/

namespace Stepwise

open Eval

/-- What is to hold of every value in a scope, of every queue and of the world. -/
structure Parts where
  value : Value → Prop
  queue : List Work → Prop
  world : World → Prop

namespace Parts

def OfScope (R : Parts) (s : Scope) : Prop := ∀ e ∈ s.values.entries, R.value e.2

structure OfFrame (R : Parts) (f : Frame) : Prop where
  scope : R.OfScope f.scope
  queue : R.queue f.queue

structure OfContext (R : Parts) (line : Option Nat) (c : Context) : Prop where
  line : c.line = line
  globals : R.OfScope c.globals
  locals : ∀ s ∈ c.locals, R.OfScope s
  pushed : ∀ a ∈ c.pushed, R.OfFrame a.toFrame
  world : R.world c.world

structure OfStack (R : Parts) (stack : Stack) (w : World) : Prop where
  global : R.OfFrame stack.global
  calls : ∀ a ∈ stack.calls, R.OfFrame a.toFrame
  world : R.world w

variable {R : Parts} {line : Option Nat} {c : Context}

/-! ## Scopes -/

theorem OfScope.empty : R.OfScope .empty := fun _ h => by cases h

theorem OfScope.insert {s : Scope} (h : R.OfScope s) {v : Value} (hv : R.value v) {name : String}
    {notes : NameMap BindingNote} : R.OfScope ⟨s.values.insert name v, notes⟩ := by
  intro e he
  rcases mem_insertEntry he with rfl | he
  · exact hv
  · exact h e he

theorem OfScope.get? {s : Scope} (h : R.OfScope s) {name : String} {v : Value} (hv : s.get? name = some v) : R.value v := by
  obtain ⟨l, r, hs, -⟩ := List.lookup_eq_some_iff.1 hv
  exact h (name, v) (by rw [hs]; simp)

theorem OfScope.bindParams (hu : R.value .undefined) : ∀ (params : List String) {s : Scope} {args : List Value},
    R.OfScope s → (∀ v ∈ args, R.value v) → R.OfScope (s.bindParams params args)
  | [], _, _, h, _ => h
  | _ :: params, _, [], h, ha => OfScope.bindParams hu params (h.insert hu) ha
  | _ :: params, _, _ :: _, h, ha =>
    OfScope.bindParams hu params (h.insert (ha _ List.mem_cons_self)) fun v hv => ha v (List.mem_cons_of_mem _ hv)

/-! ## Contexts -/

namespace OfContext

theorem of_world (h : R.OfContext line c) {w : World} (hw : R.world w) : R.OfContext line { c with world := w } :=
  ⟨h.line, h.globals, h.locals, h.pushed, hw⟩

theorem declare (h : R.OfContext line c) {name : String} {kind : BindingKind} {v : Value} (hv : R.value v) :
    R.OfContext line (c.declare name kind v) := by
  unfold Context.declare
  split
  · rename_i s hs
    exact ⟨h.line, h.globals, fun s' hs' => by cases hs'; exact (h.locals s hs).insert hv, h.pushed, h.world⟩
  · exact ⟨h.line, h.globals.insert hv, h.locals, h.pushed, h.world⟩

theorem assign (h : R.OfContext line c) {name : String} {v : Value} (hv : R.value v) :
    R.OfContext line (c.assign name v) := by
  unfold Context.assign
  split
  · rename_i s hs
    split
    · exact ⟨h.line, h.globals, fun s' hs' => by cases hs'; exact (h.locals s hs).insert hv, h.pushed, h.world⟩
    · exact ⟨h.line, h.globals.insert hv, h.locals, h.pushed, h.world⟩
  · exact ⟨h.line, h.globals.insert hv, h.locals, h.pushed, h.world⟩

theorem pushCall (h : R.OfContext line c) {fn : FunctionDef} (hb : R.queue [.stmt fn.body]) (hu : R.value .undefined)
    {args : List Value} (ha : ∀ v ∈ args, R.value v) (handling : Option EventNote) :
    R.OfContext line (c.pushCall fn args handling) := by
  refine ⟨h.line, h.globals, h.locals, List.forall_mem_cons.2 ⟨⟨?_, hb⟩, h.pushed⟩, h.world⟩
  refine OfScope.bindParams hu fn.params ?_ ha
  cases c.scoping with
  | snapshot => exact h.globals
  | chained => exact OfScope.empty

theorem lookup? (h : R.OfContext line c) {name : String} {v : Value}
    (hp : c.predefined? name = some v → R.value v) (hv : c.lookup? name = some v) : R.value v := by
  unfold Context.lookup? at hv
  split at hv
  · rename_i w hw
    cases hv
    obtain ⟨s, hs, hw⟩ := Option.bind_eq_some_iff.1 hw
    exact (h.locals s hs).get? hw
  · split at hv
    · rename_i w hw
      cases hv
      exact h.globals.get? hw
    · exact hp hv

end OfContext

/-! ## Evaluation -/

/-- The parts survive evaluation on a line with `L`, where nodes with `N` are evaluated. -/
structure Kept (L : Option Nat → Prop) (N : Node → Prop) (R : Parts) : Prop where
  plain : ∀ v : Value, v.isPlain → R.value v
  predefined : ∀ {c : Context} {name v}, R.world c.world → c.predefined? name = some v → R.value v
  read : ∀ {c : Context} {o key v}, R.world c.world → R.value o → c.readMember o key = .ok v → R.value v
  /-- What is written to a member goes to the document. -/
  write : ∀ {w : World} {d handle key v d'}, R.world w → w.document = some d →
    d.writeMember handle key v = .ok d' → R.world { w with document := some d' }
  logged : ∀ {w kind message line}, L line → kind ≠ .diagnostic → R.world w → R.world (w.log ⟨kind, message, line⟩)
  skipped : ∀ {w message line}, L line → Skips N message → R.world w → R.world (w.log ⟨.diagnostic, message, line⟩)
  builtin : ∀ {line fn receiver args}, L line → R.value (.builtin fn receiver) → (∀ v ∈ args, R.value v) →
    Keeps (R.OfContext line) (callBuiltin fn receiver args) R.value
  callback : ∀ {w l}, R.world w → l ∈ w.listeners → R.value l.callback
  body : ∀ {fn}, R.value (.func fn) → R.queue [.stmt fn.body]
  function : ∀ {fn}, N (.expr (.function fn)) → R.value (.func fn)
  declared : ∀ {fn}, N (.stmt (.function fn)) → R.value (.func fn)

variable {L : Option Nat → Prop} {N : Node → Prop}

theorem Kept.closed (h : R.Kept L N) (hl : L line) : Closed (R.OfContext line) R.value N where
  plain := h.plain
  lookup hc hv := hc.lookup? (h.predefined hc.world) hv
  read hc ho hv := h.read hc.world ho hv
  write hc _ hd := by
    obtain ⟨_, _, _, -, hpage, hw, rfl⟩ := Context.writeMember_ok hd
    exact hc.of_world (h.write hc.world hpage hw)
  assign hc hv := hc.assign hv
  declare hc hv := hc.declare hv
  bound hc := hc.of_world (h.logged (hc.line ▸ hl) (by decide) hc.world)
  builtin hf ha := h.builtin hl hf ha
  push hc hf ha := hc.pushCall (h.body hf) (h.plain _ rfl) ha none
  function := h.function
  declared := h.declared
  skipped hn hc := hc.of_world (h.skipped (hc.line ▸ hl) hn hc.world)

theorem Kept.listeners (h : R.Kept L N) (hl : L line) (event : String) {listeners : List Listener}
    (hm : ∀ l ∈ listeners, R.value l.callback) :
    Keeps (R.OfContext line) (callListeners event listeners) fun _ => True :=
  callListeners_keeps (V := R.value) (fun hf => (h.builtin hl hf (by simp)).mono fun _ _ => trivial)
    (fun hc hf => hc.pushCall (h.body hf) (h.plain _ rfl) (by simp) _) event listeners hm

/-! ## Stacks -/

namespace OfStack

variable {g : Frame} {a : Activation} {calls : List Activation} {w : World} {queue : List Work} {scoping : Scoping}

theorem topContext (h : R.OfStack ⟨g, calls⟩ w) : R.OfContext line ⟨scoping, line, g.scope, none, [], w⟩ :=
  ⟨rfl, h.global.scope, by simp, by simp, h.world⟩

theorem callContext (h : R.OfStack ⟨g, a :: calls⟩ w) : R.OfContext line ⟨scoping, line, g.scope, some a.scope, [], w⟩ :=
  ⟨rfl, h.global.scope, fun s hs => by cases hs; exact (h.calls a List.mem_cons_self).scope, by simp, h.world⟩

/-- The stack after a context was left. -/
theorem of_context (hc : R.OfContext line c) (hq : R.queue queue) (hcalls : ∀ a ∈ calls, R.OfFrame a.toFrame) :
    R.OfStack ⟨⟨c.globals, queue⟩, c.pushed ++ calls⟩ c.world :=
  ⟨⟨hc.globals, hq⟩, List.forall_mem_append.2 ⟨hc.pushed, hcalls⟩, hc.world⟩

theorem of_topContext (hc : R.OfContext line c) (hq : R.queue queue) : R.OfStack ⟨⟨c.globals, queue⟩, c.pushed⟩ c.world :=
  ⟨⟨hc.globals, hq⟩, hc.pushed, hc.world⟩

/-- The frame of a call after one of its units. -/
theorem after (ha : R.OfFrame a.toFrame) (hc : R.OfContext line c) {work : List Work} (hq : R.queue (work ++ queue)) :
    R.OfFrame ({ a with queue }.after c work).toFrame := by
  refine ⟨?_, hq⟩
  show R.OfScope (c.locals.getD a.scope)
  cases hl : c.locals with
  | none => exact ha.scope
  | some s => exact hc.locals s hl

end OfStack

open OfStack in
/-- **Parts** that evaluation and the units in the queues keep hold after any sequence of commands. -/
theorem Kept.invariant (h : R.Kept L N) (idle : R.queue [])
    (stands : ∀ {queue unit rest}, R.queue queue → takeUnit? queue = some (unit, rest) → L (some unit.span.line))
    (taken : ∀ {queue unit rest}, R.queue queue → takeUnit? queue = some (unit, rest) → R.queue rest)
    (ran : ∀ {queue unit rest line}, L line → R.queue queue → takeUnit? queue = some (unit, rest) →
      Keeps (R.OfContext line) unit.run fun o => ∀ work, o = .next work → R.queue (work ++ rest)) :
    Machine.LineInvariant L R.OfStack where
  dropped hs := ⟨hs.global, fun a ha => hs.calls a (List.mem_cons_of_mem _ ha), hs.world⟩
  noted hl hk hs := ⟨hs.global, hs.calls, h.logged hl hk hs.world⟩
  call_line hs ht := stands (hs.calls _ List.mem_cons_self).queue ht
  call_next hl hs ht hr := by
    obtain ⟨ha, hcalls⟩ := List.forall_mem_cons.1 hs.calls
    have ⟨hc, hw⟩ := (ran hl ha.queue ht).of_ok hs.callContext hr
    exact of_context hc hs.global.queue (List.forall_mem_cons.2 ⟨after ha hc (hw _ rfl), hcalls⟩)
  call_leave hl hs ht hr := by
    obtain ⟨ha, hcalls⟩ := List.forall_mem_cons.1 hs.calls
    exact of_context ((ran hl ha.queue ht).of_ok hs.callContext hr).1 hs.global.queue hcalls
  call_error hl hs ht hr := by
    obtain ⟨ha, hcalls⟩ := List.forall_mem_cons.1 hs.calls
    have hc := (ran hl ha.queue ht).of_error hs.callContext hr
    exact of_context hc hs.global.queue (List.forall_mem_cons.2 ⟨after ha hc (taken ha.queue ht), hcalls⟩)
  top_line hs ht := stands hs.global.queue ht
  top_next hl hs ht hr := by
    have ⟨hc, hw⟩ := (ran hl hs.global.queue ht).of_ok hs.topContext hr
    exact of_topContext hc (hw _ rfl)
  top_leave hl hs ht hr := of_topContext ((ran hl hs.global.queue ht).of_ok hs.topContext hr).1 idle
  top_error hl hs ht hr :=
    of_topContext ((ran hl hs.global.queue ht).of_error hs.topContext hr) (taken hs.global.queue ht)
  idle hs := ⟨⟨hs.global.scope, idle⟩, hs.calls, hs.world⟩
  fired {g calls w event listeners scoping line c} hl hs hm hr := by
    have hk := h.listeners hl event fun l hmem => h.callback hs.world (hm l hmem)
    rcases hr with hr | ⟨e, hr⟩
    · exact of_context (hk.of_ok hs.topContext hr).1 hs.global.queue hs.calls
    · exact of_context (hk.of_error hs.topContext hr) hs.global.queue hs.calls

end Parts

end Stepwise
