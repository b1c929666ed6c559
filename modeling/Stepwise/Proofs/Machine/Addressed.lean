import Stepwise.Proofs.Machine.Operations
import Stepwise.Proofs.Machine.Visible

/-!
# Evaluation in the frame at a depth

A computation sees no stack. `m.evaluate depth act` is what it does to a machine when it runs in the frame at a depth: it
finds the scope of that frame and the global one, and the calls that it makes are put on top of the stack. What comes
second runs in the same frame, whatever calls lie above it by then (`Machine.evaluate_bind`).

The other way is to keep nothing but the depth, and to look the frame up on the stack in each operation that reads, binds
or assigns a name (`Operation.runAt`, `Plan.runAt`). **`Plan.evaluate_run`**: both ways give the same result and leave the
same machine.
-/

namespace Stepwise

open Eval

/-! ## Frames at a depth -/

namespace Stack

/-- A depth that is not that of the top level belongs to a call. -/
theorem exists_call_at (s : Stack) {n : Nat} (h : n < s.depth) :
    ∃ upper a lower, s.calls = upper ++ a :: lower ∧ lower.length = n := by
  have hlt : s.calls.length - (n + 1) < s.calls.length := by
    have h : n < s.calls.length := h
    omega
  refine ⟨s.calls.take (s.calls.length - (n + 1)), s.calls[s.calls.length - (n + 1)],
    s.calls.drop (s.calls.length - (n + 1) + 1), ?_, ?_⟩
  · rw [List.getElem_cons_drop hlt, List.take_append_drop]
  · have h : n < s.calls.length := h
    rw [List.length_drop]
    omega

theorem modifyAt_top (s : Stack) (f : Frame → Frame) : s.modifyAt 0 f = { s with global := f s.global } := by
  rw [modifyAt, Nat.zero_min]

theorem depth_modifyAt (s : Stack) (n : Nat) (f : Frame → Frame) : (s.modifyAt n f).depth = s.depth := by
  unfold modifyAt
  split
  · rfl
  · exact List.length_modify ..

theorem modifyAt_middle (g : Frame) (upper lower : List Activation) (a : Activation) (f : Frame → Frame) :
    modifyAt ⟨g, upper ++ a :: lower⟩ (lower.length + 1) f =
      ⟨g, upper ++ { a with toFrame := f a.toFrame } :: lower⟩ := by
  have hd : depth ⟨g, upper ++ a :: lower⟩ = upper.length + (lower.length + 1) := List.length_append
  have hm : min (lower.length + 1) (depth ⟨g, upper ++ a :: lower⟩) = lower.length + 1 := by omega
  have hi : depth ⟨g, upper ++ a :: lower⟩ - (lower.length + 1) = upper.length := by omega
  rw [modifyAt, hm]
  simp only [hi]
  rw [List.modify_eq_take_cons_drop (by simp)]
  simp

/-- A call in the middle of the stack, addressed by its depth. -/
theorem remove?_middle (g : Frame) (pushed below : List Activation) (a : Activation) :
    remove? ⟨g, pushed ++ a :: below⟩ (below.length + 1) = some (a, ⟨g, pushed ++ below⟩) := by
  have he : (below.reverse ++ a :: pushed.reverse).eraseIdx below.length = below.reverse ++ pushed.reverse := by
    rw [List.eraseIdx_append_of_length_le (by simp)]
    simp
  simp [remove?, he]

end Stack

namespace Machine

/-! ## Computations in a frame -/

/-- The scope of the frame at a depth, unless it is the global one. -/
def localsAt (m : Machine) (depth : Nat) : Option Scope :=
  if depth = 0 then none else some (m.stack.frameAt depth).scope

/-- The machine takes over the context that a computation in the frame at a depth left. -/
def takeOver (m : Machine) (depth : Nat) (c : Context) : Machine :=
  let stack := m.stack.modifyAt depth fun f => { f with scope := c.locals.getD f.scope }
  { m with world := c.world, stack := ⟨⟨c.globals, stack.global.queue⟩, c.pushed ++ stack.calls⟩ }

/-- Runs a computation in the frame at a depth. -/
def evaluate {α : Type} (m : Machine) (depth : Nat) (act : Eval α) : Except RuntimeError α × Machine :=
  match act (m.context (m.localsAt depth)) with
  | .ok a c => (.ok a, m.takeOver depth c)
  | .error e c => (.error e, m.takeOver depth c)

section Evaluate

variable {α β : Type} {m n : Machine} {depth : Nat} {act : Eval α} {c : Context}

theorem evaluate_ok {a : α} (h : act (m.context (m.localsAt depth)) = .ok a c) :
    m.evaluate depth act = (.ok a, m.takeOver depth c) := by
  unfold evaluate
  rw [h]

theorem evaluate_error {e : RuntimeError} (h : act (m.context (m.localsAt depth)) = .error e c) :
    m.evaluate depth act = (.error e, m.takeOver depth c) := by
  unfold evaluate
  rw [h]

theorem evaluate_machine (m : Machine) (depth : Nat) (act : Eval α) :
    (m.evaluate depth act).2 = m.takeOver depth (left (act (m.context (m.localsAt depth)))) := by
  unfold evaluate
  cases act (m.context (m.localsAt depth)) <;> rfl

theorem takeOver_top (m : Machine) (c : Context) :
    m.takeOver 0 c = m.adopt c (c.pushed ++ m.stack.calls) m.stack.global.queue := by
  rw [takeOver, Stack.modifyAt_top]
  rfl

section Middle

variable {upper lower : List Activation} {a : Activation}

theorem takeOver_middle (hc : m.stack.calls = upper ++ a :: lower) (c : Context) : m.takeOver (lower.length + 1) c =
    m.adopt c (c.pushed ++ (upper ++ a.after c [] :: lower)) m.stack.global.queue := by
  have hs : m.stack = ⟨m.stack.global, upper ++ a :: lower⟩ := by rw [← hc]
  rw [takeOver, hs, Stack.modifyAt_middle]
  rfl

theorem localsAt_middle (hc : m.stack.calls = upper ++ a :: lower) : m.localsAt (lower.length + 1) = some a.scope := by
  have hs : m.stack = ⟨m.stack.global, upper ++ a :: lower⟩ := by rw [← hc]
  rw [localsAt, if_neg (Nat.succ_ne_zero _), hs, Stack.frameAt_middle]
  rfl

end Middle

theorem localsAt_top (m : Machine) : m.localsAt 0 = none := rfl

theorem depth_takeOver (m : Machine) (depth : Nat) (c : Context) :
    (m.takeOver depth c).stack.depth = c.pushed.length + m.stack.depth := by
  rw [← m.stack.depth_modifyAt depth fun f => { f with scope := c.locals.getD f.scope }]
  exact List.length_append

/-! ## One computation after the other -/

/-- A computation that comes second finds what the first one left. -/
theorem context_takeOver (hd : depth ≤ m.stack.depth) {tried : List Trial}
    (h : (m.context (m.localsAt depth)).Follows tried c) :
    (m.takeOver depth c).context ((m.takeOver depth c).localsAt depth) = { c with pushed := [] } := by
  obtain ⟨scoping, line, globals, locals, pushed, world⟩ := c
  obtain rfl : scoping = m.scoping := h.scoping
  obtain rfl : line = m.line := h.line
  have hl := h.locals
  cases depth with
  | zero =>
    obtain rfl : locals = none := Option.isSome_eq_false_iff.1 hl |> Option.isNone_iff_eq_none.1
    rw [takeOver_top]
    rfl
  | succ k =>
    obtain ⟨upper, a, lower, hc, rfl⟩ := m.stack.exists_call_at hd
    obtain ⟨s, rfl⟩ : ∃ s, locals = some s := Option.isSome_iff_exists.1 hl
    rw [takeOver_middle hc]
    have hcalls : (m.adopt ⟨m.scoping, m.line, globals, some s, pushed, world⟩ (pushed ++ (upper ++
        a.after ⟨m.scoping, m.line, globals, some s, pushed, world⟩ [] :: lower)) m.stack.global.queue).stack.calls =
        (pushed ++ upper) ++ a.after ⟨m.scoping, m.line, globals, some s, pushed, world⟩ [] :: lower :=
      (List.append_assoc ..).symm
    rw [localsAt_middle hcalls]
    rfl

/-- Taking over twice is taking over what came second, with the calls of both. -/
theorem takeOver_takeOver (hd : depth ≤ m.stack.depth) {d : Context} (hl : d.locals.isSome = decide (depth ≠ 0)) :
    (m.takeOver depth c).takeOver depth d = m.takeOver depth (d.above c.pushed) := by
  cases depth with
  | zero =>
    rw [takeOver_top, takeOver_top, takeOver_top]
    simp [adopt, Context.above]
  | succ k =>
    obtain ⟨upper, a, lower, hc, rfl⟩ := m.stack.exists_call_at hd
    obtain ⟨s, hs⟩ : ∃ s, d.locals = some s := Option.isSome_iff_exists.1 (hl.trans (by simp))
    have hcalls : (m.takeOver (lower.length + 1) c).stack.calls = (c.pushed ++ upper) ++ a.after c [] :: lower := by
      rw [takeOver_middle hc]
      exact (List.append_assoc ..).symm
    rw [takeOver_middle hcalls, takeOver_middle hc, takeOver_middle hc]
    simp [adopt, Context.above, Activation.after, hs]

variable {f : α → Eval β} {trials : Context → List Trial} {more : α → Context → List Trial}

/-- **In turn**: what comes second runs in the same frame, on the machine that the first computation left. -/
theorem evaluate_bind (h : Tries act trials) (hf : ∀ a, Tries (f a) (more a)) (hd : depth ≤ m.stack.depth) {a : α}
    (hr : m.evaluate depth act = (.ok a, n)) : m.evaluate depth (act >>= f) = n.evaluate depth (f a) := by
  have hfollows := h.follows (m.context (m.localsAt depth))
  cases hc : act (m.context (m.localsAt depth)) with
  | error e c =>
    rw [evaluate_error hc] at hr
    cases hr
  | ok b c =>
    rw [hc] at hfollows
    change (m.context (m.localsAt depth)).Follows _ c at hfollows
    rw [evaluate_ok hc] at hr
    cases hr
    have hctx := context_takeOver hd hfollows
    have hsecond := (hf a).follows { c with pushed := [] }
    have hl : (left (f a { c with pushed := [] })).locals.isSome = decide (depth ≠ 0) := by
      refine hsecond.locals.trans (hfollows.locals.trans ?_)
      unfold context localsAt
      split <;> simp_all
    have hbind : (act >>= f) (m.context (m.localsAt depth)) =
        mapContext (·.above c.pushed) (f a { c with pushed := [] }) := by
      rw [bind_ok hc]
      exact (hf a).above c.pushed { c with pushed := [] }
    unfold evaluate
    rw [hbind, hctx]
    cases hfa : f a { c with pushed := [] } with
    | ok b d =>
      rw [hfa] at hl
      exact congrArg (Prod.mk _) (takeOver_takeOver hd hl).symm
    | error e d =>
      rw [hfa] at hl
      exact congrArg (Prod.mk _) (takeOver_takeOver hd hl).symm

/-- Nothing comes after an error. -/
theorem evaluate_bind_error {e : RuntimeError} (hr : m.evaluate depth act = (.error e, n)) :
    m.evaluate depth (act >>= f) = (.error e, n) := by
  cases hc : act (m.context (m.localsAt depth)) with
  | ok b c =>
    rw [evaluate_ok hc] at hr
    cases hr
  | error e' c =>
    rw [evaluate_error hc] at hr
    cases hr
    exact evaluate_error (bind_error hc)

end Evaluate

/-! ## Operations that look up their frame -/

/-- The value of a name: in the frame at a depth, in the global frame, then what is predefined. -/
def lookupAt? (m : Machine) (depth : Nat) (name : String) : Option Value :=
  match (m.stack.frameAt depth).scope.get? name with
  | some v => some v
  | none =>
    match m.stack.global.scope.get? name with
    | some v => some v
    | none => (m.context none).predefined? name

/-- Changes the scope of the frame at a depth. -/
def rescope (m : Machine) (depth : Nat) (f : Scope → Scope) : Machine :=
  { m with stack := m.stack.modifyAt depth fun frame => { frame with scope := f frame.scope } }

/-- Assigns to a name in the frame at a depth, if it is bound there, and in the global frame otherwise. -/
def assignAt (m : Machine) (depth : Nat) (name : String) (v : Value) : Machine :=
  if (m.stack.frameAt depth).scope.has name then m.rescope depth (·.assign name v) else m.rescope 0 (·.assign name v)

/-- Puts a call of a function on top of the stack. -/
def pushCall (m : Machine) (fn : FunctionDef) (args : List Value) : Machine :=
  { m with stack := m.stack.push ⟨⟨(m.context none).callScope fn args, [.stmt fn.body]⟩, fn.displayName, none⟩ }

/-- Runs a computation that touches no frame. -/
def onWorld {α : Type} (m : Machine) (act : Eval α) : Except RuntimeError α × Machine :=
  match act (m.context none) with
  | .ok a c => (.ok a, { m with world := c.world })
  | .error e c => (.error e, { m with world := c.world })

end Machine

/-- What an operation does to a machine that evaluates in the frame at a depth. -/
def Operation.runAt (depth : Nat) (m : Machine) : Operation → Except RuntimeError Value × Machine
  | resolve name =>
    match m.lookupAt? depth name with
    | some v => (.ok v, m)
    | none => (.error (.notDefined name), m)
  | typeName name => (.ok (.str ((m.lookupAt? depth name).getD .undefined).typeName), m)
  | assign name v => (.ok .undefined, m.assignAt depth name v)
  | declare name kind v message => (.ok .undefined, (m.log .binding message).rescope depth (·.declare name kind v))
  | call (.func fn) args _ => (.ok .undefined, m.pushCall fn args)
  | o => m.onWorld o.run

/-- Does the operations of a plan in the frame at a depth. -/
def Plan.runAt {α : Type} (depth : Nat) : Plan α → Machine → Except RuntimeError α × Machine
  | done a, m => (.ok a, m)
  | first o rest, m =>
    match o.runAt depth m with
    | (.ok v, n) => (rest v).runAt depth n
    | (.error e, n) => (.error e, n)

namespace Machine

variable {m : Machine} {depth : Nat}

theorem lookupAt?_eq (m : Machine) (depth : Nat) (name : String) :
    m.lookupAt? depth name = (m.context (m.localsAt depth)).lookup? name := by
  cases depth with
  | zero =>
    -- At the top level the global scope is looked at twice.
    have hframe : (m.stack.frameAt 0).scope = m.stack.global.scope := rfl
    have hlocals : (m.context (m.localsAt 0)).locals.bind (·.get? name) = none := rfl
    have hglobals : (m.context (m.localsAt 0)).globals = m.stack.global.scope := rfl
    rw [lookupAt?, Context.lookup?, hframe, hlocals, hglobals]
    cases m.stack.global.scope.get? name <;> rfl
  | succ k => rfl

theorem rescope_top (m : Machine) (f : Scope → Scope) :
    m.rescope 0 f =
      { m with stack := { m.stack with global := { m.stack.global with scope := f m.stack.global.scope } } } := by
  rw [rescope, Stack.modifyAt_top]

section Middle

variable {upper lower : List Activation} {a : Activation}

theorem rescope_middle (hc : m.stack.calls = upper ++ a :: lower) (f : Scope → Scope) :
    m.rescope (lower.length + 1) f = m.withCalls (upper ++ { a with scope := f a.scope } :: lower) := by
  have hs : m.stack = ⟨m.stack.global, upper ++ a :: lower⟩ := by rw [← hc]
  rw [rescope, hs, Stack.modifyAt_middle]
  rfl

theorem scopeAt_middle (hc : m.stack.calls = upper ++ a :: lower) :
    (m.stack.frameAt (lower.length + 1)).scope = a.scope := by
  have hs : m.stack = ⟨m.stack.global, upper ++ a :: lower⟩ := by rw [← hc]
  rw [hs, Stack.frameAt_middle]
  rfl

end Middle

/-! ## What operations leave is taken over -/

section TakeOver

variable (hd : depth ≤ m.stack.depth)

include hd

theorem takeOver_world (w : World) :
    m.takeOver depth { m.context (m.localsAt depth) with world := w } = { m with world := w } := by
  cases depth with
  | zero => rw [takeOver_top]; rfl
  | succ k =>
    obtain ⟨upper, a, lower, hc, rfl⟩ := m.stack.exists_call_at hd
    rw [takeOver_middle hc, localsAt_middle hc]
    show m.adopt _ (upper ++ a :: lower) m.stack.global.queue = _
    rw [← hc]
    rfl

theorem takeOver_assign (name : String) (v : Value) :
    m.takeOver depth ((m.context (m.localsAt depth)).assign name v) = m.assignAt depth name v := by
  cases depth with
  | zero => rw [takeOver_top, assignAt, ite_self, rescope_top]; rfl
  | succ k =>
    obtain ⟨upper, a, lower, hc, rfl⟩ := m.stack.exists_call_at hd
    rw [takeOver_middle hc, localsAt_middle hc, assignAt, scopeAt_middle hc]
    simp only [Context.assign, context]
    split
    · rw [rescope_middle hc]
      rfl
    · rw [rescope_top]
      simp only [adopt, Activation.after, hc]
      rfl

theorem takeOver_declare (name : String) (kind : BindingKind) (v : Value) :
    m.takeOver depth ((m.context (m.localsAt depth)).declare name kind v) = m.rescope depth (·.declare name kind v) := by
  cases depth with
  | zero => rw [takeOver_top, rescope_top]; rfl
  | succ k =>
    obtain ⟨upper, a, lower, hc, rfl⟩ := m.stack.exists_call_at hd
    rw [takeOver_middle hc, localsAt_middle hc, rescope_middle hc]
    rfl

theorem takeOver_pushCall (fn : FunctionDef) (args : List Value) :
    m.takeOver depth ((m.context (m.localsAt depth)).pushCall fn args none) = m.pushCall fn args := by
  cases depth with
  | zero => rw [takeOver_top]; rfl
  | succ k =>
    obtain ⟨upper, a, lower, hc, rfl⟩ := m.stack.exists_call_at hd
    rw [takeOver_middle hc, localsAt_middle hc, pushCall, Stack.push, hc]
    rfl

theorem evaluate_onWorld {o : Operation} (ho : o.onWorld = true) : m.evaluate depth o.run = m.onWorld o.run := by
  let place (c : Context) : Context := { c with locals := m.localsAt depth }
  have hoff : OffWorld place := ⟨fun _ => rfl, fun _ => rfl, fun _ _ => rfl⟩
  have hrun : o.run (place (m.context none)) = mapContext place (o.run (m.context none)) :=
    Operation.run_commutes_of_onWorld hoff ho (m.context none)
  have hworld := Operation.left_world (Operation.keepsStack_of_onWorld ho) (m.context none)
  have hover (w : World) : m.takeOver depth (place { m.context none with world := w }) = { m with world := w } :=
    takeOver_world hd w
  unfold onWorld
  cases hr : o.run (m.context none) with
  | ok v c =>
    rw [hr] at hrun hworld
    rw [evaluate_ok hrun, show c = _ from hworld, hover]
  | error e c =>
    rw [hr] at hrun hworld
    rw [evaluate_error hrun, show c = _ from hworld, hover]

end TakeOver

end Machine

open Machine

variable {m : Machine} {depth : Nat}

theorem Eval.resolve_some {c : Context} {name : String} {v : Value} (h : c.lookup? name = some v) :
    resolve name c = .ok v c := by
  have hget : (get : Eval Context) c = .ok c c := rfl
  rw [resolve, bind_ok hget, h]
  rfl

theorem Eval.resolve_none {c : Context} {name : String} (h : c.lookup? name = none) :
    resolve name c = .error (.notDefined name) c := by
  have hget : (get : Eval Context) c = .ok c c := rfl
  rw [resolve, bind_ok hget, h]
  rfl

/-- **Operations** may keep the depth of their frame in place of its scope. -/
theorem Operation.evaluate_run (o : Operation) (hd : depth ≤ m.stack.depth) :
    m.evaluate depth o.run = o.runAt depth m := by
  have hsame : m.takeOver depth (m.context (m.localsAt depth)) = m := takeOver_world hd m.world
  have hok {v : Value} {c : Context} {n : Machine} (hr : o.run (m.context (m.localsAt depth)) = .ok v c)
      (hn : m.takeOver depth c = n) : m.evaluate depth o.run = (.ok v, n) := by rw [evaluate_ok hr, hn]
  cases o with
  | resolve name =>
    rw [runAt, lookupAt?_eq]
    cases hv : (m.context (m.localsAt depth)).lookup? name with
    | some v => exact hok (resolve_some hv) hsame
    | none => exact (evaluate_error (resolve_none hv)).trans (congrArg (Prod.mk _) hsame)
  | typeName name =>
    rw [runAt, lookupAt?_eq]
    exact hok rfl hsame
  | assign name v => exact hok rfl (takeOver_assign hd name v)
  | declare name kind v message => exact hok rfl (takeOver_declare (m := m.log .binding message) hd name kind v)
  | call f args name =>
    cases f with
    | func fn => exact hok rfl (takeOver_pushCall hd fn args)
    | _ => exact evaluate_onWorld hd rfl
  | _ => exact evaluate_onWorld hd rfl

/-- **Plans**: to run in the frame at a depth is to look this frame up in each operation. -/
theorem Plan.evaluate_run {α : Type} (p : Plan α) (hd : depth ≤ m.stack.depth) :
    m.evaluate depth p.run = p.runAt depth m := by
  induction p generalizing m with
  | done a => exact congrArg (Prod.mk _) (takeOver_world hd m.world)
  | first o rest ih =>
    have htries : Tries o.run (once o).tried := run_once o ▸ (once o).run_tries
    have hstep := o.evaluate_run hd
    have hn : depth ≤ (m.evaluate depth o.run).2.stack.depth := by
      rw [evaluate_machine, depth_takeOver]
      omega
    rw [runAt, ← hstep, run]
    cases hr : m.evaluate depth o.run with
    | mk r n =>
      rw [hr] at hn
      cases r with
      | error e => exact evaluate_bind_error hr
      | ok v =>
        rw [evaluate_bind htries (fun v => (rest v).run_tries) hd hr]
        exact ih v hn

end Stepwise
