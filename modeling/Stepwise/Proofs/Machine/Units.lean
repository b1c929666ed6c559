import Stepwise.Proofs.Machine.Keeps
import Stepwise.Proofs.Machine.Reference

/-!
# Units in their activation

* **What a unit leaves alone**: the line it stands on and whether there is a local scope. The calls that it makes have
  not started, and none of them handles an event (`Context.Proper`).
* **What a unit does** is what the reference says it does, followed by a choice of the work that comes next
  (`run_plain`, `run_ifElse`, …).
* **Which unit is next** in a queue does not depend on blocks and empty statements (`takeUnit?_block`).
-/

namespace Stepwise

/-! ## What a unit leaves alone -/

/-- A call that has not started and was not made for an event. -/
def Activation.IsFresh (a : Activation) : Prop := ∃ scope body name, a = ⟨⟨scope, [.stmt body]⟩, name, none⟩

/-- A context in the middle of a unit on the given line; `inCall` says that there is a local scope. -/
structure Context.Proper (scoping : Scoping) (line : Option Nat) (inCall : Bool) (c : Context) : Prop where
  scoping_eq : c.scoping = scoping
  line_eq : c.line = line
  locals_isSome : c.locals.isSome = inCall
  fresh : ∀ a ∈ c.pushed, a.IsFresh

open Eval

section Proper

variable {scoping : Scoping} {line : Option Nat} {inCall : Bool}

theorem Context.Proper.of_world {c : Context} (w : World) (h : c.Proper scoping line inCall) :
    Context.Proper scoping line inCall { c with world := w } := ⟨h.1, h.2, h.3, h.4⟩

theorem Context.Proper.declare {c : Context} {name : String} {kind : BindingKind} {v : Value}
    (h : c.Proper scoping line inCall) : (c.declare name kind v).Proper scoping line inCall := by
  obtain ⟨hs, hl, hi, hf⟩ := h
  unfold Context.declare
  split
  · rename_i heq; exact ⟨hs, hl, by rwa [heq] at hi, hf⟩
  · exact ⟨hs, hl, hi, hf⟩

theorem Context.Proper.assign {c : Context} {name : String} {v : Value} (h : c.Proper scoping line inCall) :
    (c.assign name v).Proper scoping line inCall := by
  obtain ⟨hs, hl, hi, hf⟩ := h
  unfold Context.assign
  split
  · rename_i heq
    split
    · exact ⟨hs, hl, by rwa [heq] at hi, hf⟩
    · exact ⟨hs, hl, hi, hf⟩
  · exact ⟨hs, hl, hi, hf⟩

theorem Context.proper_closedScopes : ClosedScopes (Context.Proper scoping line inCall) where
  world w h := h.of_world w
  assign h := h.assign
  declare h := h.declare
  push h := ⟨h.1, h.2, h.3, by simpa [Context.pushCall] using ⟨⟨_, _, _, rfl⟩, h.4⟩⟩

theorem Context.proper_closed : Closed (Context.Proper scoping line inCall) (fun _ => True) fun _ => True :=
  proper_closedScopes.closed

/-- A unit starts in a proper context. -/
theorem Store.context_proper (s : Store) (scoping : Scoping) (l : Option Scope) (span : Span) :
    (s.context scoping l span).Proper scoping (some span.line) l.isSome := ⟨rfl, rfl, rfl, by simp [Store.context]⟩

/-- A unit leaves a proper context. -/
theorem Work.run_proper {w : Work} {s : Store} {l : Option Scope} {span : Span} {o : Outcome} {c : Context}
    (h : w.run (s.context scoping l span) = .ok o c) : c.Proper scoping (some span.line) l.isSome :=
  ((w.run_keeps Context.proper_closed 0 fun _ _ => trivial).of_ok (s.context_proper scoping l span) h).1

end Proper

/-! ## What a unit does -/

theorem Eval.bind_pure_apply {α β : Type} (act : Eval α) (f : α → β) (c : Context) :
    (act >>= fun a => pure (f a)) c = match act c with
      | .ok a d => .ok (f a) d
      | .error e d => .error e d := by
  cases h : act c with
  | ok a d => exact Eval.bind_ok h
  | error e d => exact Eval.bind_error h

theorem run_plain {s : Stmt} (h : s.isPlain) : (Work.stmt s).run = s.effect >>= fun _ => pure (.next []) := by
  cases s with
  | declare _ _ _ | function _ | expr _ _ | unsupported _ _ => simp [Work.run, Stmt.run, Stmt.effect]
  | _ => cases h

theorem run_ifElse (test : Expr) (thenS : Stmt) (elseS : Option Stmt) (span : Span) :
    (Work.stmt (.ifElse test thenS elseS span)).run =
      test.eval >>= fun v => pure (.next ((if v.truthy then [thenS] else elseS.toList).map Work.stmt)) := by
  simp only [Work.run, Stmt.run]
  congr 1
  funext v
  cases v.truthy <;> cases elseS <;> rfl

theorem run_for (init : Option ForInit) (test update : Option Expr) (body : Stmt) (span : Span) :
    (Work.stmt (.for init test update body span)).run = enterLoop init test >>= fun b =>
      pure (.next (if b then loopRound (.for init test update body span) else [])) := by
  simp only [Work.run, Stmt.run, enterLoop, bind_assoc]
  congr 1
  funext _
  congr 1
  funext b
  cases b <;> rfl

theorem run_loopCheck (init : Option ForInit) (test update : Option Expr) (body : Stmt) (span : Span) :
    (Work.loopCheck (.for init test update body span)).run = loopTest test >>= fun b =>
      pure (.next (if b then loopRound (.for init test update body span) else [])) := by
  simp only [Work.run]
  congr 1
  funext b
  cases b <;> rfl

theorem run_loopUpdate (e : Expr) : (Work.loopUpdate e).run = e.eval >>= fun _ => pure (.next []) := rfl

theorem run_ret (value : Option Expr) (span : Span) :
    (Work.stmt (.ret value span)).run = evalOption value >>= fun v => pure (.leave v) := rfl

/-- The tests of a loop after the first stand where the test stands. -/
theorem span_loopCheck (init : Option ForInit) (test update : Option Expr) (body : Stmt) (span : Span) :
    (Work.loopCheck (.for init test update body span)).span = testSpan test span := by cases test <;> rfl

/-! ## Which unit is next -/

theorem takeUnit?_visible {w : Work} (h : w.transparent = false) (queue : List Work) :
    takeUnit? (w :: queue) = some (w, queue) := by
  cases w with
  | stmt s =>
    cases s with
    | block _ _ | empty _ => cases h
    | _ => rfl
  | _ => rfl

/-- A block stands for its statements. -/
theorem takeUnit?_block (body : List Stmt) (span : Span) (queue : List Work) :
    takeUnit? (.stmt (.block body span) :: queue) = takeUnit? (body.map Work.stmt ++ queue) := by
  induction body with
  | nil => rfl
  | cons s body ih =>
    rw [List.map_cons, List.cons_append, takeUnit?, takeUnit?, Stmt.firstUnit?, Stmt.firstUnitOf?]
    cases hs : s.firstUnit? with
    | none => exact ih
    | some u => simp

theorem Stmt.transparent_of_isPlain {s : Stmt} (h : s.isPlain) : (Work.stmt s).transparent = false := by
  cases s with
  | block _ _ | empty _ => cases h
  | _ => rfl

end Stepwise
