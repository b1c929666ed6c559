import Stepwise.Proofs.Machine.Keeps

/-!
# Operations that a computation tries

`Work.tried` lists the elementary operations that a unit comes to, first to last, each in the context that it finds. Two
things can be read off this list.

* **The calls on the stack**: `c.Follows tried d` says that between `c` and `d` one call was put on the stack for each
  function of the script that was called, in this order, and that no entry of the logs in between marks the end of a call.
* **The error**: `Explains tried r` says that a result without an error has no operation that failed, and that the error
  of any other is that of the last operation, which is the only one that failed.

**`Work.run_tries`** says both of units, and **`Expr.eval_tries`** of expressions. Besides, a computation does the same
whatever calls were made before it.
-/

namespace Stepwise

open Eval

namespace Trial

def error? (t : Trial) : Option RuntimeError :=
  match t.operation.run t.context with
  | .ok _ _ => none
  | .error e _ => some e

/-- The function of the script that the operation calls. -/
def function? (t : Trial) : Option FunctionDef :=
  match t.operation with
  | .call (.func fn) _ _ => some fn
  | _ => none

end Trial

/-- The operations of an evaluation. -/
def Expr.tried (e : Expr) : Context → List Trial := e.plan.tried

/-- The operations of a unit. -/
def Work.tried (w : Work) : Context → List Trial := w.plan.tried

/-! ## Entries that mark the end of a call -/

namespace LogEntry

/-- The entry reads as the note that an event was handled. -/
def isCompletion (x : LogEntry) : Bool := x.kind == .event && "Finished handling ".toList.isPrefixOf x.message.toList

/-- The entry reads as one that is made when a call is left. -/
def marksEnd (x : LogEntry) : Bool := x.kind == .ret || x.isCompletion

theorem isCompletion_note (note : EventNote) (line : Option Nat) : isCompletion ⟨.event, note.message, line⟩ = true := by
  have h : "Finished handling ".toList <+: note.message.toList := by
    unfold EventNote.message
    simp only [String.toList_append, List.append_assoc]
    exact ⟨_, rfl⟩
  exact List.isPrefixOf_iff_prefix.2 h

theorem marksEnd_listening (event target : String) (line : Option Nat) :
    marksEnd ⟨.event, s!"Listening for {event} events on {target}", line⟩ = false := by
  have h : "Finished handling ".toList.isPrefixOf (s!"Listening for {event} events on {target}").toList = false := by
    simp only [toString, String.toList_append, List.append_assoc]
    rfl
  exact h

theorem marksEnd_of_kind {x : LogEntry} (hr : x.kind ≠ .ret) (he : x.kind ≠ .event) : x.marksEnd = false := by
  simp [marksEnd, isCompletion, hr, he]

end LogEntry

/-! ## What an evaluation leaves behind -/

/-- Name, work and event of a call, without its scope. -/
def Activation.profile (a : Activation) : Option String × List Work × Option EventNote := (some a.name, a.queue, a.handling)

/-- A call of the function that has not started and handles no event. -/
def FunctionDef.profile (fn : FunctionDef) : Option String × List Work × Option EventNote :=
  (some fn.displayName, [.stmt fn.body], none)

/-- Entries were added to the logs, and none of them marks the end of a call. -/
def World.LogsOn (w w' : World) : Prop :=
  ∃ entries : List LogEntry, w'.logs = w.logs ++ entries ∧ ∀ x ∈ entries, x.marksEnd = false

namespace World.LogsOn

variable {w w' w'' : World}

theorem of_eq (h : w'.logs = w.logs) : w.LogsOn w' := ⟨[], by simp [h], by simp⟩

theorem log (w : World) {entry : LogEntry} (h : entry.marksEnd = false) : w.LogsOn (w.log entry) :=
  ⟨[entry], rfl, by simpa using h⟩

theorem trans (h : w.LogsOn w') (h' : w'.LogsOn w'') : w.LogsOn w'' := by
  obtain ⟨entries, he, hm⟩ := h
  obtain ⟨more, hmore, hm'⟩ := h'
  exact ⟨entries ++ more, by rw [hmore, he, List.append_assoc], List.forall_mem_append.2 ⟨hm, hm'⟩⟩

end World.LogsOn

/-- The context `d` comes after `c`, with the operations in between. -/
structure Context.Follows (tried : List Trial) (c d : Context) : Prop where
  scoping : d.scoping = c.scoping
  line : d.line = c.line
  locals : d.locals.isSome = c.locals.isSome
  /-- The calls that were made, latest first. -/
  pushed : ∃ calls, d.pushed = calls ++ c.pushed ∧
    calls.reverse.map Activation.profile = (tried.filterMap Trial.function?).map FunctionDef.profile
  logs : c.world.LogsOn d.world

namespace Context.Follows

variable {tried more : List Trial} {c d e : Context}

theorem of_world {w : World} (hw : c.world.LogsOn w) : c.Follows [] { c with world := w } :=
  ⟨rfl, rfl, rfl, ⟨[], rfl, rfl⟩, hw⟩

theorem refl (c : Context) : c.Follows [] c := of_world (.of_eq rfl)

theorem trans (h : c.Follows tried d) (h' : d.Follows more e) : c.Follows (tried ++ more) e where
  scoping := h'.scoping.trans h.scoping
  line := h'.line.trans h.line
  locals := h'.locals.trans h.locals
  pushed := by
    obtain ⟨calls, hc, ho⟩ := h.pushed
    obtain ⟨calls', hc', ho'⟩ := h'.pushed
    refine ⟨calls' ++ calls, by rw [hc', hc, List.append_assoc], ?_⟩
    rw [List.reverse_append, List.map_append, ho, ho', List.filterMap_append, List.map_append]
  logs := h.logs.trans h'.logs

/-- An operation that calls no function of the script makes no call. -/
theorem quiet {t : Trial} (ht : t.function? = none) (h : c.Follows [] d) : c.Follows [t] d :=
  ⟨h.scoping, h.line, h.locals, by simpa [ht] using h.pushed, h.logs⟩

theorem assign (c : Context) (name : String) (v : Value) : c.Follows [] (c.assign name v) := by
  unfold Context.assign
  split
  · rename_i s hs
    split
    · exact ⟨rfl, rfl, by rw [hs]; rfl, ⟨[], rfl, rfl⟩, .of_eq rfl⟩
    · exact ⟨rfl, rfl, rfl, ⟨[], rfl, rfl⟩, .of_eq rfl⟩
  · exact ⟨rfl, rfl, rfl, ⟨[], rfl, rfl⟩, .of_eq rfl⟩

theorem declare (c : Context) (name : String) (kind : BindingKind) (v : Value) :
    c.Follows [] (c.declare name kind v) := by
  unfold Context.declare
  split
  · rename_i s hs
    exact ⟨rfl, rfl, by rw [hs]; rfl, ⟨[], rfl, rfl⟩, .of_eq rfl⟩
  · exact ⟨rfl, rfl, rfl, ⟨[], rfl, rfl⟩, .of_eq rfl⟩

theorem log (c : Context) {kind : LogKind} (hr : kind ≠ .ret) (he : kind ≠ .event) (message : String) :
    c.Follows [] (c.log kind message) := of_world (.log c.world (LogEntry.marksEnd_of_kind hr he))

/-- A call of a function of the script is put on the stack. -/
theorem pushCall (c : Context) (fn : FunctionDef) (args : List Value) (name : String) :
    c.Follows [⟨.call (.func fn) args name, c⟩] (c.pushCall fn args none) :=
  ⟨rfl, rfl, rfl, ⟨[_], rfl, rfl⟩, .of_eq rfl⟩

/-- What is written to a member goes to the document. -/
theorem writeMember {o : Value} {key : String} {v : Value} (h : c.writeMember o key v = .ok d) : c.Follows [] d := by
  obtain ⟨_, _, _, -, -, -, rfl⟩ := Context.writeMember_ok h
  exact of_world (.of_eq rfl)

end Context.Follows

/-! ## Calls that were made before -/

namespace Context

/-- The context with calls below those that were made. -/
def above (c : Context) (low : List Activation) : Context := { c with pushed := c.pushed ++ low }

section Above

variable (low : List Activation) (c : Context)

theorem assign_above (name : String) (v : Value) : (c.above low).assign name v = (c.assign name v).above low := by
  obtain ⟨scoping, line, globals, locals, pushed, world⟩ := c
  cases locals with
  | none => rfl
  | some s =>
    simp only [assign, above]
    split <;> rfl

theorem declare_above (name : String) (kind : BindingKind) (v : Value) :
    (c.above low).declare name kind v = (c.declare name kind v).above low := by
  obtain ⟨scoping, line, globals, locals, pushed, world⟩ := c
  cases locals <;> rfl

theorem pushCall_above (fn : FunctionDef) (args : List Value) (handling : Option EventNote) :
    (c.above low).pushCall fn args handling = (c.pushCall fn args handling).above low := rfl

theorem offWorld_above : OffWorld (·.above low) := ⟨fun _ => rfl, fun _ => rfl, fun _ _ => rfl⟩

end Above

end Context

/-- **Operations** do the same whatever calls were made before. -/
theorem Operation.run_above (o : Operation) (low : List Activation) : Commutes (·.above low) o.run := by
  cases ho : o.keepsStack with
  | true => exact o.run_commutes (Context.offWorld_above low) (fun _ _ => rfl) ho
  | false =>
    cases o with
    | assign name v => exact (Commutes.modify fun c => c.assign_above low name v).bind fun _ => .pure _
    | declare name kind v message =>
      refine (log_commutes (Context.offWorld_above low) _ _).bind fun _ => ?_
      exact (Commutes.modify fun c => c.declare_above low name kind v).bind fun _ => .pure _
    | call f args name =>
      cases f with
      | func fn => exact (Commutes.modify fun c => c.pushCall_above low fn args none).bind fun _ => .pure _
      | _ => cases ho
    | _ => cases ho

/-- Built-in functions make no call, and no entry that they log marks the end of one. -/
theorem callBuiltin_follows (fn : Builtin) (receiver : Option Value) (args : List Value) (c : Context) :
    c.Follows [] (left (callBuiltin fn receiver args c)) := by
  have hpage : ClosedPage (c.Follows [] ·) fun _ => True :=
    { plain := fun _ _ => trivial
      element := fun _ _ _ => trivial
      elements := fun _ _ _ => trivial
      console := fun hd => hd.trans (.log _ (by decide) (by decide) _)
      member := fun hd _ _ => ⟨trivial, hd.trans (.of_world (.of_eq rfl))⟩
      called := fun hd _ _ => ⟨trivial, hd.trans (.of_world (.of_eq rfl))⟩ }
  have hlisten : Keeps (c.Follows [] ·) (Eval.listen receiver args) fun _ => True := by
    intro d hd
    rcases Eval.listen_cases receiver args d with ⟨e, he⟩ | ⟨target, -, he⟩ <;> rw [he]
    · exact hd
    · refine ⟨hd.trans (.of_world ⟨[_], rfl, ?_⟩), trivial⟩
      exact List.forall_mem_singleton.2 (LogEntry.marksEnd_listening _ _ _)
  exact (hpage.callBuiltin_keeps fun _ => hlisten).of_left (.refl c)

/-- **Operations** put a call on the stack if they call a function of the script. -/
theorem Operation.run_follows (o : Operation) (c : Context) : c.Follows [⟨o, c⟩] (left (o.run c)) := by
  have hquiet {α : Type} {act : Eval α} (h : Keeps (c.Follows [] ·) act fun _ => True) : c.Follows [] (left (act c)) :=
    h.of_left (.refl c)
  cases o with
  | resolve name => exact .quiet rfl (hquiet (resolve_keeps fun _ _ => trivial))
  | typeName name => exact .quiet rfl (.refl c)
  | assign name v => exact .quiet rfl (.assign c name v)
  | read o key => exact .quiet rfl (hquiet (readMember_keeps fun _ _ => trivial))
  | write o key v =>
    refine .quiet rfl (hquiet (Keeps.bind (writeMember_keeps fun hd hw => ?_) fun _ _ => Keeps.pure trivial))
    exact hd.trans (.writeMember hw)
  | call f args name =>
    cases f with
    | func fn => exact .pushCall c fn args name
    | builtin fn receiver => exact .quiet rfl (callBuiltin_follows fn receiver args c)
    | _ => exact .quiet rfl (.refl c)
  | reject target => exact .quiet rfl (.refl c)
  | skip message => exact .quiet rfl (.log c (by decide) (by decide) message)
  | declare name kind v message =>
    exact .quiet rfl ((Context.Follows.log c (by decide) (by decide) message).trans (.declare _ name kind v))

/-! ## What becomes of the operations -/

/-- Without an error all operations succeeded. An error is that of the last operation, all operations before it succeeded,
and nothing was done after it. -/
def Explains {α : Type} (tried : List Trial) : EStateM.Result RuntimeError Context α → Prop
  | .ok _ _ => ∀ t ∈ tried, t.error? = none
  | .error e d => ∃ before last, tried = before ++ [last] ∧ (∀ t ∈ before, t.error? = none) ∧
      last.operation.run last.context = .error e d

/-- The error is the first one that any of the operations raised. -/
theorem Explains.first_error {α : Type} {tried : List Trial} {act : Eval α} {c d : Context} {e : RuntimeError}
    (h : Explains tried (act c)) (hr : act c = .error e d) : tried.findSome? Trial.error? = some e := by
  rw [hr] at h
  obtain ⟨before, last, rfl, hbefore, hlast⟩ := h
  have hsome : last.error? = some e := by rw [Trial.error?, hlast]
  have hnone : before.findSome? Trial.error? = none := List.findSome?_eq_none_iff.2 hbefore
  rw [List.findSome?_append, hnone, List.findSome?_cons, hsome]
  rfl

/-- **Plans** explain their errors. -/
theorem Plan.run_explains {α : Type} (p : Plan α) (c : Context) : Explains (p.tried c) (p.run c) := by
  induction p generalizing c with
  | done a => exact fun t ht => by cases ht
  | first o rest ih =>
    cases hr : o.run c with
    | error e d =>
      rw [tried_first_error hr, run_first_error hr]
      exact ⟨[], ⟨o, c⟩, rfl, by simp, hr⟩
    | ok v d =>
      have hnone : Trial.error? ⟨o, c⟩ = none := by
        unfold Trial.error?
        rw [hr]
      have hrest := ih v d
      rw [tried_first_ok hr, run_first_ok hr]
      cases hs : (rest v).run d with
      | ok b d' =>
        rw [hs] at hrest
        exact List.forall_mem_cons.2 ⟨hnone, hrest⟩
      | error e d' =>
        rw [hs] at hrest
        obtain ⟨before, last, hm, hbefore, hlast⟩ := hrest
        exact ⟨⟨o, c⟩ :: before, last, by rw [hm, List.cons_append], List.forall_mem_cons.2 ⟨hnone, hbefore⟩, hlast⟩

/-- `trials` are the operations of `act`. -/
structure Eval.Tries {α : Type} (act : Eval α) (trials : Context → List Trial) : Prop where
  follows : ∀ c : Context, c.Follows (trials c) (left (act c))
  explains : ∀ c : Context, Explains (trials c) (act c)
  /-- The computation does the same whatever calls were made before it. -/
  above : ∀ low : List Activation, Commutes (·.above low) act

theorem Plan.run_tries {α : Type} (p : Plan α) : Tries p.run p.tried where
  follows c := p.run_chain (R := fun c ts d => c.Follows ts d) .refl .trans Operation.run_follows c
  explains c := p.run_explains c
  above low _ :=
    (p.run_commutes (P := fun _ => True) (A := fun _ => True) (fun o c _ _ => ⟨o.run_above low c, trivial⟩) trivial
      fun _ _ => trivial).1

/-- **Expressions** try the operations of their list. -/
theorem Expr.eval_tries (e : Expr) : Tries e.eval e.tried := e.run_plan ▸ e.plan.run_tries

/-- **Units** try the operations of their list. -/
theorem Work.run_tries (w : Work) : Tries w.run w.tried := w.run_plan ▸ w.plan.run_tries

end Stepwise
