import Stepwise.Proofs.Machine.Keeps
import Stepwise.Proofs.Machine.Scopes

/-!
# Writes to the global scope

`Work.writes` lists the declarations of global names and the assignments to them that a unit makes, in their order, and
whether there was a call on the stack at each. `c.copied` is the context `c` of chained scoping in which each call has a
copy of the global scope below its own variables.

**`Work.run_recorded`** says three things about a unit and its record:

* the global scope that the unit leaves is the one that it found with all writes of the record made to it, so the record
  misses no write;
* where there is a call at the start, there is one at every write;
* if no write is made while there is a call on the stack, the unit does to `c.copied` what it does to `c`.

Each of the three is known of a unit as soon as it is known of the elementary operations (`Operation.run_recorded`).
-/

namespace Stepwise

/-! ## Records -/

/-- A declaration of a global name, or an assignment to one. -/
structure GlobalWrite where
  name : String
  /-- How the name is declared; none for an assignment. -/
  kind : Option BindingKind
  value : Value
  /-- Whether there is a call on the stack at that moment. -/
  inCall : Bool

def GlobalWrite.apply (s : Scope) (w : GlobalWrite) : Scope :=
  match w.kind with
  | some kind => s.declare w.name kind w.value
  | none => s.assign w.name w.value

/-- The scope after writes, first to last. -/
def replay (writes : List GlobalWrite) (s : Scope) : Scope := writes.foldl GlobalWrite.apply s

theorem replay_append (writes more : List GlobalWrite) (s : Scope) :
    replay (writes ++ more) s = replay more (replay writes s) := List.foldl_append

/-- All writes are made while there is no call on the stack. -/
def OutsideCalls (writes : List GlobalWrite) : Prop := ∀ w ∈ writes, w.inCall = false

namespace Context

/-- Whether there is a call on the stack: the one that is evaluated in, or one that was made. -/
def inCall (c : Context) : Bool := c.locals.isSome || ! c.pushed.isEmpty

def assignWrites (c : Context) (name : String) (v : Value) : List GlobalWrite :=
  match c.locals with
  | some s => if s.has name then [] else [⟨name, none, v, c.inCall⟩]
  | none => [⟨name, none, v, c.inCall⟩]

def declareWrites (c : Context) (name : String) (kind : BindingKind) (v : Value) : List GlobalWrite :=
  match c.locals with
  | some _ => []
  | none => [⟨name, some kind, v, c.inCall⟩]

end Context

/-- The global writes of an operation. -/
def Trial.writes (t : Trial) : List GlobalWrite :=
  match t.operation with
  | .assign name v => t.context.assignWrites name v
  | .declare name kind v _ => t.context.declareWrites name kind v
  | _ => []

/-- The global writes of a unit. -/
def Work.writes (w : Work) (c : Context) : List GlobalWrite := (w.plan.tried c).flatMap Trial.writes

open Eval Context

/-! ## Copies of the global scope -/

/-- The call with a copy of the global scope below its own variables. -/
def Activation.copied (globals : Scope) (a : Activation) : Activation := { a with scope := a.scope.laidOver globals }

namespace Context

/-- The context with calls that have copies of the global scope. -/
def copied (c : Context) : Context :=
  { c with
    scoping := .snapshot
    locals := c.locals.map (·.laidOver c.globals)
    pushed := c.pushed.map (Activation.copied c.globals) }

/-- Calls start with their parameters only, and declare all names that they bind. -/
structure Chained (c : Context) : Prop where
  scoping : c.scoping = .chained
  locals : ∀ s, c.locals = some s → s.Noted
  pushed : ∀ a ∈ c.pushed, a.scope.Noted

/-- Names have the same values. -/
theorem lookup?_copied (c : Context) (name : String) : c.copied.lookup? name = c.lookup? name := by
  obtain ⟨scoping, line, globals, locals, pushed, world⟩ := c
  cases locals with
  | none => rfl
  | some s =>
    simp only [lookup?, copied, Option.map_some, Option.bind_some, Scope.get?_laidOver]
    cases s.get? name with
    | some v => rfl
    | none =>
      rw [Option.none_or]
      cases globals.get? name <;> rfl

end Context

theorem Context.offWorld_copied : OffWorld Context.copied := ⟨fun _ => rfl, fun _ => rfl, fun _ _ => rfl⟩

namespace Eval

/-- `writes` is the record of the computation `act`. -/
structure Recorded {α : Type} (act : Eval α) (writes : Context → List GlobalWrite) : Prop where
  /-- The record misses no write. -/
  replayed : ∀ c, (left (act c)).globals = replay (writes c) c.globals
  inCall : ∀ c, c.inCall = true → (left (act c)).inCall = true ∧ ∀ w ∈ writes c, w.inCall = true
  copied : ∀ c, c.Chained → OutsideCalls (writes c) →
    act c.copied = mapContext Context.copied (act c) ∧ (left (act c)).Chained

/-! ## Rules -/

section Rules

variable {α β : Type} {act : Eval α} {f : α → Eval β} {ws : Context → List GlobalWrite} {c : Context}

/-- In a call, a computation whose writes are made outside of calls makes none. -/
theorem Recorded.globals_eq (h : Recorded act ws) (hin : c.inCall = true) (ho : OutsideCalls (ws c)) :
    (left (act c)).globals = c.globals := by
  have hnil : ws c = [] := by
    refine List.eq_nil_iff_forall_not_mem.2 fun w hw => ?_
    have hcontra := (h.inCall c hin).2 w hw
    rw [ho w hw] at hcontra
    cases hcontra
  rw [h.replayed c, hnil]
  rfl

/-- What changes nothing but the world makes no writes. -/
theorem recorded_world (hw : ∀ c, left (act c) = { c with world := (left (act c)).world })
    (hc : Commutes Context.copied act) : Recorded act fun _ => [] where
  replayed c := by
    rw [hw c]
    rfl
  inCall c hin := by
    rw [hw c]
    exact ⟨hin, by simp⟩
  copied c hchained _ := by
    refine ⟨hc c, ?_⟩
    rw [hw c]
    exact ⟨hchained.scoping, hchained.locals, hchained.pushed⟩

theorem Recorded.pure (a : α) : Recorded (Pure.pure a) fun _ => [] := recorded_world (fun _ => rfl) (.pure a)

/-- What follows makes no writes. -/
theorem Recorded.bind (h : Recorded act ws) (hf : ∀ a, Recorded (f a) fun _ => []) : Recorded (act >>= f) ws where
  replayed c := by
    have hr := h.replayed c
    cases hc : act c with
    | error e d => rw [hc] at hr; rw [bind_error hc]; exact hr
    | ok a d => rw [hc] at hr; rw [bind_ok hc, (hf a).replayed d]; exact hr
  inCall c hin := by
    obtain ⟨hd, hw⟩ := h.inCall c hin
    refine ⟨?_, hw⟩
    cases hc : act c with
    | error e d => rw [hc] at hd; rw [bind_error hc]; exact hd
    | ok a d => rw [hc] at hd; rw [bind_ok hc]; exact ((hf a).inCall d hd).1
  copied c hchained hw := by
    obtain ⟨heq, hd⟩ := h.copied c hchained hw
    cases hc : act c with
    | error e d =>
      rw [hc] at heq hd
      rw [bind_error heq, bind_error hc]
      exact ⟨rfl, hd⟩
    | ok a d =>
      -- The first computation leaves a copy, so that what follows starts in one too.
      rw [hc] at heq hd
      rw [bind_ok heq, bind_ok hc]
      exact (hf a).copied d hd fun _ hu => by cases hu

/-- An entry of the logs comes first. -/
theorem Recorded.log_bind {kind : LogKind} {message : String} (h : Recorded act ws)
    (hw : ∀ c : Context, ws (c.log kind message) = ws c) : Recorded (do Eval.log kind message; act) ws where
  replayed c := (h.replayed (c.log kind message)).trans (by rw [hw]; rfl)
  inCall c hin := hw c ▸ h.inCall (c.log kind message) hin
  copied c hc ho := h.copied (c.log kind message) ⟨hc.scoping, hc.locals, hc.pushed⟩ (by rwa [hw])

theorem recorded_modify {f : Context → Context} (hr : ∀ c, (f c).globals = replay (ws c) c.globals)
    (hin : ∀ c, c.inCall = true → (f c).inCall = true ∧ ∀ w ∈ ws c, w.inCall = true)
    (hc : ∀ c, c.Chained → OutsideCalls (ws c) → f c.copied = (f c).copied ∧ (f c).Chained) :
    Recorded (modify f) ws where
  replayed := hr
  inCall := hin
  copied c hchained hw := by
    obtain ⟨he, hd⟩ := hc c hchained hw
    exact ⟨congrArg (EStateM.Result.ok ()) he, hd⟩

end Rules

/-! ## Scopes and calls -/

section Scopes

variable {c : Context}

theorem not_inCall (h : c.inCall = false) : c.locals = none ∧ c.pushed = [] := by
  unfold Context.inCall at h
  cases hl : c.locals <;> cases hp : c.pushed <;> simp_all

/-- Without calls there are no copies that a global write could make wrong. -/
theorem copied_withGlobals (h : c.inCall = false) (globals : Scope) :
    { c.copied with globals } = ({ c with globals } : Context).copied := by
  obtain ⟨hl, hp⟩ := not_inCall h
  simp only [Context.copied, hl, hp, Option.map_none, List.map_nil]

/-- `f` changes the scope of the call, which is not recorded, or it is a global write, which is. -/
inductive Writes (f : Context → Context) (ws : Context → List GlobalWrite) (c : Context) : Prop where
  | own (t : Scope) (record : ws c = []) (eq : f c = { c with locals := some t })
      (copied : c.Chained → f c.copied = { c.copied with locals := some (t.laidOver c.globals) } ∧ t.Noted)
  | shared (w : GlobalWrite) (record : ws c = [w]) (inCall : w.inCall = c.inCall)
      (eq : f c = { c with globals := w.apply c.globals })
      (copied : c.inCall = false → f c.copied = { c.copied with globals := w.apply c.globals })

theorem recorded_write {f : Context → Context} {ws : Context → List GlobalWrite} (h : ∀ c, Writes f ws c) :
    Recorded (modify f) ws := by
  refine recorded_modify (fun c => ?_) (fun c hin => ?_) fun c hc hw => ?_
  · cases h c with
    | own t hws hf _ => rw [hws, hf]; rfl
    | shared w hws _ hf _ => rw [hws, hf]; rfl
  · cases h c with
    | own t hws hf _ => rw [hws, hf]; exact ⟨rfl, by simp⟩
    | shared w hws hwin hf _ => rw [hws, hf]; exact ⟨hin, by simpa [hwin] using hin⟩
  · cases h c with
    | own t hws hf hcopied =>
      obtain ⟨hcopied, ht⟩ := hcopied hc
      rw [hf, hcopied]
      exact ⟨rfl, hc.scoping, by rintro _ ⟨⟩; exact ht, hc.pushed⟩
    | shared w hws hwin hf hcopied =>
      rw [hws] at hw
      have hin : c.inCall = false := hwin.symm.trans (hw w List.mem_cons_self)
      rw [hf, hcopied hin]
      exact ⟨copied_withGlobals hin _, hc.scoping, hc.locals, hc.pushed⟩

theorem copied_locals {s : Scope} (h : c.locals = some s) : c.copied.locals = some (s.laidOver c.globals) := by
  simp only [Context.copied, h, Option.map_some]

theorem assign_recorded (name : String) (v : Value) : Recorded (assign name v) (·.assignWrites name v) := by
  refine recorded_write fun c => ?_
  cases hl : c.locals with
  | none =>
    have hl' : c.copied.locals = none := by simp only [Context.copied, hl, Option.map_none]
    exact .shared ⟨name, none, v, c.inCall⟩ (by simp only [assignWrites, hl]) rfl (Context.assign_global (by simp [hl]) v)
      fun _ => Context.assign_global (by simp [hl']) v
  | some s =>
    cases hn : s.has name with
    | true =>
      refine .own (s.assign name v) (by simp only [assignWrites, hl, hn, ↓reduceIte]) (Context.assign_local hl hn v)
        fun hc => ⟨?_, (hc.locals s hl).assign hn v⟩
      rw [Scope.laidOver_assign (hc.locals s hl) hn]
      exact Context.assign_local (copied_locals hl) (Scope.has_laidOver hn _) v
    | false =>
      refine .shared ⟨name, none, v, c.inCall⟩ (by simp only [assignWrites, hl, hn, Bool.false_eq_true, ↓reduceIte]) rfl
        (Context.assign_global ?_ v) fun hin => ?_
      · rintro _ hs
        cases hl.symm.trans hs
        exact hn
      · rw [(not_inCall hin).1] at hl
        cases hl

theorem declare_recorded (name : String) (kind : BindingKind) (v : Value) :
    Recorded (modify (·.declare name kind v)) (·.declareWrites name kind v) := by
  refine recorded_write fun c => ?_
  cases hl : c.locals with
  | none =>
    have hl' : c.copied.locals = none := by simp only [Context.copied, hl, Option.map_none]
    exact .shared ⟨name, some kind, v, c.inCall⟩ (by simp only [declareWrites, hl]) rfl
      (Context.declare_global hl name kind v) fun _ => Context.declare_global hl' name kind v
  | some s =>
    refine .own (s.declare name kind v) (by simp only [declareWrites, hl]) (Context.declare_local hl name kind v)
      fun hc => ⟨?_, (hc.locals s hl).declare name kind v⟩
    rw [Scope.laidOver_declare]
    exact Context.declare_local (copied_locals hl) name kind v

theorem pushCall_recorded (fn : FunctionDef) (args : List Value) (handling : Option EventNote) :
    Recorded (modify (·.pushCall fn args handling)) fun _ => [] := by
  refine recorded_modify (fun _ => rfl) (fun c _ => ⟨by simp [Context.inCall, Context.pushCall], by simp⟩)
    fun c hc _ => ?_
  have hscope : c.copied.callScope fn args = (c.callScope fn args).laidOver c.globals := by
    unfold Context.callScope
    rw [hc.scoping]
    show c.globals.bindParams fn.params args = (Scope.empty.bindParams fn.params args).laidOver c.globals
    rw [Scope.laidOver_bindParams, Scope.empty_laidOver]
  have hnoted : (c.callScope fn args).Noted := by
    unfold Context.callScope
    rw [hc.scoping]
    exact Scope.Noted.empty.bindParams fn.params args
  refine ⟨?_, hc.scoping, hc.locals, List.forall_mem_cons.2 ⟨hnoted, hc.pushed⟩⟩
  unfold Context.pushCall
  rw [hscope]
  rfl

end Scopes

/-! ## Operations -/

theorem callValue_recorded (f : Value) (args : List Value) (handling : Option EventNote) (name : String) :
    Recorded (callValue f args handling name) fun _ => [] := by
  cases f with
  | func fn => exact (pushCall_recorded fn args handling).bind fun _ => .pure _
  | builtin fn receiver =>
    exact recorded_world (callBuiltin_world fn receiver args)
      (callBuiltin_commutes Context.offWorld_copied fn receiver args)
  | _ => exact recorded_world (fun _ => rfl) (.throw _)

end Eval

/-- **Operations** make the writes of their record. -/
theorem Operation.run_recorded (o : Operation) : Recorded o.run fun c => Trial.writes ⟨o, c⟩ := by
  cases ho : o.keepsStack with
  | true =>
    have hnone : (fun c => Trial.writes ⟨o, c⟩) = fun _ => [] := by
      funext c
      cases o with
      | assign name v => cases ho
      | declare name kind v message => cases ho
      | _ => rfl
    rw [hnone]
    exact recorded_world (Operation.left_world ho) (o.run_commutes Context.offWorld_copied Context.lookup?_copied ho)
  | false =>
    cases o with
    | assign name v => exact (assign_recorded name v).bind fun _ => .pure _
    | declare name kind v message => exact ((declare_recorded name kind v).bind fun _ => .pure _).log_bind fun _ => rfl
    | call f args name => exact callValue_recorded f args none name
    | _ => cases ho

/-! ## Units and listeners -/

/-- **Plans** make the writes of their operations. -/
theorem Plan.run_recorded {α : Type} (p : Plan α) : Recorded p.run fun c => (p.tried c).flatMap Trial.writes where
  replayed c := by
    refine p.run_chain (R := fun c ts d => d.globals = replay (ts.flatMap Trial.writes) c.globals) (fun _ => rfl)
      (fun h h' => ?_) (fun o c => ?_) c
    · rw [List.flatMap_append, replay_append, ← h, h']
    · rw [List.flatMap_singleton]
      exact o.run_recorded.replayed c
  inCall c := by
    refine p.run_chain
      (R := fun c ts d => c.inCall = true → d.inCall = true ∧ ∀ w ∈ ts.flatMap Trial.writes, w.inCall = true)
      (fun _ hc => ⟨hc, by simp⟩) (fun h h' hc => ?_) (fun o c hc => ?_) c
    · obtain ⟨hd, hw⟩ := h hc
      obtain ⟨he, hw'⟩ := h' hd
      rw [List.flatMap_append]
      exact ⟨he, List.forall_mem_append.2 ⟨hw, hw'⟩⟩
    · rw [List.flatMap_singleton]
      exact o.run_recorded.inCall c hc
  copied c hc hw := by
    refine p.run_commutes (A := fun t => OutsideCalls t.writes) (fun o c hc ho => o.run_recorded.copied c hc ho) hc ?_
    exact fun t ht w hm => hw w (List.mem_flatMap.2 ⟨t, ht, hm⟩)

/-- **Units** make the writes of their record. -/
theorem Work.run_recorded (w : Work) : Recorded w.run w.writes := by
  rw [← w.run_plan]
  exact w.plan.run_recorded

/-- **Listeners** are called without a global write. -/
theorem callListeners_recorded (event : String) : ∀ listeners : List Listener,
    Recorded (callListeners event listeners) fun _ => []
  | [] => .pure _
  | l :: ls =>
    (callValue_recorded l.callback [] (some ⟨event, l.target.text⟩) "listener").bind fun _ =>
      callListeners_recorded event ls

end Stepwise
