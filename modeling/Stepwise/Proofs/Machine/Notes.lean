import Stepwise.Proofs.Machine.Diagnostics
import Stepwise.Proofs.Machine.Scopes
import Stepwise.Proofs.Machine.Visible

/-!
# Notes on names

A scope keeps values and notes in two maps. What can happen to it is a declaration, or an assignment, and the latter makes
a new name in the global scope only (`Scope.Becomes`). From this follow

* that every note tells the label of the value that its name holds now (`Becomes.labelled`);
* that the kind of a name changes with a declaration of that name only (`Becomes.kindFrom`);
* that a scope where every name has a note stays so, unless it is the global one (`Becomes.noted`).

`Stack.Advances` says what a command does to the frames of a machine: the lower ones stay and their scopes become others,
and those above them are new calls (`Machine.perform_advances`). **`Machine.notes_match_values`** puts both together for
all machines that commands can lead to.
-/

namespace Stepwise

/-! ## Scopes -/

namespace Scope

/-- How a name was introduced. -/
def kind? (s : Scope) (name : String) : Option BindingKind := (s.note? name).map BindingNote.kind

/-- Every name with a note is bound, and the note has the label of its value. -/
def Labelled (s : Scope) : Prop :=
  ∀ name note, s.note? name = some note → ∃ v, s.get? name = some v ∧ note.label = v.label

/-- The kind of a name in `t` is that in `s`, or the name was declared. -/
def KindFrom (decls : List (String × BindingKind)) (s t : Scope) (name : String) : Prop :=
  t.kind? name = s.kind? name ∨ ∃ kind, (name, kind) ∈ decls ∧ t.kind? name = some kind

section Operations

variable (s : Scope) (name other : String) (kind : BindingKind) (v : Value)

theorem get?_declare : (s.declare name kind v).get? other = if other = name then some v else s.get? other :=
  NameMap.get?_insert ..

theorem note?_declare :
    (s.declare name kind v).note? other = if other = name then some ⟨kind, v.label⟩ else s.note? other :=
  NameMap.get?_insert ..

theorem get?_assign : (s.assign name v).get? other = if other = name then some v else s.get? other :=
  NameMap.get?_insert ..

/-- An assignment makes no note. -/
theorem note?_assign : (s.assign name v).note? other =
    if other = name then (s.note? name).map fun note => { note with label := v.label } else s.note? other := by
  cases hn : s.note? name with
  | some note => rw [assign_eq_declare hn, note?_declare]; rfl
  | none =>
    have hnotes : (s.assign name v).notes = s.notes := by
      unfold assign
      rw [show s.notes.get? name = none from hn]
    show (s.assign name v).notes.get? other = _
    rw [hnotes]
    split
    · rename_i heq
      rw [heq]
      exact hn
    · rfl

theorem kind?_declare : (s.declare name kind v).kind? other = if other = name then some kind else s.kind? other := by
  unfold kind?
  rw [note?_declare]
  split <;> rfl

/-- An assignment changes no kind. -/
@[simp] theorem kind?_assign : (s.assign name v).kind? other = s.kind? other := by
  unfold kind?
  rw [note?_assign]
  split
  · rename_i heq
    rw [heq, Option.map_map]
    rfl
  · rfl

theorem kind?_bindParams (params : List String) (args : List Value) :
    (s.bindParams params args).kind? name = if name ∈ params then some .param else s.kind? name := by
  induction params generalizing s args with
  | nil => simp [bindParams]
  | cons p ps ih =>
    rw [bindParams, ih, kind?_declare]
    by_cases hp : name = p <;> simp [hp]

end Operations

theorem Labelled.empty : Labelled empty := fun _ _ h => by cases h

theorem Labelled.declare {s : Scope} (h : s.Labelled) (name : String) (kind : BindingKind) (v : Value) :
    (s.declare name kind v).Labelled := by
  intro other note hn
  rw [note?_declare] at hn
  rw [get?_declare]
  split at hn
  · cases hn
    exact ⟨v, by simp [*], rfl⟩
  · rename_i hne
    rw [if_neg hne]
    exact h other note hn

theorem Labelled.bindParams {s : Scope} (h : s.Labelled) (params : List String) (args : List Value) :
    (s.bindParams params args).Labelled := by
  induction params generalizing s args with
  | nil => exact h
  | cons p ps ih => exact ih (h.declare p .param _) args.tail

theorem Labelled.assign {s : Scope} (h : s.Labelled) (name : String) (v : Value) : (s.assign name v).Labelled := by
  intro other note hn
  rw [note?_assign] at hn
  rw [get?_assign]
  split at hn
  · obtain ⟨old, -, rfl⟩ := Option.map_eq_some_iff.1 hn
    exact ⟨v, by simp [*], rfl⟩
  · rename_i hne
    rw [if_neg hne]
    exact h other note hn

/-! ## What can happen to a scope -/

/-- The scope `s` becomes another one by declarations from `decls` and by assignments. Only an open scope takes
assignments to names that it does not bind. -/
inductive Becomes (decls : List (String × BindingKind)) (isOpen : Bool) (s : Scope) : Scope → Prop where
  | refl : Becomes decls isOpen s s
  | declare {t : Scope} {name : String} {kind : BindingKind} (v : Value) :
    Becomes decls isOpen s t → (name, kind) ∈ decls → Becomes decls isOpen s (t.declare name kind v)
  | assign {t : Scope} {name : String} (v : Value) :
    Becomes decls isOpen s t → isOpen = true ∨ t.has name = true → Becomes decls isOpen s (t.assign name v)

section

variable {decls : List (String × BindingKind)} {isOpen : Bool} {s t : Scope}

theorem Becomes.labelled (h : Becomes decls isOpen s t) (hs : s.Labelled) : t.Labelled := by
  induction h with
  | refl => exact hs
  | declare v _ _ ih => exact ih.declare _ _ v
  | assign v _ _ ih => exact ih.assign _ v

theorem Becomes.kindFrom (h : Becomes decls isOpen s t) (name : String) : KindFrom decls s t name := by
  induction h with
  | refl => exact .inl rfl
  | @declare t other kind v _ hd ih =>
    unfold KindFrom
    rw [kind?_declare]
    split
    · rename_i heq
      exact .inr ⟨kind, heq ▸ hd, rfl⟩
    · exact ih
  | assign v _ _ ih =>
    unfold KindFrom
    rw [kind?_assign]
    exact ih

theorem Becomes.noted (h : Becomes decls false s t) (hs : s.Noted) : t.Noted := by
  induction h with
  | refl => exact hs
  | declare v _ _ ih => exact ih.declare _ _ v
  | assign v _ ho ih => exact ih.assign (ho.resolve_left Bool.false_ne_true) v

end

end Scope

/-! ## Contexts -/

/-- The scope that a call starts with, before its parameters are bound, if the global scope was `globals` a moment ago. -/
def Scoping.Starts (scoping : Scoping) (decls : List (String × BindingKind)) (globals start : Scope) : Prop :=
  match scoping with
  | .snapshot => globals.Becomes decls true start
  | .chained => start = .empty

/-- A call that has not run yet. -/
def Activation.StartsFrom (scoping : Scoping) (decls : List (String × BindingKind)) (globals : Scope) (a : Activation) :
    Prop :=
  ∃ (fn : FunctionDef) (args : List Value) (start : Scope), a.name = fn.displayName ∧ a.queue = [.stmt fn.body] ∧
    a.scope = start.bindParams fn.params args ∧ scoping.Starts decls globals start

/-- A context that evaluation reaches from the scopes `g` and `l`. It may declare `outer` in the global scope and `inner`
in the local one. -/
structure Context.Reached (scoping : Scoping) (outer inner : List (String × BindingKind)) (g : Scope) (l : Option Scope)
    (c : Context) : Prop where
  same : c.scoping = scoping
  globals : g.Becomes outer true c.globals
  locals : l = none ∧ c.locals = none ∨ ∃ s t, l = some s ∧ c.locals = some t ∧ s.Becomes inner false t
  pushed : ∀ a ∈ c.pushed, a.StartsFrom scoping outer g

namespace Context.Reached

open Eval

variable {scoping : Scoping} {outer inner : List (String × BindingKind)} {g : Scope} {l : Option Scope} {c : Context}

theorem start (scoping : Scoping) (outer inner : List (String × BindingKind)) (line : Option Nat) (g : Scope)
    (l : Option Scope) (w : World) : Reached scoping outer inner g l ⟨scoping, line, g, l, [], w⟩ where
  same := rfl
  globals := .refl
  locals := by
    cases l with
    | none => exact .inl ⟨rfl, rfl⟩
    | some s => exact .inr ⟨s, s, rfl, rfl, .refl⟩
  pushed _ h := by cases h

theorem world (h : Reached scoping outer inner g l c) (w : World) :
    Reached scoping outer inner g l { c with world := w } := ⟨h.same, h.globals, h.locals, h.pushed⟩

/-- A call assigns to a variable of its own only if it has it; all other names are global. -/
theorem assign (h : Reached scoping outer inner g l c) (name : String) (v : Value) :
    Reached scoping outer inner g l (c.assign name v) := by
  rcases h.locals with ⟨hl, hc⟩ | ⟨s, t, hl, hc, hst⟩
  · have hnone (u : Scope) (hu : c.locals = some u) : u.has name = false := by rw [hc] at hu; cases hu
    rw [assign_global hnone]
    exact ⟨h.same, h.globals.assign v (.inl rfl), h.locals, h.pushed⟩
  · cases hn : t.has name with
    | true =>
      rw [assign_local hc hn]
      exact ⟨h.same, h.globals, .inr ⟨s, _, hl, rfl, hst.assign v (.inr hn)⟩, h.pushed⟩
    | false =>
      have hfree (u : Scope) (hu : c.locals = some u) : u.has name = false := by rw [hc] at hu; cases hu; exact hn
      rw [assign_global hfree]
      exact ⟨h.same, h.globals.assign v (.inl rfl), h.locals, h.pushed⟩

theorem declare (h : Reached scoping outer inner g l c) {name : String} {kind : BindingKind}
    (hd : (name, kind) ∈ if l.isSome then inner else outer) (v : Value) :
    Reached scoping outer inner g l (c.declare name kind v) := by
  rcases h.locals with ⟨rfl, hc⟩ | ⟨s, t, rfl, hc, hst⟩
  · rw [declare_global hc]
    exact ⟨h.same, h.globals.declare v hd, h.locals, h.pushed⟩
  · rw [declare_local hc]
    exact ⟨h.same, h.globals, .inr ⟨s, _, rfl, rfl, hst.declare v hd⟩, h.pushed⟩

theorem push (h : Reached scoping outer inner g l c) (fn : FunctionDef) (args : List Value)
    (handling : Option EventNote) : Reached scoping outer inner g l (c.pushCall fn args handling) := by
  refine ⟨h.same, h.globals, h.locals, List.forall_mem_cons.2 ⟨?_, h.pushed⟩⟩
  have hs := h.same
  cases scoping with
  | snapshot => exact ⟨fn, args, c.globals, rfl, rfl, by simp [Context.callScope, hs], h.globals⟩
  | chained => exact ⟨fn, args, .empty, rfl, rfl, by simp [Context.callScope, hs], rfl⟩

theorem closed : ClosedUnit (fun name kind => (name, kind) ∈ if l.isSome then inner else outer)
    (Reached scoping outer inner g l) (fun _ => True) fun _ => True where
  toClosedExpr := closedExpr_of_scopes (fun w h => h.world w) (fun h => h.assign _ _) fun h => h.push _ _ none
  declare hd h _ := h.declare hd _
  bound h := h.world _
  declared _ := trivial

theorem run (unit : Work) (hd : ∀ x ∈ unit.declares, x ∈ if l.isSome then inner else outer) :
    Keeps (Reached scoping outer inner g l) unit.run fun o => o.Within 0 unit :=
  unit.run_keeps_declaring closed 0 hd fun _ _ => trivial

section

variable {line : Option Nat} {w : World} {unit : Work}

theorem of_ok {o : Outcome} (hd : ∀ x ∈ unit.declares, x ∈ if l.isSome then inner else outer)
    (h : unit.run ⟨scoping, line, g, l, [], w⟩ = .ok o c) : Reached scoping outer inner g l c :=
  ((run unit hd).of_ok (start scoping outer inner line g l w) h).1

theorem of_error {e : RuntimeError} (hd : ∀ x ∈ unit.declares, x ∈ if l.isSome then inner else outer)
    (h : unit.run ⟨scoping, line, g, l, [], w⟩ = .error e c) : Reached scoping outer inner g l c :=
  (run unit hd).of_error (start scoping outer inner line g l w) h

end

theorem callListeners (event : String) (listeners : List Listener) :
    Keeps (Reached scoping outer inner g l) (Stepwise.callListeners event listeners) fun _ => True :=
  callListeners_keeps_of_world (fun w h => h.world w) (fun h => h.push _ _ _) event listeners

end Context.Reached

/-! ## Frames -/

namespace Stack

/-- The frame `f` was `f₀` a moment ago. -/
structure Continues (decls : List (String × BindingKind)) (isOpen : Bool) (f₀ f : FrameView) : Prop where
  name : f.name = f₀.name
  scope : f₀.scope.Becomes decls isOpen f.scope

/-- The frames of `t` up to some depth are those of `s`, and those above them are new calls. The frame at a depth may have
declared the names that `decls` gives for it; only the global one is open. -/
def Advances (scoping : Scoping) (decls : Nat → List (String × BindingKind)) (s t : Stack) : Prop :=
  ∃ kept, 0 < kept ∧ ∀ depth f, t.frames[depth]? = some f →
    (depth < kept ∧ ∃ f₀, s.frames[depth]? = some f₀ ∧ Continues (decls depth) (depth == 0) f₀ f) ∨
    (kept ≤ depth ∧ ∃ a, f = .ofActivation a ∧ a.StartsFrom scoping (decls 0) s.global.scope)

variable {scoping : Scoping} {decls : Nat → List (String × BindingKind)} {s t : Stack} {g : Frame}
  {calls new : List Activation}

theorem getElem?_frames_append {depth : Nat} {f : FrameView} (h : (Stack.mk g calls).frames[depth]? = some f) :
    (Stack.mk g (new ++ calls)).frames[depth]? = some f := by
  obtain ⟨hlt, -⟩ := List.getElem?_eq_some_iff.1 h
  rw [frames_append, List.getElem?_append_left hlt]
  exact h

/-- Calls may leave the stack afterwards. -/
theorem Advances.then_dropped (done : List Activation) (h : Advances scoping decls s ⟨g, done ++ calls⟩) :
    Advances scoping decls s ⟨g, calls⟩ := by
  obtain ⟨kept, hpos, hk⟩ := h
  exact ⟨kept, hpos, fun depth f hf => hk depth f (getElem?_frames_append hf)⟩

/-- Calls may have left the stack before. -/
theorem Advances.after_dropped (done : List Activation) (h : Advances scoping decls ⟨g, calls⟩ t) :
    Advances scoping decls ⟨g, done ++ calls⟩ t := by
  obtain ⟨kept, hpos, hk⟩ := h
  refine ⟨kept, hpos, fun depth f hf => (hk depth f hf).imp_left fun hold => ?_⟩
  obtain ⟨hlt, f₀, hf₀, hc⟩ := hold
  exact ⟨hlt, f₀, getElem?_frames_append hf₀, hc⟩

/-- New calls stand above frames that were there. -/
theorem Advances.of_frames (hold : ∀ (depth : Nat) f, (Stack.mk g calls).frames[depth]? = some f →
      ∃ f₀, s.frames[depth]? = some f₀ ∧ Continues (decls depth) (depth == 0) f₀ f)
    (hnew : ∀ a ∈ new, a.StartsFrom scoping (decls 0) s.global.scope) : Advances scoping decls s ⟨g, new ++ calls⟩ := by
  refine ⟨(Stack.mk g calls).frames.length, Nat.succ_pos _, fun depth f hf => ?_⟩
  rw [frames_append] at hf
  by_cases hlt : depth < (Stack.mk g calls).frames.length
  · rw [List.getElem?_append_left hlt] at hf
    exact .inl ⟨hlt, hold depth f hf⟩
  · rw [List.getElem?_append_right (Nat.le_of_not_lt hlt)] at hf
    obtain ⟨a, ha, rfl⟩ := List.mem_map.1 (List.mem_of_getElem? hf)
    exact .inr ⟨Nat.le_of_not_lt hlt, a, rfl, hnew a (List.mem_reverse.1 ha)⟩

/-- Only the global frame has changed. -/
theorem Advances.of_global {queue : List Work} {globals : Scope} (hg : g.scope.Becomes (decls 0) true globals)
    (hnew : ∀ a ∈ new, a.StartsFrom scoping (decls 0) g.scope) :
    Advances scoping decls ⟨g, calls⟩ ⟨⟨globals, queue⟩, new ++ calls⟩ := by
  refine .of_frames (fun depth f hf => ?_) hnew
  cases depth with
  | zero => cases hf; exact ⟨_, rfl, rfl, hg⟩
  | succ depth => exact ⟨f, hf, rfl, .refl⟩

/-- No scope has changed. -/
theorem Advances.of_queue (g : Frame) (queue : List Work) (calls : List Activation) :
    Advances scoping decls ⟨g, calls⟩ ⟨{ g with queue }, calls⟩ := by
  have hnew : ∀ a ∈ ([] : List Activation), a.StartsFrom scoping (decls 0) g.scope := fun _ h => by cases h
  exact of_global .refl hnew

/-- The innermost call and the global frame have changed. -/
theorem Advances.of_call {queue : List Work} {globals : Scope} {a b : Activation}
    (hg : g.scope.Becomes (decls 0) true globals) (hname : b.name = a.name)
    (hab : a.scope.Becomes (decls (calls.length + 1)) false b.scope)
    (hnew : ∀ a ∈ new, a.StartsFrom scoping (decls 0) g.scope) :
    Advances scoping decls ⟨g, a :: calls⟩ ⟨⟨globals, queue⟩, new ++ b :: calls⟩ := by
  refine .of_frames (fun depth f hf => ?_) hnew
  cases depth with
  | zero => cases hf; exact ⟨_, rfl, rfl, hg⟩
  | succ depth =>
    simp only [frames, List.reverse_cons, List.map_append, List.getElem?_cons_succ] at hf ⊢
    by_cases hlt : depth < (calls.reverse.map FrameView.ofActivation).length
    · rw [List.getElem?_append_left hlt] at hf
      exact ⟨f, by rw [List.getElem?_append_left hlt, hf], rfl, .refl⟩
    · have hle := Nat.le_of_not_lt hlt
      rw [List.getElem?_append_right hle] at hf
      obtain ⟨hidx, hf⟩ := List.getElem?_eq_some_iff.1 hf
      have hzero : depth - (calls.reverse.map FrameView.ofActivation).length = 0 := by simpa using hidx
      have hdepth : depth = calls.length := by simp at hzero hle; omega
      subst hdepth
      refine ⟨.ofActivation a, by simp, ?_⟩
      simp only [List.map_cons, List.map_nil, hzero, List.getElem_cons_zero] at hf
      cases hf
      exact ⟨congrArg some hname, hab⟩

/-! ## What follows for the notes -/

theorem Advances.labelled (h : Advances scoping decls s t) (hs : ∀ f ∈ s.frames, f.scope.Labelled) :
    ∀ f ∈ t.frames, f.scope.Labelled := by
  intro f hf
  obtain ⟨depth, hf⟩ := List.getElem?_of_mem hf
  obtain ⟨kept, -, hk⟩ := h
  rcases hk depth f hf with ⟨-, f₀, hf₀, hc⟩ | ⟨-, a, rfl, fn, args, start, -, -, ha, hstart⟩
  · exact hc.scope.labelled (hs f₀ (List.mem_of_getElem? hf₀))
  · show a.scope.Labelled
    rw [ha]
    refine Scope.Labelled.bindParams ?_ _ _
    cases scoping with
    | snapshot => exact Scope.Becomes.labelled hstart (hs ⟨s.global, none, none⟩ List.mem_cons_self)
    | chained =>
      obtain rfl : start = .empty := hstart
      exact .empty

/-- In chained scoping a call starts with its parameters only, and what it assigns without a declaration goes to the global
scope. -/
theorem Advances.noted (h : Advances .chained decls s t) (hs : ∀ f ∈ s.frames.tail, f.scope.Noted) :
    ∀ f ∈ t.frames.tail, f.scope.Noted := by
  intro f hf
  obtain ⟨depth, hf⟩ := List.getElem?_of_mem hf
  rw [List.getElem?_tail] at hf
  obtain ⟨kept, -, hk⟩ := h
  rcases hk (depth + 1) f hf with ⟨-, f₀, hf₀, hc⟩ | ⟨-, a, rfl, fn, args, start, -, -, ha, rfl⟩
  · rw [← List.getElem?_tail] at hf₀
    exact hc.scope.noted (hs f₀ (List.mem_of_getElem? hf₀))
  · show a.scope.Noted
    rw [ha]
    exact Scope.Noted.empty.bindParams _ _

/-- The kind in a new call of a name that is no parameter of it. -/
def InheritsKind (scoping : Scoping) (decls : List (String × BindingKind)) (globals scope : Scope) (name : String) : Prop :=
  match scoping with
  | .snapshot => globals.KindFrom decls scope name
  | .chained => scope.kind? name = none

/-- The frames of `t` up to some depth are those of `s`, where a name has kept its kind unless it was declared there. All
others are calls that have not run yet, where a name is a parameter or was inherited. -/
def KindsFollow (scoping : Scoping) (decls : Nat → List (String × BindingKind)) (s t : Stack) : Prop :=
  ∃ kept, 0 < kept ∧ ∀ (depth : Nat) (f : FrameView), t.frames[depth]? = some f →
    (depth < kept → ∃ f₀, s.frames[depth]? = some f₀ ∧ f.name = f₀.name ∧
      ∀ name, f₀.scope.KindFrom (decls depth) f.scope name) ∧
    (kept ≤ depth → ∃ fn : FunctionDef, f.name = some fn.displayName ∧ f.queue = [.stmt fn.body] ∧
      ∀ name, (name ∈ fn.params → f.scope.kind? name = some .param) ∧
        (name ∉ fn.params → InheritsKind scoping (decls 0) s.global.scope f.scope name))

theorem Advances.kindsFollow (h : Advances scoping decls s t) : KindsFollow scoping decls s t := by
  obtain ⟨kept, hpos, hk⟩ := h
  refine ⟨kept, hpos, fun depth f hf => ?_⟩
  rcases hk depth f hf with ⟨hlt, f₀, hf₀, hc⟩ | ⟨hle, a, rfl, fn, args, start, hname, hqueue, ha, hstart⟩
  · exact ⟨fun _ => ⟨f₀, hf₀, hc.name, hc.scope.kindFrom⟩, fun hle => absurd hlt (Nat.not_lt.2 hle)⟩
  · refine ⟨fun hlt => absurd hlt (Nat.not_lt.2 hle), fun _ => ⟨fn, congrArg some hname, hqueue, fun name => ?_⟩⟩
    have hkind : a.scope.kind? name = if name ∈ fn.params then some .param else start.kind? name := by
      rw [ha]
      exact start.kind?_bindParams name fn.params args
    refine ⟨fun hp => hkind.trans (if_pos hp), fun hp => ?_⟩
    have hkind := hkind.trans (if_neg hp)
    cases scoping with
    | snapshot =>
      show Scope.KindFrom _ _ a.scope name
      unfold Scope.KindFrom
      rw [hkind]
      exact Scope.Becomes.kindFrom hstart name
    | chained =>
      obtain rfl : start = .empty := hstart
      exact hkind

end Stack

namespace Machine

open Stack

/-! ## Commands -/

/-- The names that a command declares in the frame at a depth: those of the unit that it runs, if the unit belongs to that
frame. Events declare nothing. -/
def declaredAt (m : Machine) (c : Command) (depth : Nat) : List (String × BindingKind) :=
  if c = .step ∧ m.finished = false then
    match m.pending with
    | (d, unit) :: _ => if depth = d then unit.declares else []
    | [] => []
  else []

section

variable {m : Machine} {scoping : Scoping} {decls : Nat → List (String × BindingKind)} {s : Stack}

theorem settle_advances (h : Advances scoping decls s m.stack) : Advances scoping decls s m.settle.stack := by
  rw [settle_stack]
  refine Advances.then_dropped (m.stack.calls.takeWhile (·.queue.isEmpty)) ?_
  rw [List.takeWhile_append_dropWhile]
  exact h

theorem runGlobal_advances (unit : Work) (queue : List Work) (hc : m.stack.calls = [])
    (hd : decls 0 = unit.declares) : Advances m.scoping decls m.stack (m.runGlobal unit queue).stack := by
  have hstack : m.stack = ⟨m.stack.global, []⟩ := by rw [← hc]
  have hdecls : ∀ x ∈ unit.declares, x ∈ decls 0 := fun x hx => hd ▸ hx
  have hto {c : Context} (h : Context.Reached m.scoping (decls 0) [] m.stack.global.scope none c) (queue : List Work) :
      Advances m.scoping decls m.stack ⟨⟨c.globals, queue⟩, c.pushed⟩ := by
    rw [hstack, ← List.append_nil c.pushed]
    exact .of_global h.globals h.pushed
  cases hu : unit.run (m.context none) with
  | error e c =>
    rw [runGlobal_error hu]
    exact hto (.of_error hdecls hu) queue
  | ok o c =>
    have hc := hto (.of_ok hdecls hu)
    cases o with
    | next work =>
      rw [runGlobal_next hu]
      exact settle_advances (m := m.adopt c c.pushed (work ++ queue)) (hc _)
    | leave v =>
      rw [runGlobal_leave hu]
      exact settle_advances (m := (m.adopt c c.pushed []).logReturn "(global)" v) (hc _)

theorem runCall_advances (r : Ready) (queue : List Work) (hc : m.stack.calls = { r.owner with queue } :: r.below)
    (hd : decls (r.below.length + 1) = r.unit.declares) :
    Advances m.scoping decls m.stack (m.runCall r).stack := by
  have hstack : m.stack = ⟨m.stack.global, { r.owner with queue } :: r.below⟩ := by rw [← hc]
  have hdecls : ∀ x ∈ r.unit.declares, x ∈ decls (r.below.length + 1) := fun x hx => hd ▸ hx
  have hafter {c : Context} (h : Context.Reached m.scoping (decls 0) (decls (r.below.length + 1)) m.stack.global.scope
      (some r.owner.scope) c) (work : List Work) :
      Advances m.scoping decls m.stack ⟨⟨c.globals, m.stack.global.queue⟩, c.pushed ++ r.owner.after c work :: r.below⟩ := by
    rw [hstack]
    refine .of_call h.globals rfl ?_ h.pushed
    rcases h.locals with ⟨hl, -⟩ | ⟨s, t, hl, ht, hst⟩
    · cases hl
    · cases hl
      rw [Activation.after, ht]
      exact hst
  cases hu : r.unit.run (m.context (some r.owner.scope)) with
  | error e c =>
    rw [runCall_error hu]
    exact hafter (.of_error hdecls hu) []
  | ok o c =>
    have hr : Context.Reached m.scoping (decls 0) (decls (r.below.length + 1)) m.stack.global.scope
        (some r.owner.scope) c := .of_ok hdecls hu
    cases o with
    | next work =>
      rw [runCall_next hu]
      exact settle_advances (m := m.adopt c (c.pushed ++ r.owner.after c work :: r.below) m.stack.global.queue)
        (hafter hr work)
    | leave v =>
      rw [runCall_leave hu]
      refine settle_advances ?_
      rw [concluded_stack, hstack]
      exact Advances.after_dropped [_] (.of_global hr.globals hr.pushed)

/-- No frame has changed. -/
theorem advances_self (m : Machine) (decls : Nat → List (String × BindingKind)) :
    Advances m.scoping decls m.stack m.stack := .of_queue m.stack.global m.stack.global.queue m.stack.calls

theorem declaredAt_pending (hf : m.finished = false) {d : Nat} {unit : Work} {rest : List (Nat × Work)}
    (h : m.pending = (d, unit) :: rest) (depth : Nat) :
    m.declaredAt .step depth = if depth = d then unit.declares else [] := by
  unfold declaredAt
  rw [if_pos ⟨rfl, hf⟩, h]

theorem step_advances (m : Machine) : Advances m.scoping (m.declaredAt .step) m.stack m.step.machine.stack := by
  cases hf : m.finished with
  | true =>
    rw [step_finished hf]
    exact m.advances_self _
  | false =>
    cases hp : m.pending with
    | nil =>
      rw [step_of_no_pending hf hp]
      refine Advances.then_dropped m.stack.calls ?_
      rw [List.append_nil]
      exact .of_queue m.stack.global [] m.stack.calls
    | cons u rest =>
      obtain ⟨d, unit⟩ := u
      have hd := declaredAt_pending hf hp
      obtain ⟨done, kept, queue, hc, rfl, -, hs⟩ := step_of_pending hf hp
      have hstack : m.stack = ⟨m.stack.global, done ++ kept⟩ := by rw [← hc]
      rw [hs, hstack]
      refine Advances.after_dropped done ?_
      cases kept with
      | nil => exact runGlobal_advances (m := (m.unwound done []).announce unit) unit queue rfl (by rw [hd]; rfl)
      | cons a below =>
        exact runCall_advances (m := (m.unwound done (a :: below)).announce unit) ⟨unit, { a with queue }, below⟩ a.queue
          rfl ((hd _).trans (if_pos rfl))

theorem fire_advances (m : Machine) (node : Nat) (event : String) (decls : Nat → List (String × BindingKind)) :
    Advances m.scoping decls m.stack (m.fire node event).2.machine.stack := by
  rw [fire_machine]
  split
  · exact m.advances_self _
  · obtain ⟨logs, hlogs⟩ := m.logFired_eq event (m.listenersFor node event)
    rw [hlogs]
    generalize m.listenersFor node event = listeners
    have hstart := Context.Reached.start m.scoping (decls 0) [] m.line m.stack.global.scope none { m.world with logs }
    cases hr : callListeners event listeners.reverse (({ m with world := { m.world with logs } } : Machine).context none) with
    | ok _ c =>
      have hc := ((Context.Reached.callListeners event _).of_ok hstart hr).1
      rw [callAll_ok hr]
      exact Advances.of_global hc.globals hc.pushed
    | error e c =>
      have hc := (Context.Reached.callListeners event _).of_error hstart hr
      rw [callAll_error hr]
      exact Advances.of_global hc.globals hc.pushed

/-- **What a command does to the frames.** -/
theorem perform_advances (m : Machine) : ∀ c : Command,
    Advances m.scoping (m.declaredAt c) m.stack (m.perform c).stack
  | .step => m.step_advances
  | .fire node event => m.fire_advances node event _
  | .fireById id event => by
    show Advances _ _ _ (m.fireById id event).2.machine.stack
    unfold fireById
    split
    · exact m.fire_advances _ event _
    · exact m.advances_self _

/-! ## Runs -/

theorem performAll_labelled : ∀ (commands : List Command) {m : Machine}, (∀ f ∈ m.stack.frames, f.scope.Labelled) →
    ∀ f ∈ (m.performAll commands).stack.frames, f.scope.Labelled
  | [], _, h => h
  | c :: commands, m, h => performAll_labelled commands ((m.perform_advances c).labelled h)

theorem performAll_noted : ∀ (commands : List Command) {m : Machine}, m.scoping = .chained →
    (∀ f ∈ m.stack.frames.tail, f.scope.Noted) → ∀ f ∈ (m.performAll commands).stack.frames.tail, f.scope.Noted
  | [], _, _, h => h
  | c :: commands, m, hs, h => by
    have hc := m.perform_advances c
    rw [hs] at hc
    exact performAll_noted commands ((performAll_scoping [c] m).trans hs) (hc.noted h)

end

/-- **Notes match values.** Whatever commands a loaded machine got,

* in the scope of every frame, a name with a note is bound, and the note has the label of the value that the name holds;
* the next command changes the kind of a name only where its unit declares that name, or binds it as a parameter of a new
  call; in particular assignments and events change no kind;
* in chained scoping every name that is bound in the scope of a call has a note. -/
theorem notes_match_values {source : String} {document : Option Document} {scoping : Scoping} {m : Machine}
    (h : load source document scoping = .ok m) (commands : List Command) :
    (∀ f ∈ (m.performAll commands).stack.frames, f.scope.Labelled) ∧
    (∀ c, KindsFollow scoping ((m.performAll commands).declaredAt c) (m.performAll commands).stack
      ((m.performAll commands).perform c).stack) ∧
    (scoping = .chained → ∀ f ∈ (m.performAll commands).stack.frames.tail, f.scope.Noted) := by
  obtain ⟨program, -, -, rfl⟩ := load_ok h
  refine ⟨performAll_labelled commands ?_, fun c => ?_, fun hs => performAll_noted commands hs ?_⟩
  · intro f hf
    cases List.mem_singleton.1 hf
    exact .empty
  · have hc := perform_advances (performAll (ofProgram program program.findings scoping document) commands) c
    rw [performAll_scoping] at hc
    exact hc.kindsFollow
  · intro f hf
    cases hf

/-- A call that assigns to a parameter, to a name that nobody declares and to a variable of its own. -/
def notesScript : String :=
  "let b = document.getElementById('b');\nfunction f(p) { p = b; g = p; let b = 1; b = p; }\nf(1);\nb = 2;"

/-- Before the last unit of the call, its parameter holds an element and is labelled so, and a name without a note has come
up in the global scope. -/
theorem notes_match_values_notesScript : ∃ m, load notesScript (some buttonPage) .chained = .ok m ∧
    (m.performAll (.replicate 6 .step)).stack.frames.map (·.scope.note? "p") = [none, some ⟨.param, some "element"⟩] ∧
    (m.performAll (.replicate 6 .step)).stack.frames.map (·.scope.note? "b") =
      [some ⟨.let, some "element"⟩, some ⟨.let, none⟩] ∧
    (m.performAll (.replicate 6 .step)).stack.frames.map (fun f => (f.scope.has "g", f.scope.kind? "g")) =
      [(true, none), (false, none)] ∧
    (∀ f ∈ (m.performAll (.replicate 6 .step)).stack.frames, f.scope.Labelled) ∧
    KindsFollow .chained ((m.performAll (.replicate 6 .step)).declaredAt .step)
      (m.performAll (.replicate 6 .step)).stack ((m.performAll (.replicate 6 .step)).perform .step).stack ∧
    ∀ f ∈ (m.performAll (.replicate 6 .step)).stack.frames.tail, f.scope.Noted := by
  have hrun : (load notesScript (some buttonPage) .chained).toOption.any (fun m =>
      let frames := (m.performAll (.replicate 6 .step)).stack.frames
      frames.map (·.scope.note? "p") = [none, some ⟨.param, some "element"⟩] ∧
        frames.map (·.scope.note? "b") = [some ⟨.let, some "element"⟩, some ⟨.let, none⟩] ∧
        frames.map (fun f => (f.scope.has "g", f.scope.kind? "g")) = [(true, none), (false, none)]) = true := by
    decide +kernel
  obtain ⟨m, h, ht⟩ := exists_loaded hrun
  obtain ⟨hp, hb, hg⟩ := of_decide_eq_true ht
  obtain ⟨hlabelled, hkinds, hnoted⟩ := notes_match_values h (.replicate 6 .step)
  exact ⟨m, h, hp, hb, hg, hlabelled, hkinds .step, hnoted rfl⟩

end Machine

end Stepwise
