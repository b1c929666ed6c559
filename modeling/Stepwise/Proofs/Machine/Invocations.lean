import Stepwise.Proofs.Machine.Registry
import Stepwise.Proofs.Machine.Scopes

/-!
# Calls and what they leave behind

`Work.invocations` lists the calls of values that a unit makes, in their order, each with its arguments.
`c.Grows calls d` says that the context `d` comes after `c` with these calls in between: nothing was taken from the logs,
the listeners, the elements and the names of the global scope, and what the page asked and showed is what the calls of
`prompt`, `confirm` and `alert` among them say.

**`Work.run_grows`**: the context that a unit leaves, whether it succeeds or fails, comes after the one that it found, with
the calls of the unit in between. **`callListeners_grows`** says so of listeners.
-/

namespace Stepwise

/-! ## Calls -/

/-- A call of a value: a built-in function, a function of the script, or a value that cannot be called. -/
structure Invocation where
  callee : Value
  args : List Value

namespace Invocation

/-- The call is one of a function of the page. -/
def isOf (i : Invocation) (name : String) : Bool :=
  match i.callee with
  | .builtin (.global other) _ => other == name
  | _ => false

/-- The text that a dialog of the page would show. -/
def message (i : Invocation) : String := (i.args.head?.map Value.text).getD ""

end Invocation

/-- The call that an operation makes. -/
def Trial.invocation? (t : Trial) : Option Invocation :=
  match t.operation with
  | .call callee args _ => some ⟨callee, args⟩
  | _ => none

/-- The calls of a unit. -/
def Work.invocations (w : Work) (c : Context) : List Invocation := (w.plan.tried c).filterMap Trial.invocation?

/-- The calls of listeners, which get no arguments. Nothing follows one that fails. -/
def listenerInvocations (event : String) : List Listener → Context → List Invocation
  | [], _ => []
  | l :: ls, c =>
    ⟨l.callback, []⟩ ::
      match Eval.callValue l.callback [] (some ⟨event, l.target.text⟩) "listener" c with
      | .ok _ d => listenerInvocations event ls d
      | .error _ _ => []

open Eval

/-! ## Growth -/

/-- The document `d'` comes after `d`, with the calls in between. -/
structure Document.Grows (calls : List Invocation) (d d' : Document) : Prop where
  /-- Elements keep their places and their tags. -/
  tags : d'.elements.map (·.tag) = d.elements.map (·.tag)
  /-- Each `prompt` takes an answer, as long as there is one. -/
  answers : d'.answers = d.answers.drop (calls.countP (·.isOf "prompt"))
  alerts : d'.alerts = d.alerts ++ (calls.filter (·.isOf "alert")).map (·.message)
  prompts : d'.prompts = d.prompts ++ (calls.filter fun i => i.isOf "prompt" || i.isOf "confirm").map (·.message)

/-- The world `w'` comes after `w`, with the calls in between. -/
structure World.Grows (calls : List Invocation) (w w' : World) : Prop where
  logs : w.logs <+: w'.logs
  listeners : w.listeners <+: w'.listeners
  document : ∀ d, w.document = some d → ∃ d', w'.document = some d' ∧ d.Grows calls d'

/-- The context `d` comes after `c`, with the calls in between. -/
structure Context.Grows (calls : List Invocation) (c d : Context) : Prop where
  globals : ∀ name, c.globals.has name → d.globals.has name
  world : c.world.Grows calls d.world

/-- No call is one of a function of the page. -/
def Quiet (calls : List Invocation) : Prop := ∀ i ∈ calls, ∀ name, i.isOf name = false

theorem quiet_nil : Quiet [] := by simp [Quiet]

namespace Document.Grows

variable {calls more : List Invocation} {d d' d'' : Document}

/-- Without calls, no dialog is shown. -/
theorem silent (ht : d'.elements.map (·.tag) = d.elements.map (·.tag)) (hanswers : d'.answers = d.answers)
    (halerts : d'.alerts = d.alerts) (hprompts : d'.prompts = d.prompts) : d.Grows [] d' :=
  ⟨ht, hanswers, halerts.trans (List.append_nil _).symm, hprompts.trans (List.append_nil _).symm⟩

/-- Calls that are not of the page leave it alone. -/
theorem quiet (hq : Quiet calls) (d : Document) : d.Grows calls d := by
  have hnone (name : String) : calls.filter (·.isOf name) = [] :=
    List.filter_eq_nil_iff.2 fun i hi => by simp [hq i hi name]
  have hasked : calls.filter (fun i => i.isOf "prompt" || i.isOf "confirm") = [] :=
    List.filter_eq_nil_iff.2 fun i hi => by simp [hq i hi]
  refine ⟨rfl, ?_, ?_, ?_⟩
  · rw [List.countP_eq_length_filter, hnone]
    rfl
  · rw [hnone, List.map_nil, List.append_nil]
  · rw [hasked, List.map_nil, List.append_nil]

theorem trans (h : d.Grows calls d') (h' : d'.Grows more d'') : d.Grows (calls ++ more) d'' where
  tags := h'.tags.trans h.tags
  answers := by rw [h'.answers, h.answers, List.drop_drop, List.countP_append]
  alerts := by rw [h'.alerts, h.alerts, List.filter_append, List.map_append, List.append_assoc]
  prompts := by rw [h'.prompts, h.prompts, List.filter_append, List.map_append, List.append_assoc]

/-- One element is changed, and it keeps its tag. -/
theorem replace {node : Nat} {e e' : Element} (h : d.elements[node]? = some e) (he : e'.tag = e.tag) :
    d.Grows [] (d.replace node e') := silent (map_replace (·.tag) h he) rfl rfl rfl

theorem writeMember {handle : ElementHandle} {name : String} {v : Value} (h : d.writeMember handle name v = .ok d') :
    d.Grows [] d' := by
  obtain ⟨e, e', he, hs, rfl⟩ := writeMember_replaces h
  refine replace he ?_
  unfold Element.set at hs
  split at hs <;> cases hs <;> rfl

theorem callMember {handle : ElementHandle} {name : String} {args : List Value} {v : Value}
    (h : d.callMember handle name args = .ok (v, d')) : d.Grows [] d' := by
  obtain ⟨e, e', he, hc, rfl⟩ := call_replaces (callMember_ok h)
  refine replace he ?_
  unfold Element.call at hc
  split at hc <;> cases hc <;> rfl

theorem listen (d : Document) (node : Nat) (event : String) : d.Grows [] (d.listen node event) := by
  unfold Document.listen element?
  cases he : d.elements[node]? with
  | none => exact quiet quiet_nil d
  | some e => exact replace he rfl

/-- A function of the page does what the record of its call says. -/
theorem callGlobal {name : String} {args : List Value} {v : Value} {receiver : Option Value}
    (h : d.callGlobal name args = .ok (v, d')) : d.Grows [⟨.builtin (.global name) receiver, args⟩] d' := by
  unfold Document.callGlobal at h
  split at h <;> cases h
  · exact ⟨rfl, rfl, rfl, (List.append_nil _).symm⟩
  · exact ⟨rfl, List.drop_one.symm, (List.append_nil _).symm, rfl⟩
  · exact ⟨rfl, rfl, (List.append_nil _).symm, rfl⟩

/-- What the page does not know is no dialog. -/
theorem callGlobal_error {name : String} {args : List Value} {err : HostError} {receiver : Option Value}
    (h : d.callGlobal name args = .error err) : d.Grows [⟨.builtin (.global name) receiver, args⟩] d := by
  unfold Document.callGlobal at h
  split at h
  · cases h
  · cases h
  · cases h
  · rename_i halert hprompt hconfirm
    have hnone (other : String) (ho : name ≠ other) :
        (⟨.builtin (.global name) receiver, args⟩ : Invocation).isOf other = false := beq_eq_false_iff_ne.2 ho
    refine ⟨rfl, ?_, ?_, ?_⟩ <;> simp [hnone _ halert, hnone _ hprompt, hnone _ hconfirm]

end Document.Grows

namespace World.Grows

variable {calls more : List Invocation} {w w' w'' : World}

theorem silent (hl : w.logs <+: w'.logs) (hr : w.listeners <+: w'.listeners) (hd : w'.document = w.document) :
    w.Grows [] w' :=
  ⟨hl, hr, fun d h => ⟨d, hd.trans h, .quiet quiet_nil d⟩⟩

theorem quiet (hq : Quiet calls) (w : World) : w.Grows calls w :=
  ⟨List.prefix_refl _, List.prefix_refl _, fun d h => ⟨d, h, .quiet hq d⟩⟩

theorem trans (h : w.Grows calls w') (h' : w'.Grows more w'') : w.Grows (calls ++ more) w'' where
  logs := h.logs.trans h'.logs
  listeners := h.listeners.trans h'.listeners
  document d hd := by
    obtain ⟨d', hd', hg⟩ := h.document d hd
    obtain ⟨d'', hd'', hg'⟩ := h'.document d' hd'
    exact ⟨d'', hd'', hg.trans hg'⟩

theorem log (w : World) (entry : LogEntry) : w.Grows [] (w.log entry) :=
  silent (List.prefix_append _ _) (List.prefix_refl _) rfl

theorem withDocument {d d' : Document} (hd : w.document = some d) (h : d.Grows calls d') :
    w.Grows calls { w with document := some d' } := by
  refine ⟨List.prefix_refl _, List.prefix_refl _, fun d₀ hd₀ => ?_⟩
  rw [hd] at hd₀
  cases hd₀
  exact ⟨d', rfl, h⟩

end World.Grows

namespace Context.Grows

variable {calls more : List Invocation} {c d e : Context}

theorem of_world (hg : d.globals = c.globals) (hw : c.world.Grows calls d.world) : c.Grows calls d :=
  ⟨fun name h => by rwa [hg], hw⟩

theorem quiet (hq : Quiet calls) (c : Context) : c.Grows calls c := of_world rfl (.quiet hq c.world)

theorem trans (h : c.Grows calls d) (h' : d.Grows more e) : c.Grows (calls ++ more) e :=
  ⟨fun name hn => h'.globals name (h.globals name hn), h.world.trans h'.world⟩

/-- A name is bound, here or there. -/
theorem bind_global {s : Scope} (hv : ∀ name, c.globals.has name → s.has name) :
    c.Grows [] { c with globals := s } := ⟨hv, .quiet quiet_nil c.world⟩

theorem assign (c : Context) (name : String) (v : Value) : c.Grows [] (c.assign name v) := by
  have hbound (other : String) (h : c.globals.has other) : (c.globals.assign name v).has other := by simp [h]
  unfold Context.assign
  split
  · split
    · exact of_world rfl (.quiet quiet_nil _)
    · exact bind_global hbound
  · exact bind_global hbound

theorem declare (c : Context) (name : String) (kind : BindingKind) (v : Value) :
    c.Grows [] (c.declare name kind v) := by
  unfold Context.declare
  split
  · exact of_world rfl (.quiet quiet_nil _)
  · exact bind_global fun other h => by simp [h]

/-- What is written to a member goes to the document. -/
theorem writeMember {o : Value} {key : String} {v : Value} (h : c.writeMember o key v = .ok d) : c.Grows [] d := by
  obtain ⟨_, _, _, -, hpage, hw, rfl⟩ := Context.writeMember_ok h
  exact of_world rfl (.withDocument hpage (.writeMember hw))

end Context.Grows

/-! ## Built-in functions -/

section Builtins

variable {c : Context}

/-- A call into the document, which gives a value and a new document. -/
theorem visit_grows {g : Document → Except RuntimeError (Value × Document)} {calls : List Invocation}
    (hok : ∀ {d v d'}, g d = .ok (v, d') → d.Grows calls d') (herror : ∀ {d e}, g d = .error e → d.Grows calls d)
    (c : Context) : c.Grows calls
      (left ((do let (v, d) ← Eval.ofExcept (g (← document)); setDocument d; return v : Eval Value) c)) := by
  obtain ⟨scoping, line, globals, locals, pushed, logs, listeners, page⟩ := c
  cases page with
  | none => exact .of_world rfl ⟨List.prefix_refl _, List.prefix_refl _, by rintro d ⟨⟩⟩
  | some d =>
    have hd : document ⟨scoping, line, globals, locals, pushed, logs, listeners, some d⟩ =
      .ok d ⟨scoping, line, globals, locals, pushed, logs, listeners, some d⟩ := rfl
    rw [bind_ok hd]
    cases hg : g d with
    | error e => exact .of_world rfl (.withDocument (w := ⟨logs, listeners, some d⟩) rfl (herror hg))
    | ok r => exact .of_world rfl (.withDocument (w := ⟨logs, listeners, some d⟩) rfl (hok hg))

/-- Of the built-in functions, those of the page aside, none shows a dialog. -/
theorem callBuiltin_keeps_dialogs {fn : Builtin} (hfn : ∀ name, fn ≠ .global name) (receiver : Option Value)
    (args : List Value) : Keeps (c.Grows [] ·) (callBuiltin fn receiver args) fun _ => True := by
  cases fn with
  | «global» name => exact absurd rfl (hfn name)
  | console level =>
    refine Keeps.bind (Keeps.log fun d hd => ?_) fun _ _ => Keeps.pure trivial
    exact hd.trans (.of_world rfl (.log d.world _))
  | elementById | firstMatch | allMatches => exact document_keeps fun _ _ _ _ => Keeps.pure trivial
  | listen =>
    intro d hd
    rcases listen_cases receiver args d with ⟨e, he⟩ | ⟨target, -, he⟩
    · rw [callBuiltin, he]
      exact hd
    · rw [callBuiltin, he]
      refine ⟨hd.trans (.of_world rfl ⟨List.prefix_append _ _, List.prefix_append _ _, fun page hpage => ?_⟩), trivial⟩
      exact ⟨page.listen target.node (argumentText args 0), by simp [Context.registered, hpage], .listen page _ _⟩
  | method name =>
    rcases receiver with _ | v
    · exact Keeps.throw
    · cases v with
      | element handle =>
        exact visit_keeps (V := fun _ => True) fun hd hpage hcall =>
          ⟨trivial, hd.trans (.of_world rfl (.withDocument hpage (.callMember hcall)))⟩
      | _ => exact Keeps.throw

/-- **Built-in functions** show the dialogs that their record says. -/
theorem callBuiltin_grows (fn : Builtin) (receiver : Option Value) (args : List Value) (c : Context) :
    c.Grows [⟨.builtin fn receiver, args⟩] (left (callBuiltin fn receiver args c)) := by
  by_cases hfn : ∃ name, fn = .global name
  · obtain ⟨name, rfl⟩ := hfn
    refine visit_grows (g := fun d => (d.callGlobal name args).mapError .host) ?_ ?_ c
    · intro d v d' h
      cases hg : d.callGlobal name args with
      | error e => rw [hg] at h; cases h
      | ok r => rw [hg] at h; cases h; exact .callGlobal hg
    · intro d e h
      cases hg : d.callGlobal name args with
      | error e => exact .callGlobal_error hg
      | ok r => rw [hg] at h; cases h
  · have hquiet : Quiet [⟨.builtin fn receiver, args⟩] := by
      intro i hi name
      rw [List.mem_singleton.1 hi]
      cases fn with
      | «global» other => exact absurd ⟨other, rfl⟩ hfn
      | _ => rfl
    have hk : Keeps (c.Grows [] ·) (callBuiltin fn receiver args) fun _ => True :=
      callBuiltin_keeps_dialogs (fun name h => hfn ⟨name, h⟩) receiver args
    exact (hk.of_left (.quiet quiet_nil c)).trans (.quiet hquiet _)

theorem callValue_grows (f : Value) (args : List Value) (handling : Option EventNote) (name : String) (c : Context) :
    c.Grows [⟨f, args⟩] (left (callValue f args handling name c)) := by
  have hquiet (h : ∀ fn receiver, f ≠ .builtin fn receiver) : Quiet [⟨f, args⟩] := by
    intro i hi name
    rw [List.mem_singleton.1 hi]
    cases f with
    | builtin fn receiver => exact absurd rfl (h fn receiver)
    | _ => rfl
  cases f with
  | builtin fn receiver => exact callBuiltin_grows fn receiver args c
  | func fn => exact .of_world rfl (.quiet (hquiet (by simp)) c.world)
  | _ => exact .quiet (hquiet (by simp)) c

end Builtins

/-! ## Operations, units and listeners -/

/-- **Operations** make at most one call. -/
theorem Operation.run_grows (o : Operation) (c : Context) :
    c.Grows ([⟨o, c⟩].filterMap Trial.invocation?) (left (o.run c)) := by
  have hquiet {α : Type} {act : Eval α} (h : Keeps (c.Grows [] ·) act fun _ => True) : c.Grows [] (left (act c)) :=
    h.of_left (.quiet quiet_nil c)
  cases o with
  | resolve name => exact hquiet (resolve_keeps fun _ _ => trivial)
  | typeName name => exact .quiet quiet_nil c
  | assign name v => exact .assign c name v
  | read o key => exact hquiet (readMember_keeps fun _ _ => trivial)
  | write o key v =>
    refine hquiet (Keeps.bind (writeMember_keeps fun hd hw => ?_) fun _ _ => Keeps.pure trivial)
    exact hd.trans (.writeMember hw)
  | call f args name => exact callValue_grows f args none name c
  | reject target => exact .quiet quiet_nil c
  | skip message => exact .of_world rfl (.log c.world _)
  | declare name kind v message =>
    have hlog : c.Grows [] (c.log .binding message) := .of_world rfl (.log c.world _)
    exact hlog.trans (.declare _ name kind v)

/-- **Units** make the calls of their record. -/
theorem Work.run_grows (w : Work) (c : Context) : c.Grows (w.invocations c) (left (w.run c)) := by
  rw [← w.run_plan]
  refine w.plan.run_chain (R := fun c ts d => c.Grows (ts.filterMap Trial.invocation?) d) (.quiet quiet_nil)
    (fun h h' => ?_) Operation.run_grows c
  rw [List.filterMap_append]
  exact h.trans h'

/-- **Listeners** are called, and built-in ones run at once. -/
theorem callListeners_grows (event : String) (listeners : List Listener) (c : Context) :
    c.Grows (listenerInvocations event listeners c) (left (callListeners event listeners c)) := by
  induction listeners generalizing c with
  | nil => exact .quiet quiet_nil c
  | cons l ls ih =>
    have hfirst := callValue_grows l.callback [] (some ⟨event, l.target.text⟩) "listener" c
    rw [callListeners, listenerInvocations]
    cases hr : callValue l.callback [] (some ⟨event, l.target.text⟩) "listener" c with
    | error e d =>
      rw [hr] at hfirst
      rw [bind_error hr]
      exact hfirst
    | ok v d =>
      rw [hr] at hfirst
      rw [bind_ok hr]
      exact hfirst.trans (ih d)

end Stepwise
