import Stepwise.Check.Visit
import Stepwise.Machine.Event
import Stepwise.Proofs.Machine.Plan

/-!
# Invariants of evaluation

`Eval.Keeps I act Q`: the computation `act` keeps `I` whether it succeeds or fails, and what it gives has `Q`.
`Eval.ClosedExpr I V N` lists what a predicate on contexts, one on values and one on nodes must satisfy to be kept by the
elementary operations of evaluation. `Eval.ClosedUnit D I V N` adds the declarations that `D` allows, and `Eval.Closed I V N`
all declarations. Then

* **operations** that fit `V` and `N` keep `I` and give values with `V` (`Operation.run_keeps`);
* **plans** of units all of whose nodes have `N` come to such operations only, and the work that they leave is made of
  nodes of the unit (`Work.plan_within`);
* **units** keep `I` (`Work.run_keeps`). If only some declarations are allowed, those of the unit must be among them
  (`Work.run_keeps_declaring`);
* **listeners** are only called, so that they need less (`callListeners_keeps`).

For an invariant of scopes and calls that does not depend on the world, four facts are enough (`Eval.ClosedScopes`). Every
invariant of a run starts from a proof of `Closed`.
-/

namespace Stepwise

/-- Values without parts: no functions, lists, elements or objects of the page. -/
def Value.isPlain : Value → Bool
  | undefined | null | bool _ | num _ | str _ => true
  | _ => false

theorem BinaryOp.apply_isPlain (op : BinaryOp) (v w : Value) : (op.apply v w).isPlain := by
  cases op <;> try rfl
  simp only [BinaryOp.apply, Value.add]
  split <;> rfl

theorem UnaryOp.apply_isPlain (op : UnaryOp) (v : Value) : (op.apply v).isPlain := by cases op <;> rfl

/-- Only members of elements are written, and what is written goes to the document. -/
theorem Context.writeMember_ok {c d : Context} {o : Value} {key : String} {v : Value}
    (h : c.writeMember o key v = .ok d) : ∃ handle page page', o = .element handle ∧ c.world.document = some page ∧
      page.writeMember handle key v = .ok page' ∧ d = { c with world := { c.world with document := some page' } } := by
  unfold Context.writeMember at h
  split at h
  · rename_i handle page hpage
    cases hw : page.writeMember handle key v with
    | error e => rw [hw] at h; cases h
    | ok page' =>
      rw [hw] at h
      cases h
      exact ⟨handle, page, page', rfl, hpage, hw, rfl⟩
  · cases h

/-- A context after a listener was registered. -/
def Context.registered (c : Context) (target : ElementHandle) (event : String) (callback : Value) : Context :=
  { c with world :=
    { logs := c.world.logs ++ [⟨.event, s!"Listening for {event} events on {target.text}", c.line⟩]
      listeners := c.world.listeners ++ [⟨c.world.listeners.length + 1, target, event, callback⟩]
      document := c.world.document.map (·.listen target.node event) } }

/-- **Registration** fails and changes nothing, or extends the registry and the document. -/
theorem Eval.listen_cases (receiver : Option Value) (args : List Value) (c : Context) :
    (∃ e, Eval.listen receiver args c = .error e c) ∨
    ∃ target, receiver = some (.element target) ∧ Eval.listen receiver args c =
      .ok .undefined (c.registered target (argumentText args 0) (args.getD 1 .undefined)) := by
  rcases receiver with _ | v
  · exact .inl ⟨_, rfl⟩
  · cases v with
    | element target =>
      cases hc : (args.getD 1 .undefined).callable with
      | false =>
        refine .inl ⟨.notFunction s!"The '{argumentText args 0}' listener {(args.getD 1 .undefined).shown}", ?_⟩
        unfold Eval.listen
        dsimp only
        rw [hc]
        rfl
      | true =>
        refine .inr ⟨target, rfl, ?_⟩
        unfold Eval.listen
        dsimp only
        rw [hc]
        rfl
    | _ => exact .inl ⟨_, rfl⟩

namespace Eval

/-- `act` keeps `I` whether it succeeds or fails, and what it gives has `Q`. -/
def Keeps (I : Context → Prop) {α : Type} (act : Eval α) (Q : α → Prop) : Prop :=
  ∀ c, I c → match act c with
    | .ok a d => I d ∧ Q a
    | .error _ d => I d

/-! ## Rules -/

section Rules

variable {I : Context → Prop} {α β : Type} {Q : α → Prop} {R : β → Prop}

theorem Keeps.pure {a : α} (h : Q a) : Keeps I (Pure.pure a) Q := fun _ hc => ⟨hc, h⟩

theorem Keeps.throw {e : RuntimeError} : Keeps I (throw e : Eval α) Q := fun _ hc => hc

theorem Keeps.bind {act : Eval α} {f : α → Eval β} (h : Keeps I act Q) (hf : ∀ a, Q a → Keeps I (f a) R) :
    Keeps I (act >>= f) R := by
  intro c hc
  have h := h c hc
  cases hr : act c with
  | error e d => rw [hr] at h; rw [bind_error hr]; exact h
  | ok a d => rw [hr] at h; rw [bind_ok hr]; exact hf a h.2 d h.1

theorem Keeps.mono {Q' : α → Prop} {act : Eval α} (h : Keeps I act Q) (hq : ∀ a, Q a → Q' a) : Keeps I act Q' := by
  intro c hc
  have h := h c hc
  cases hr : act c with
  | error e d => rw [hr] at h; exact h
  | ok a d => rw [hr] at h; exact ⟨h.1, hq a h.2⟩

theorem Keeps.of_ok {act : Eval α} (h : Keeps I act Q) {c d : Context} {a : α} (hc : I c) (hr : act c = .ok a d) :
    I d ∧ Q a := by
  have h := h c hc
  rwa [hr] at h

theorem Keeps.of_error {act : Eval α} (h : Keeps I act Q) {c d : Context} {e : RuntimeError} (hc : I c)
    (hr : act c = .error e d) : I d := by
  have h := h c hc
  rwa [hr] at h

theorem Keeps.of_left {act : Eval α} (h : Keeps I act Q) {c : Context} (hc : I c) : I (left (act c)) := by
  have h := h c hc
  cases hr : act c with
  | ok a d => rw [hr] at h; exact h.1
  | error e d => rw [hr] at h; exact h

/-- What is read from the context may use that the invariant holds there. -/
theorem Keeps.get {f : Context → Eval α} (h : ∀ c, I c → Keeps I (f c) Q) : Keeps I (get >>= f) Q :=
  fun c hc => h c hc c hc

theorem Keeps.modify {f : Context → Context} (h : ∀ c, I c → I (f c)) : Keeps I (modify f) fun _ => True :=
  fun c hc => ⟨h c hc, trivial⟩

theorem Keeps.set {d : Context} (h : I d) : Keeps I (set d) fun _ => True := fun _ _ => ⟨h, trivial⟩

theorem Keeps.ofExcept {x : Except RuntimeError α} (h : ∀ a, x = .ok a → Q a) : Keeps I (ofExcept x) Q := by
  cases x with
  | ok a => exact Keeps.pure (h a rfl)
  | error e => exact Keeps.throw

theorem Keeps.log {kind : LogKind} {message : String} (h : ∀ c, I c → I (c.log kind message)) :
    Keeps I (log kind message) fun _ => True := Keeps.modify h

/-- Nothing is asked. -/
theorem Keeps.trivially {act : Eval α} : Keeps (fun _ => True) act fun _ => True := by
  intro c _
  cases act c with
  | ok a d => exact ⟨trivial, trivial⟩
  | error e d => exact trivial

/-- What a computation gives may be known from elsewhere. -/
theorem Keeps.and {Q' : α → Prop} {act : Eval α} (h : Keeps I act Q) (h' : Keeps (fun _ => True) act Q') :
    Keeps I act fun a => Q a ∧ Q' a := by
  intro c hc
  have h := h c hc
  have h' := h' c trivial
  cases hr : act c with
  | error e d => rw [hr] at h; exact h
  | ok a d => rw [hr] at h h'; exact ⟨h.1, h.2, h'.2⟩

end Rules

/-! ## What the elementary operations need -/

/-- The message says that a node with `N` is skipped. -/
inductive Skips (N : Node → Prop) : String → Prop where
  | expr {kind : String} {span : Span} : N (.expr (.unsupported kind span)) → Skips N ("Skipped unsupported " ++ kind)
  | stmt {kind : String} {span : Span} : N (.stmt (.unsupported kind span)) → Skips N ("Skipped unsupported " ++ kind)
  | update {op : UpdateOp} {before : Bool} {arg : Expr} {span : Span} : N (.expr (.update op before arg span)) →
    (∀ name s, arg ≠ .ident name s) → Skips N s!"Cannot update {arg.render}: only variables can be incremented"

/-- `I` is kept by every elementary operation of expressions, all values that these give have `V`, and nodes with `N` may
be evaluated. -/
structure ClosedExpr (I : Context → Prop) (V : Value → Prop) (N : Node → Prop) : Prop where
  plain : ∀ v : Value, v.isPlain → V v
  lookup : ∀ {c name v}, I c → c.lookup? name = some v → V v
  read : ∀ {c o key v}, I c → V o → c.readMember o key = .ok v → V v
  write : ∀ {c o key v d}, I c → V v → c.writeMember o key v = .ok d → I d
  assign : ∀ {c name v}, I c → V v → I (c.assign name v)
  /-- Built-in functions run at once. -/
  builtin : ∀ {fn receiver args}, V (.builtin fn receiver) → (∀ v ∈ args, V v) →
    Keeps I (callBuiltin fn receiver args) V
  /-- Functions of the script are only pushed. -/
  push : ∀ {c fn args}, I c → V (.func fn) → (∀ v ∈ args, V v) → I (c.pushCall fn args none)
  function : ∀ {fn}, N (.expr (.function fn)) → V (.func fn)
  skipped : ∀ {c message}, Skips N message → I c → I (c.log .diagnostic message)

/-- `I` is also kept by the declarations that `D` allows. -/
structure ClosedUnit (D : String → BindingKind → Prop) (I : Context → Prop) (V : Value → Prop) (N : Node → Prop) : Prop
    extends ClosedExpr I V N where
  declare : ∀ {c name kind v}, D name kind → I c → V v → I (c.declare name kind v)
  bound : ∀ {c message}, I c → I (c.log .binding message)
  declared : ∀ {fn}, N (.stmt (.function fn)) → V (.func fn)

/-- `I` is kept by every elementary operation, all values that operations give have `V`, and nodes with `N` may be
evaluated. -/
structure Closed (I : Context → Prop) (V : Value → Prop) (N : Node → Prop) : Prop extends ClosedExpr I V N where
  declare : ∀ {c name kind v}, I c → V v → I (c.declare name kind v)
  bound : ∀ {c message}, I c → I (c.log .binding message)
  declared : ∀ {fn}, N (.stmt (.function fn)) → V (.func fn)

theorem Closed.unit {I : Context → Prop} {V : Value → Prop} {N : Node → Prop} (h : Closed I V N) :
    ClosedUnit (fun _ _ => True) I V N := { h with declare := fun _ => h.declare }

/-! ## Built-in functions -/

/-- `I` is kept by what built-in functions do, that of listeners apart, and what they give has `V`. Elements come from the
document. -/
structure ClosedPage (I : Context → Prop) (V : Value → Prop) : Prop where
  plain : ∀ v : Value, v.isPlain → V v
  element : ∀ {c d test handle}, I c → c.world.document = some d → handle ∈ d.select test → V (.element handle)
  elements : ∀ {c d} (test : Element → Bool), I c → c.world.document = some d → V (.list ((d.select test).map .element))
  console : ∀ {c message}, I c → I (c.log .console message)
  member : ∀ {c d handle name args v d'}, I c → c.world.document = some d →
    d.callMember handle name args = .ok (v, d') → V v ∧ I { c with world := { c.world with document := some d' } }
  called : ∀ {c d name args v d'}, I c → c.world.document = some d → d.callGlobal name args = .ok (v, d') →
    V v ∧ I { c with world := { c.world with document := some d' } }

/-- `I` is kept by everything that a built-in function does, that of listeners included. -/
structure ClosedHost (I : Context → Prop) (V : Value → Prop) : Prop extends ClosedPage I V where
  registered : ∀ {c target event callback}, V callback → I c → I (c.registered target event callback)

section Builtins

variable {I : Context → Prop} {V : Value → Prop}

/-- What follows the look at the document. -/
theorem document_keeps {α : Type} {Q : α → Prop} {f : Document → Eval α}
    (h : ∀ c d, I c → c.world.document = some d → Keeps I (f d) Q) : Keeps I (document >>= f) Q := by
  rintro ⟨scoping, line, globals, locals, pushed, logs, listeners, doc⟩ hc
  cases doc with
  | none => exact hc
  | some d => exact h _ d hc rfl _ hc

/-- A call into the document, which gives a value and a new document. -/
theorem visit_keeps {f : Document → Except RuntimeError (Value × Document)}
    (h : ∀ {c d v d'}, I c → c.world.document = some d → f d = .ok (v, d') →
      V v ∧ I { c with world := { c.world with document := some d' } }) :
    Keeps I (do let (v, d) ← ofExcept (f (← document)); setDocument d; return v) V := by
  rintro ⟨scoping, line, globals, locals, pushed, logs, listeners, doc⟩ hc
  cases doc with
  | none => exact hc
  | some d =>
    have hd : document ⟨scoping, line, globals, locals, pushed, logs, listeners, some d⟩ =
      .ok d ⟨scoping, line, globals, locals, pushed, logs, listeners, some d⟩ := rfl
    rw [bind_ok hd]
    cases hf : f d with
    | error e => exact hc
    | ok r => exact (h hc rfl hf).symm

theorem ClosedPage.argument (h : ClosedPage I V) {args : List Value} (ha : ∀ v ∈ args, V v) (i : Nat) :
    V (args.getD i .undefined) := by
  rw [List.getD_eq_getElem?_getD]
  cases hi : args[i]? with
  | none => exact h.plain _ rfl
  | some v => exact ha v (List.mem_of_getElem? hi)

theorem listen_keeps (h : ClosedHost I V) (receiver : Option Value) {args : List Value} (ha : ∀ v ∈ args, V v) :
    Keeps I (listen receiver args) V := by
  intro c hc
  rcases listen_cases receiver args c with ⟨e, he⟩ | ⟨target, -, he⟩ <;> rw [he]
  · exact hc
  · exact ⟨h.registered (h.argument ha 1) hc, h.plain _ rfl⟩

theorem ClosedPage.found (h : ClosedPage I V) {c : Context} {d : Document} (hc : I c) (hd : c.world.document = some d)
    (test : Element → Bool) : V (found (d.select test).head?) := by
  cases he : (d.select test).head? with
  | none => exact h.plain _ rfl
  | some handle => exact h.element hc hd (List.mem_of_head? he)

/-- Built-in functions keep an invariant that their effects keep, if registering a listener does so. -/
theorem ClosedPage.callBuiltin_keeps (h : ClosedPage I V) {fn : Builtin} {receiver : Option Value} {args : List Value}
    (hl : fn = .listen → Keeps I (listen receiver args) V) : Keeps I (callBuiltin fn receiver args) V := by
  cases fn with
  | console level =>
    exact Keeps.bind (Keeps.log fun _ hc => h.console hc) fun _ _ => Keeps.pure (h.plain _ rfl)
  | elementById | firstMatch => exact document_keeps fun _ _ hc hd => Keeps.pure (h.found hc hd _)
  | allMatches => exact document_keeps fun _ _ hc hd => Keeps.pure (h.elements _ hc hd)
  | listen => exact hl rfl
  | method name =>
    rcases receiver with _ | v
    · exact Keeps.throw
    · cases v with
      | element handle => exact visit_keeps h.member
      | _ => exact Keeps.throw
  | «global» name =>
    refine visit_keeps (f := fun d => (d.callGlobal name args).mapError .host) fun {c d v d'} hc hd hf => ?_
    cases hg : d.callGlobal name args with
    | error e => rw [hg] at hf; cases hf
    | ok r => rw [hg] at hf; cases hf; exact h.called hc hd hg

/-- **Built-in functions** keep an invariant that their effects keep. -/
theorem callBuiltin_keeps (h : ClosedHost I V) {fn : Builtin} {receiver : Option Value} {args : List Value}
    (ha : ∀ v ∈ args, V v) : Keeps I (callBuiltin fn receiver args) V :=
  h.toClosedPage.callBuiltin_keeps fun _ => listen_keeps h receiver ha

/-- **Listeners** are called one after the other. -/
theorem callListeners_keeps
    (hb : ∀ {fn receiver}, V (.builtin fn receiver) → Keeps I (callBuiltin fn receiver []) fun _ => True)
    (hp : ∀ {c fn handling}, I c → V (.func fn) → I (c.pushCall fn [] handling)) (event : String) :
    ∀ listeners : List Listener, (∀ l ∈ listeners, V l.callback) →
      Keeps I (callListeners event listeners) fun _ => True
  | [], _ => Keeps.pure trivial
  | l :: ls, hl => by
    obtain ⟨hl, hls⟩ := List.forall_mem_cons.1 hl
    refine Keeps.bind (Q := fun _ => True) ?_ fun _ _ => callListeners_keeps hb hp event ls hls
    cases hc : l.callback with
    | builtin fn receiver => exact hb (hc ▸ hl)
    | func fn =>
      rw [hc] at hl
      exact Keeps.bind (Keeps.modify fun c h => hp h hl) fun _ _ => Keeps.pure trivial
    | _ => exact Keeps.throw

end Builtins

/-! ## Invariants of scopes -/

/-- `I` does not depend on the world, and it is kept by everything that is done to scopes and calls. -/
structure ClosedScopes (I : Context → Prop) : Prop where
  world : ∀ {c} (w : World), I c → I { c with world := w }
  assign : ∀ {c name v}, I c → I (c.assign name v)
  declare : ∀ {c name kind v}, I c → I (c.declare name kind v)
  push : ∀ {c fn args}, I c → I (c.pushCall fn args none)

/-- Built-in functions change nothing but the world. -/
theorem closedHost_of_world {I : Context → Prop} (h : ∀ {c} (w : World), I c → I { c with world := w }) :
    ClosedHost I fun _ => True where
  plain _ _ := trivial
  element _ _ _ := trivial
  elements _ _ _ := trivial
  console hc := h _ hc
  registered _ hc := h _ hc
  member hc _ _ := ⟨trivial, h _ hc⟩
  called hc _ _ := ⟨trivial, h _ hc⟩

theorem callBuiltin_world (fn : Builtin) (receiver : Option Value) (args : List Value) (c : Context) :
    left (callBuiltin fn receiver args c) = { c with world := (left (callBuiltin fn receiver args c)).world } := by
  have hk : Keeps (fun d => d = { c with world := d.world }) (callBuiltin fn receiver args) fun _ => True :=
    callBuiltin_keeps (closedHost_of_world fun w hc => by rw [hc]) fun _ _ => trivial
  exact hk.of_left rfl

/-- Listeners change the world and make calls. -/
theorem callListeners_keeps_of_world {I : Context → Prop} (hw : ∀ {c} (w : World), I c → I { c with world := w })
    (hp : ∀ {c fn handling}, I c → I (c.pushCall fn [] handling)) (event : String) (listeners : List Listener) :
    Keeps I (callListeners event listeners) fun _ => True :=
  callListeners_keeps (V := fun _ => True) (fun _ => callBuiltin_keeps (closedHost_of_world hw) fun _ _ => trivial)
    (fun hc _ => hp hc) event listeners fun _ _ => trivial

/-- Expressions change the world, assign and make calls. -/
theorem closedExpr_of_scopes {I : Context → Prop} (hw : ∀ {c} (w : World), I c → I { c with world := w })
    (ha : ∀ {c name v}, I c → I (c.assign name v)) (hp : ∀ {c fn args}, I c → I (c.pushCall fn args none)) :
    ClosedExpr I (fun _ => True) fun _ => True where
  plain _ _ := trivial
  lookup _ _ := trivial
  read _ _ _ := trivial
  write hc _ hd := by
    obtain ⟨_, _, _, -, -, -, rfl⟩ := Context.writeMember_ok hd
    exact hw _ hc
  assign hc _ := ha hc
  builtin _ h := callBuiltin_keeps (closedHost_of_world hw) h
  push hc _ _ := hp hc
  function _ := trivial
  skipped _ hc := hw _ hc

theorem ClosedScopes.closed {I : Context → Prop} (h : ClosedScopes I) : Closed I (fun _ => True) fun _ => True where
  toClosedExpr := closedExpr_of_scopes h.world h.assign h.push
  declare hc _ := h.declare hc
  bound hc := h.world _ hc
  declared _ := trivial

end Eval

open Eval

/-! ## Operations -/

section Operations

variable {D : String → BindingKind → Prop} {I : Context → Prop} {V : Value → Prop} {N : Node → Prop}

/-- The operation hands on values with `V`, it declares what `D` allows, and what it skips is a node with `N`. -/
def Operation.Fits (D : String → BindingKind → Prop) (V : Value → Prop) (N : Node → Prop) : Operation → Prop
  | resolve _ | typeName _ | reject _ => True
  | assign _ v | write _ _ v => V v
  | read o _ => V o
  | call f args _ => V f ∧ ∀ v ∈ args, V v
  | skip message => Skips N message
  | declare name kind v _ => D name kind ∧ V v

theorem Eval.resolve_keeps {name : String} (h : ∀ {c v}, I c → c.lookup? name = some v → V v) :
    Keeps I (resolve name) V := by
  refine Keeps.get fun c hc => ?_
  cases hv : c.lookup? name with
  | none => exact Keeps.throw
  | some v => exact Keeps.pure (h hc hv)

theorem Eval.readMember_keeps {o : Value} {key : String} (h : ∀ {c v}, I c → c.readMember o key = .ok v → V v) :
    Keeps I (readMember o key) V := Keeps.get fun _ hc => Keeps.ofExcept fun _ hv => h hc hv

theorem Eval.writeMember_keeps {o v : Value} {key : String} (h : ∀ {c d}, I c → c.writeMember o key v = .ok d → I d) :
    Keeps I (writeMember o key v) fun _ => True :=
  Keeps.get fun _ hc => Keeps.bind (Keeps.ofExcept fun _ hd => h hc hd) fun _ hd => Keeps.set hd

theorem Eval.callValue_keeps (h : ClosedExpr I V N) {f : Value} (hf : V f) {args : List Value} (ha : ∀ v ∈ args, V v)
    (name : String) : Keeps I (callValue f args none name) V := by
  cases f with
  | builtin fn receiver => exact h.builtin hf ha
  | func fn =>
    exact Keeps.bind (Keeps.modify fun c hc => h.push hc hf ha) fun _ _ => Keeps.pure (h.plain _ rfl)
  | _ => exact Keeps.throw

/-- **Operations** that fit keep the invariant. -/
theorem Operation.run_keeps (h : ClosedUnit D I V N) {o : Operation} (ho : o.Fits D V N) : Keeps I o.run V := by
  have he := h.toClosedExpr
  have hundefined : V .undefined := h.plain _ rfl
  cases o with
  | resolve name => exact resolve_keeps h.lookup
  | typeName name => exact Keeps.get fun _ _ => Keeps.pure (h.plain _ rfl)
  | assign name v => exact Keeps.bind (Keeps.modify fun _ hc => h.assign hc ho) fun _ _ => Keeps.pure hundefined
  | read o key => exact readMember_keeps fun hc hv => h.read hc ho hv
  | write o key v => exact Keeps.bind (writeMember_keeps fun hc hd => h.write hc ho hd) fun _ _ => Keeps.pure hundefined
  | call f args name => exact callValue_keeps he ho.1 ho.2 name
  | reject target => exact Keeps.throw
  | skip message => exact Keeps.bind (Keeps.log fun _ hc => h.skipped ho hc) fun _ _ => Keeps.pure hundefined
  | declare name kind v message =>
    refine Keeps.bind (Keeps.log fun _ hc => h.bound hc) fun _ _ => ?_
    exact Keeps.bind (Keeps.modify fun _ hc => h.declare ho.1 hc ho.2) fun _ _ => Keeps.pure hundefined

/-- Operations that keep the stack keep what does not depend on the world. -/
theorem Operation.run_keeps_of_world (hw : ∀ {c} (w : World), I c → I { c with world := w }) {o : Operation}
    (ho : o.keepsStack = true) : Keeps I o.run fun _ => True := by
  cases o with
  | assign name v => cases ho
  | declare name kind v message => cases ho
  | resolve name => exact resolve_keeps fun _ _ => trivial
  | typeName name => exact Keeps.get fun _ _ => Keeps.pure trivial
  | read o key => exact readMember_keeps fun _ _ => trivial
  | write o key v =>
    refine Keeps.bind (writeMember_keeps fun hc hd => ?_) fun _ _ => Keeps.pure trivial
    obtain ⟨_, _, _, -, -, -, rfl⟩ := Context.writeMember_ok hd
    exact hw _ hc
  | call f args name =>
    cases f with
    | func fn => cases ho
    | builtin fn receiver => exact callBuiltin_keeps (closedHost_of_world hw) fun _ _ => trivial
    | _ => exact Keeps.throw
  | reject target => exact Keeps.throw
  | skip message => exact Keeps.bind (Keeps.log fun _ hc => hw _ hc) fun _ _ => Keeps.pure trivial

/-- Operations that keep the stack change nothing but the world. -/
theorem Operation.left_world {o : Operation} (ho : o.keepsStack = true) (c : Context) :
    left (o.run c) = { c with world := (left (o.run c)).world } := by
  have hk : Keeps (fun d => d = { c with world := d.world }) o.run fun _ => True :=
    o.run_keeps_of_world (fun w hd => by rw [hd]) ho
  exact hk.of_left rfl

end Operations

/-! ## Plans -/

namespace Plan

variable {α β : Type} {A : Operation → Prop} {V : Value → Prop} {Q : α → Prop} {R : β → Prop}

/-- All operations of the plan have `A` as long as those before them gave values with `V`, and the result has `Q`. -/
def Within (A : Operation → Prop) (V : Value → Prop) (Q : α → Prop) : Plan α → Prop
  | done a => Q a
  | first o rest => A o ∧ ∀ v, V v → (rest v).Within A V Q

theorem Within.pure {a : α} (h : Q a) : (Pure.pure a : Plan α).Within A V Q := h

theorem Within.once {o : Operation} (h : A o) : (once o).Within A V V := ⟨h, fun _ hv => hv⟩

theorem Within.bind {p : Plan α} {f : α → Plan β} (h : p.Within A V Q) (hf : ∀ a, Q a → (f a).Within A V R) :
    (p >>= f).Within A V R := by
  induction p with
  | done a => exact hf a h
  | first o rest ih => exact ⟨h.1, fun v hv => ih v (h.2 v hv)⟩

/-- **Plans** keep what their operations keep. -/
theorem Within.run_keeps {I : Context → Prop} {p : Plan α} (h : p.Within A V Q) (ho : ∀ o, A o → Keeps I o.run V) :
    Keeps I p.run Q := by
  induction p with
  | done a => exact Keeps.pure h
  | first o rest ih => exact Keeps.bind (ho o h.1) fun v hv => ih v (h.2 v hv)

end Plan

open Plan

section Expressions

variable {D : String → BindingKind → Prop} {I : Context → Prop} {V : Value → Prop} {N : Node → Prop}

/-- The value that an assignment stores, when the target held what `old` gives. -/
theorem Plan.stored_within (h : ClosedExpr I V N) {value : Plan Value} (hv : value.Within (·.Fits D V N) V V)
    (old : Operation) (ho : old.Fits D V N) (store : Value → Operation) (hs : ∀ v, V v → (store v).Fits D V N)
    (op : AssignOp) :
    Plan.Within (·.Fits D V N) V V (match op.binary? with
      | some bin => do
        let o ← once old
        let v := bin.apply o (← value)
        let _ ← once (store v)
        return v
      | none => do
        let v ← value
        let _ ← once (store v)
        return v) := by
  cases op.binary? with
  | none => exact .bind hv fun v hv => .bind (.once (hs v hv)) fun _ _ => .pure hv
  | some bin =>
    refine .bind (.once ho) fun o _ => .bind hv fun v _ => ?_
    have hp := h.plain _ (bin.apply_isPlain o v)
    exact .bind (.once (hs _ hp)) fun _ _ => .pure hp

mutual

/-- **Expressions** all of whose nodes have `N` ask for operations that fit. -/
theorem Expr.plan_within (h : ClosedExpr I V N) (d : Nat) : ∀ e : Expr, (∀ x ∈ e.visits d, N x.node) →
    e.plan.Within (·.Fits D V N) V V
  | .bool _ _, _ | .num _ _, _ | .str _ _, _ | .null _, _ => h.plain _ rfl
  | .ident name _, _ => .once trivial
  | .member object key _, hn =>
    .bind (object.plan_within h d fun x hx => hn x (by simp [Expr.visits, hx])) fun _ ho =>
      .bind (key.plan_within h d fun x hx => hn x (by simp [Expr.visits, hx])) fun _ _ => .once ho
  | .call callee args _, hn =>
    .bind (callee.plan_within h d fun x hx => hn x (by simp [Expr.visits, hx])) fun _ hf =>
      .bind (Expr.listPlan_within h d args fun x hx => hn x (by simp [Expr.visits, hx])) fun _ ha => .once ⟨hf, ha⟩
  | .binary op left right _, hn =>
    .bind (left.plan_within h d fun x hx => hn x (by simp [Expr.visits, hx])) fun v _ =>
      .bind (right.plan_within h d fun x hx => hn x (by simp [Expr.visits, hx])) fun w _ =>
        .pure (h.plain _ (op.apply_isPlain v w))
  | .logical op left right _, hn => by
    refine .bind (left.plan_within h d fun x hx => hn x (by simp [Expr.visits, hx])) fun v hv => ?_
    split
    · exact .pure hv
    · exact right.plan_within h d fun x hx => hn x (by simp [Expr.visits, hx])
  | .unary op arg _, hn => by
    have ih := arg.plan_within h d fun x hx => hn x (by simp [Expr.visits, hx])
    have happly : (arg.plan >>= fun v => return op.apply v).Within (·.Fits D V N) V V :=
      .bind ih fun v _ => .pure (h.plain _ (op.apply_isPlain v))
    cases op with
    | typeOf =>
      cases arg with
      | ident name s => exact .once trivial
      | _ => exact happly
    | _ => exact happly
  | .update op before arg span, hn => by
    have hu := hn ⟨.expr (.update op before arg span), d⟩ (by simp [Expr.visits])
    cases arg with
    | ident name s =>
      exact .bind (.once trivial) fun _ _ => .bind (.once (h.plain _ rfl)) fun _ _ => .pure (h.plain _ rfl)
    | _ => exact .once (.update hu nofun)
  | .assign op target value _, hn => by
    have ih := value.plan_within h d fun x hx => hn x (by simp [Expr.visits, hx])
    cases target with
    | ident name s => exact stored_within h ih (.resolve name) trivial (.assign name) (fun _ hv => hv) op
    | member object key s =>
      refine .bind (object.plan_within h d fun x hx => hn x (by simp [Expr.visits, hx])) fun o ho => ?_
      refine .bind (key.plan_within h d fun x hx => hn x (by simp [Expr.visits, hx])) fun k _ => ?_
      exact stored_within h ih (.read o k) ho (.write o k) (fun _ hv => hv) op
    | _ => exact .once trivial
  | .ternary condition consequent alternate _, hn => by
    refine .bind (condition.plan_within h d fun x hx => hn x (by simp [Expr.visits, hx])) fun v hv => ?_
    split
    · exact consequent.plan_within h d fun x hx => hn x (by simp [Expr.visits, hx])
    · exact alternate.plan_within h d fun x hx => hn x (by simp [Expr.visits, hx])
  | .function fn, hn => h.function (hn _ (by rw [Expr.visits]; exact List.mem_cons_self))
  | .unsupported kind span, hn => .once (.expr (hn ⟨.expr (.unsupported kind span), d⟩ (by simp [Expr.visits])))

theorem Expr.listPlan_within (h : ClosedExpr I V N) (d : Nat) : ∀ es : List Expr, (∀ x ∈ Expr.listVisits d es, N x.node) →
    (Expr.listPlan es).Within (·.Fits D V N) V fun vs => ∀ v ∈ vs, V v
  | [], _ => .pure (by simp)
  | e :: es, hn => by
    simp only [Expr.listVisits, List.mem_append] at hn
    refine .bind (e.plan_within h d fun x hx => hn x (.inl hx)) fun v hv => ?_
    refine .bind (Expr.listPlan_within h d es fun x hx => hn x (.inr hx)) fun vs hvs => ?_
    exact .pure (by simpa using ⟨hv, hvs⟩)

theorem MemberKey.plan_within (h : ClosedExpr I V N) (d : Nat) : ∀ k : MemberKey, (∀ x ∈ k.visits d, N x.node) →
    k.plan.Within (·.Fits D V N) V fun _ => True
  | .fixed _, _ => .pure trivial
  | .computed e, hn => .bind (e.plan_within h d hn) fun _ _ => .pure trivial

end

end Expressions

/-! ## Declared names -/

/-- The names of a declaration, each with its kind. -/
def declaredNames (kind : VarKind) (decls : List Declarator) : List (String × BindingKind) :=
  decls.map fun d => (d.name, .ofVarKind kind)

/-- The names that the start of a loop declares. -/
def startedNames : Option ForInit → List (String × BindingKind)
  | some (.declare kind decls _) => declaredNames kind decls
  | _ => []

/-- The names that a statement declares when it runs as a unit. -/
def Stmt.declares : Stmt → List (String × BindingKind)
  | .declare kind decls _ => declaredNames kind decls
  | .function fn => [(fn.displayName, .func)]
  | .for init _ _ _ _ => startedNames init
  | _ => []

/-- The names that a unit declares. -/
def Work.declares : Work → List (String × BindingKind)
  | stmt s => s.declares
  | _ => []

/-! ## Units -/

/-- The nodes that running a unit reaches, where the activation lies in `d` functions. -/
def Work.visits (d : Nat) : Work → List Visit
  | stmt s => s.visits d
  | loopUpdate e => e.visits d
  | loopCheck s => s.visits d

/-- Work that follows a unit is made of nodes of the unit, and only a `return` leaves. -/
def Outcome.Within (d : Nat) (w : Work) : Outcome → Prop
  | next work => ∀ w' ∈ work, w'.visits d ⊆ w.visits d
  | leave _ => ∃ value span, w = .stmt (.ret value span)

theorem Stmt.visits_subset_list (d : Nat) {s : Stmt} {body : List Stmt} (hs : s ∈ body) :
    s.visits d ⊆ Stmt.listVisits d body := by
  induction body with
  | nil => cases hs
  | cons t body ih =>
    rcases List.mem_cons.1 hs with rfl | hs
    · exact List.subset_append_left _ _
    · exact List.subset_append_of_subset_right _ (ih hs)

theorem loopRound_within (d : Nat) {s : Stmt} {w : Work} (h : w ∈ loopRound s) : w.visits d ⊆ s.visits d := by
  cases s with
  | «for» init test update body span =>
    simp only [loopRound, List.cons_append, List.mem_cons, List.mem_append, Option.mem_toList, Option.map_eq_some_iff,
      List.not_mem_nil, or_false] at h
    rcases h with rfl | ⟨e, rfl, rfl⟩ | rfl
    · exact fun x (hx : x ∈ body.visits d) => by simp [Stmt.visits, hx]
    · exact fun x (hx : x ∈ e.visits d) => by simp [Stmt.visits, Expr.optionVisits, hx]
    · exact fun x hx => hx
  | _ => cases h

section Units

variable {D : String → BindingKind → Prop} {I : Context → Prop} {V : Value → Prop} {N : Node → Prop}

theorem Expr.optionPlan_within (h : ClosedExpr I V N) (d : Nat) (e : Option Expr)
    (hn : ∀ x ∈ Expr.optionVisits d e, N x.node) : (Expr.optionPlan e).Within (·.Fits D V N) V V := by
  cases e with
  | none => exact .pure (h.plain _ rfl)
  | some e => exact e.plan_within h d hn

theorem declareAllPlan_within (h : ClosedExpr I V N) (d : Nat) (kind : VarKind) : ∀ decls : List Declarator,
    (∀ x ∈ declaredNames kind decls, D x.1 x.2) → (∀ x ∈ Declarator.listVisits d decls, N x.node) →
    (declareAllPlan kind decls).Within (·.Fits D V N) V fun _ => True
  | [], _, _ => .pure trivial
  | .mk name init _ :: ds, hd, hn => by
    obtain ⟨hfirst, hrest⟩ := List.forall_mem_cons.1 hd
    simp only [Declarator.listVisits, List.mem_append] at hn
    refine .bind (Expr.optionPlan_within h d init fun x hx => hn x (.inl hx)) fun v hv => ?_
    refine .bind (.once ⟨hfirst, hv⟩) fun _ _ => ?_
    exact declareAllPlan_within h d kind ds hrest fun x hx => hn x (.inr hx)

theorem loopTestPlan_within (h : ClosedExpr I V N) (d : Nat) (test : Option Expr)
    (hn : ∀ x ∈ Expr.optionVisits d test, N x.node) : (loopTestPlan test).Within (·.Fits D V N) V fun _ => True := by
  cases test with
  | none => exact .pure trivial
  | some e => exact .bind (e.plan_within h d hn) fun _ _ => .pure trivial

theorem startLoopPlan_within (h : ClosedExpr I V N) (d : Nat) (init : Option ForInit)
    (hd : ∀ x ∈ startedNames init, D x.1 x.2) (hn : ∀ x ∈ ForInit.optionVisits d init, N x.node) :
    (startLoopPlan init).Within (·.Fits D V N) V fun _ => True := by
  rcases init with _ | ⟨kind, decls, span⟩ | e
  · exact .pure trivial
  · exact declareAllPlan_within h d kind decls hd hn
  · exact .bind (e.plan_within h d hn) fun _ _ => .pure trivial

theorem Stmt.plan_within (h : ClosedUnit D I V N) (d : Nat) (s : Stmt) (hd : ∀ x ∈ s.declares, D x.1 x.2)
    (hn : ∀ x ∈ s.visits d, N x.node) : s.plan.Within (·.Fits D V N) V fun o => o.Within d (.stmt s) := by
  cases s with
  | block body span =>
    refine .pure fun w hw => ?_
    obtain ⟨s, hs, rfl⟩ := List.mem_map.1 hw
    exact List.subset_cons_of_subset _ (Stmt.visits_subset_list d hs)
  | declare kind decls span =>
    refine .bind (declareAllPlan_within h.toClosedExpr d kind decls hd ?_) fun _ _ => .pure (by simp [Outcome.Within])
    exact fun x hx => hn x (by simp [Stmt.visits, hx])
  | function fn =>
    have hfn := h.declared (hn _ (by rw [Stmt.visits]; exact List.mem_cons_self))
    exact .bind (.once ⟨hd _ List.mem_cons_self, hfn⟩) fun _ _ => .pure (by simp [Outcome.Within])
  | expr e span =>
    refine .bind (e.plan_within h.toClosedExpr d ?_) fun _ _ => .pure (by simp [Outcome.Within])
    exact fun x hx => hn x (by simp [Stmt.visits, hx])
  | ifElse test thenS elseS span =>
    refine .bind (test.plan_within h.toClosedExpr d fun x hx => hn x (by simp [Stmt.visits, hx])) fun v _ => ?_
    split
    · refine .pure fun w hw => ?_
      cases List.mem_singleton.1 hw
      exact fun x (hx : x ∈ thenS.visits d) => by simp [Work.visits, Stmt.visits, hx]
    · refine .pure fun w hw => ?_
      obtain ⟨s, rfl, rfl⟩ := Option.map_eq_some_iff.1 (Option.mem_toList.1 hw)
      exact fun x (hx : x ∈ s.visits d) => by simp [Work.visits, Stmt.visits, Stmt.optionVisits, hx]
  | «for» init test update body span =>
    have hstart : ∀ x ∈ ForInit.optionVisits d init, N x.node := fun x hx => hn x (by simp [Stmt.visits, hx])
    refine .bind (startLoopPlan_within h.toClosedExpr d init hd hstart) fun _ _ => ?_
    refine .bind (loopTestPlan_within h.toClosedExpr d test fun x hx => hn x (by simp [Stmt.visits, hx])) fun b _ => ?_
    split
    · exact .pure fun w hw => loopRound_within d hw
    · exact .pure (by simp [Outcome.Within])
  | ret value span =>
    refine .bind (Expr.optionPlan_within h.toClosedExpr d value ?_) fun v _ => .pure ⟨value, span, rfl⟩
    exact fun x hx => hn x (by simp [Stmt.visits, hx])
  | empty span => exact .pure (by simp [Outcome.Within])
  | unsupported kind span =>
    have hu := hn ⟨.stmt (.unsupported kind span), d⟩ (by simp [Stmt.visits])
    exact .bind (.once (.stmt hu)) fun _ _ => .pure (by simp [Outcome.Within])

/-- **Units** all of whose nodes have `N` ask for operations that fit. -/
theorem Work.plan_within (h : ClosedUnit D I V N) (d : Nat) (w : Work) (hd : ∀ x ∈ w.declares, D x.1 x.2)
    (hn : ∀ x ∈ w.visits d, N x.node) : w.plan.Within (·.Fits D V N) V fun o => o.Within d w := by
  cases w with
  | stmt s => exact s.plan_within h d hd hn
  | loopUpdate e => exact .bind (e.plan_within h.toClosedExpr d hn) fun _ _ => .pure (by simp [Outcome.Within])
  | loopCheck s =>
    cases s with
    | «for» init test update body span =>
      refine .bind (loopTestPlan_within h.toClosedExpr d test ?_) fun b _ => ?_
      · exact fun x hx => hn x (by simp [Work.visits, Stmt.visits, hx])
      · split
        · exact .pure fun w hw => loopRound_within d hw
        · exact .pure (by simp [Outcome.Within])
    | _ => exact .pure (by simp [Outcome.Within])

end Units

section Runs

variable {D : String → BindingKind → Prop} {I : Context → Prop} {V : Value → Prop} {N : Node → Prop}

/-- **Units** keep an invariant that the elementary operations and their declarations keep. -/
theorem Work.run_keeps_declaring (h : ClosedUnit D I V N) (d : Nat) (w : Work) (hd : ∀ x ∈ w.declares, D x.1 x.2)
    (hn : ∀ x ∈ w.visits d, N x.node) : Keeps I w.run fun o => o.Within d w := by
  rw [← w.run_plan]
  exact (w.plan_within h d hd hn).run_keeps fun _ ho => Operation.run_keeps h ho

theorem Work.run_keeps (h : Closed I V N) (d : Nat) (w : Work) (hn : ∀ x ∈ w.visits d, N x.node) :
    Keeps I w.run fun o => o.Within d w := w.run_keeps_declaring h.unit d (fun _ _ => trivial) hn

end Runs

end Stepwise
