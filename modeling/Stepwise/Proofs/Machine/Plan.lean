import Stepwise.Machine.Dispatch

/-!
# Evaluation as a plan

Evaluation is made of elementary operations: a name is looked up, assigned to or declared, a member is read or written, a
value is called, code is skipped (`Operation`). A plan says which operation comes first and, for every value that this may
give, what comes after it. `Expr.plan` and `Work.plan` lay out expressions and units as plans.

* **Running a plan is evaluation** (`Expr.run_plan`, `Work.run_plan`), so that what is known of each operation is known of
  expressions and units by an induction over plans, which has two cases.
* `p.tried c` lists the operations that a plan comes to from the context `c`, each in the context that it finds. A relation
  that each operation establishes, and that can be chained, holds between the first context, this list and the last context
  (`Plan.run_chain`).
* A computation **commutes** with a change of the context if it does the same before and after it (`Eval.Commutes`). Plans
  commute with what their operations commute with (`Plan.run_commutes`).
-/

namespace Stepwise

namespace Eval

section Results

variable {α β : Type} {act : Eval α} {f : α → Eval β} {c d : Context}

theorem bind_ok {a : α} (h : act c = .ok a d) : (act >>= f) c = f a d := by
  show EStateM.bind act f c = _
  unfold EStateM.bind
  rw [h]

theorem bind_error {e : RuntimeError} (h : act c = .error e d) : (act >>= f) c = .error e d := by
  show EStateM.bind act f c = _
  unfold EStateM.bind
  rw [h]

/-- The context that a computation leaves. -/
def left : EStateM.Result RuntimeError Context α → Context
  | .ok _ c | .error _ c => c

/-- The result with another context. -/
def mapContext (φ : Context → Context) : EStateM.Result RuntimeError Context α → EStateM.Result RuntimeError Context α
  | .ok a c => .ok a (φ c)
  | .error e c => .error e (φ c)

theorem left_mapContext (φ : Context → Context) (r : EStateM.Result RuntimeError Context α) :
    left (mapContext φ r) = φ (left r) := by cases r <;> rfl

end Results

end Eval

open Eval

/-! ## Operations and plans -/

/-- An elementary operation of evaluation. -/
inductive Operation where
  | resolve (name : String)
  /-- The type of what a name stands for; the name need not be bound. -/
  | typeName (name : String)
  | assign (name : String) (value : Value)
  | read (object : Value) (key : String)
  | write (object : Value) (key : String) (value : Value)
  /-- A call of a value; `name` stands for it if it cannot be called. -/
  | call (callee : Value) (args : List Value) (name : String)
  /-- An assignment to something that is no target. -/
  | reject (target : String)
  /-- Code is skipped, and the message says so. -/
  | skip (message : String)
  /-- A name is declared, after the message was logged. -/
  | declare (name : String) (kind : BindingKind) (value : Value) (message : String)

/-- What an operation does. Where it is done for its effect only, it gives `undefined`. -/
def Operation.run : Operation → Eval Value
  | resolve name => Eval.resolve name
  | typeName name => do return .str (((← get).lookup? name).getD .undefined).typeName
  | assign name value => do
    Eval.assign name value
    return .undefined
  | read object key => readMember object key
  | write object key value => do
    writeMember object key value
    return .undefined
  | call callee args name => callValue callee args none name
  | reject target => throw (.invalidAssignment target)
  | skip message => do
    diagnostic message
    return .undefined
  | declare name kind value message => do
    Eval.log .binding message
    modify (·.declare name kind value)
    return .undefined

/-- An operation and the context that it is tried in. -/
structure Trial where
  operation : Operation
  context : Context

/-- A computation as the operations that it is made of. -/
inductive Plan (α : Type) where
  | done (a : α)
  /-- An operation, and what follows each value that it may give. -/
  | first (operation : Operation) (rest : Value → Plan α)

namespace Plan

variable {α β : Type}

def bind : Plan α → (α → Plan β) → Plan β
  | done a, f => f a
  | first o rest, f => first o fun v => (rest v).bind f

instance : Monad Plan where
  pure := done
  bind := bind

/-- A single operation. -/
def once (o : Operation) : Plan Value := first o done

/-- Does the operations of a plan. -/
def run : Plan α → Eval α
  | done a => return a
  | first o rest => do
    let v ← o.run
    (rest v).run

/-- The operations that a plan comes to. Nothing follows one that fails. -/
def tried : Plan α → Context → List Trial
  | done _, _ => []
  | first o rest, c =>
    ⟨o, c⟩ ::
      match o.run c with
      | .ok v d => (rest v).tried d
      | .error _ _ => []

@[simp] theorem run_pure (a : α) : (pure a : Plan α).run = pure a := rfl

@[simp] theorem run_once (o : Operation) : (once o).run = o.run := bind_pure _

@[simp] theorem run_bind (p : Plan α) (f : α → Plan β) : (p >>= f).run = p.run >>= fun a => (f a).run := by
  show (p.bind f).run = _
  induction p with
  | done a => rw [bind, run, pure_bind]
  | first o rest ih => simp only [bind, run, ih, bind_assoc]

@[simp] theorem run_ite (b : Bool) (p q : Plan α) : (if b then p else q).run = if b then p.run else q.run := by
  cases b <;> rfl

variable {o : Operation} {rest : Value → Plan α} {c d : Context}

theorem run_first_ok {v : Value} (h : o.run c = .ok v d) : (first o rest).run c = (rest v).run d := bind_ok h

theorem run_first_error {e : RuntimeError} (h : o.run c = .error e d) : (first o rest).run c = .error e d := bind_error h

theorem tried_first_ok {v : Value} (h : o.run c = .ok v d) : (first o rest).tried c = ⟨o, c⟩ :: (rest v).tried d := by
  rw [tried, h]

theorem tried_first_error {e : RuntimeError} (h : o.run c = .error e d) : (first o rest).tried c = [⟨o, c⟩] := by
  rw [tried, h]

theorem mem_tried_first : ⟨o, c⟩ ∈ (first o rest).tried c := by
  rw [tried]
  exact List.mem_cons_self

/-! ## What plans inherit from operations -/

/-- **Chains**: a relation that each operation establishes holds for all operations of a plan together. -/
theorem run_chain {R : Context → List Trial → Context → Prop} (refl : ∀ c, R c [] c)
    (trans : ∀ {c ts d us e}, R c ts d → R d us e → R c (ts ++ us) e) (step : ∀ o c, R c [⟨o, c⟩] (left (o.run c)))
    (p : Plan α) (c : Context) : R c (p.tried c) (left (p.run c)) := by
  induction p generalizing c with
  | done a => exact refl c
  | first o rest ih =>
    have hstep := step o c
    cases hr : o.run c with
    | ok v d =>
      rw [hr] at hstep
      rw [tried_first_ok hr, run_first_ok hr]
      exact trans hstep (ih v d)
    | error e d =>
      rw [hr] at hstep
      rwa [tried_first_error hr, run_first_error hr]

end Plan

/-! ## Changes of the context -/

namespace Eval

/-- The computation does the same before and after a change of the context. -/
def Commutes {α : Type} (φ : Context → Context) (act : Eval α) : Prop := ∀ c, act (φ c) = mapContext φ (act c)

section Commutes

variable {α β : Type} {φ : Context → Context}

theorem Commutes.pure (a : α) : Commutes φ (Pure.pure a) := fun _ => rfl

theorem Commutes.throw (e : RuntimeError) : Commutes φ (throw e : Eval α) := fun _ => rfl

theorem Commutes.bind {act : Eval α} {f : α → Eval β} (h : Commutes φ act) (hf : ∀ a, Commutes φ (f a)) :
    Commutes φ (act >>= f) := by
  intro c
  have hc := h c
  cases hr : act c with
  | error e d => rw [hr] at hc; rw [bind_error hc, bind_error hr]; rfl
  | ok a d => rw [hr] at hc; rw [bind_ok hc, bind_ok hr]; exact hf a d

theorem Commutes.modify {g : Context → Context} (h : ∀ c, g (φ c) = φ (g c)) : Commutes φ (modify g) :=
  fun c => congrArg (EStateM.Result.ok ()) (h c)

/-- What is asked of the context is the same before and after the change. -/
theorem Commutes.get {g : Context → Eval α} (h : ∀ c, Commutes φ (g c)) (hg : ∀ c, g (φ c) = g c) :
    Commutes φ (get >>= g) := fun c => (congrFun (hg c) _).trans (h c c)

theorem Commutes.ofExcept (x : Except RuntimeError α) : Commutes φ (ofExcept x) := by
  cases x with
  | ok a => exact .pure a
  | error e => exact .throw e

/-- The change leaves alone what built-in functions look at and what they change. -/
structure OffWorld (φ : Context → Context) : Prop where
  line : ∀ c, (φ c).line = c.line
  world : ∀ c, (φ c).world = c.world
  put : ∀ c w, φ { c with world := w } = { φ c with world := w }

section OffWorld

variable (h : OffWorld φ)

include h

theorem commutes_modifyWorld {g : Option Nat → World → World} :
    Commutes φ (modify fun c => { c with world := g c.line c.world }) :=
  .modify fun c => by
    have hg : g (φ c).line (φ c).world = g c.line c.world := by rw [h.line, h.world]
    exact (congrArg (fun w => { φ c with world := w }) hg).trans (h.put c _).symm

theorem log_commutes (kind : LogKind) (message : String) : Commutes φ (log kind message) :=
  commutes_modifyWorld h (g := fun line w => w.log ⟨kind, message, line⟩)

theorem document_commutes : Commutes φ document := by
  refine .get (fun c => ?_) fun c => by rw [h.world]
  cases c.world.document with
  | none => exact .throw _
  | some d => exact .pure d

theorem setDocument_commutes (d : Document) : Commutes φ (setDocument d) :=
  commutes_modifyWorld h (g := fun _ w => { w with document := some d })

theorem readMember_commutes (o : Value) (key : String) : Commutes φ (readMember o key) := by
  refine .get (fun c => .ofExcept _) fun c => ?_
  have hread : (φ c).readMember o key = c.readMember o key := by
    unfold Context.readMember
    rw [h.world]
  rw [hread]

theorem writeMember_commutes (o : Value) (key : String) (v : Value) : Commutes φ (writeMember o key v) := by
  intro c
  have hwrite : (φ c).writeMember o key v = (c.writeMember o key v).map φ := by
    unfold Context.writeMember
    rw [h.world]
    split
    · rename_i handle d _
      cases d.writeMember handle key v with
      | error e => rfl
      | ok d' => exact congrArg Except.ok (h.put c _).symm
    · rfl
  show (ofExcept ((φ c).writeMember o key v) >>= set) (φ c) = mapContext φ ((ofExcept (c.writeMember o key v) >>= set) c)
  rw [hwrite]
  cases c.writeMember o key v <;> rfl

theorem listen_commutes (receiver : Option Value) (args : List Value) : Commutes φ (Eval.listen receiver args) := by
  unfold Eval.listen
  split
  · dsimp only
    split
    · exact fun _ => rfl
    · refine (commutes_modifyWorld h (g := fun _ w => { w with document := w.document.map _ })).bind fun _ => ?_
      refine (log_commutes h _ _).bind fun _ => ?_
      refine (commutes_modifyWorld h (g := fun _ w =>
        { w with listeners := w.listeners ++ [⟨w.listeners.length + 1, _, _, _⟩] })).bind fun _ => .pure _
  · exact .throw _

/-- **Built-in functions** look at the world and the line, and change the world only. -/
theorem callBuiltin_commutes (fn : Builtin) (receiver : Option Value) (args : List Value) :
    Commutes φ (callBuiltin fn receiver args) := by
  have visit (f : Document → Except RuntimeError (Value × Document)) :
      Commutes φ (document >>= fun d => ofExcept (f d) >>= fun r => setDocument r.2 >>= fun _ => return r.1) :=
    (document_commutes h).bind fun d => (Commutes.ofExcept (f d)).bind fun r =>
      (setDocument_commutes h r.2).bind fun _ => .pure r.1
  cases fn with
  | console level => exact (log_commutes h _ _).bind fun _ => .pure _
  | elementById | firstMatch | allMatches => exact (document_commutes h).bind fun _ => .pure _
  | listen => exact listen_commutes h receiver args
  | method name =>
    rcases receiver with _ | v
    · exact .throw _
    · cases v with
      | element handle => exact visit fun d => d.callMember handle name args
      | _ => exact .throw _
  | «global» name => exact visit fun d => (d.callGlobal name args).mapError .host

end OffWorld

end Commutes

end Eval

/-- The operation looks at no scope and changes none. -/
def Operation.onWorld : Operation → Bool
  | resolve _ | typeName _ | assign .. | declare .. | call (.func _) .. => false
  | _ => true

/-- The operation binds no name and makes no call of a function of the script. -/
def Operation.keepsStack : Operation → Bool
  | assign .. | declare .. | call (.func _) .. => false
  | _ => true

theorem Operation.keepsStack_of_onWorld {o : Operation} (ho : o.onWorld = true) : o.keepsStack = true := by
  cases o with
  | resolve _ | typeName _ | assign _ _ | declare _ _ _ _ => cases ho
  | call f args name =>
    cases f with
    | func fn => cases ho
    | _ => rfl
  | _ => rfl

/-- Operations on the world commute with changes that keep the world. -/
theorem Operation.run_commutes_of_onWorld {φ : Context → Context} (h : OffWorld φ) {o : Operation}
    (ho : o.onWorld = true) : Commutes φ o.run := by
  cases o with
  | resolve _ | typeName _ | assign _ _ | declare _ _ _ _ => cases ho
  | read o key => exact readMember_commutes h o key
  | write o key v => exact (writeMember_commutes h o key v).bind fun _ => .pure _
  | call f args name =>
    cases f with
    | func fn => cases ho
    | builtin fn receiver => exact callBuiltin_commutes h fn receiver args
    | _ => exact .throw _
  | reject target => exact .throw _
  | skip message => exact (log_commutes h _ _).bind fun _ => .pure _

/-- Operations that keep the stack commute with changes that keep the world and the values of names. -/
theorem Operation.run_commutes {φ : Context → Context} (h : OffWorld φ)
    (hl : ∀ c name, (φ c).lookup? name = c.lookup? name) {o : Operation} (ho : o.keepsStack = true) :
    Commutes φ o.run := by
  cases o with
  | resolve name =>
    refine .get (fun c => ?_) fun c => by rw [hl]
    cases c.lookup? name with
    | none => exact .throw _
    | some v => exact .pure v
  | typeName name => exact .get (fun _ => .pure _) fun c => by rw [hl]
  | assign name v => cases ho
  | declare name kind v message => cases ho
  | call f args name =>
    cases f with
    | func fn => cases ho
    | _ => exact run_commutes_of_onWorld h rfl
  | _ => exact run_commutes_of_onWorld h rfl

/-- **Changes**: if all operations that satisfy `A` commute with a change in contexts with `P`, so does a plan that comes
to such operations only. -/
theorem Plan.run_commutes {α : Type} {φ : Context → Context} {P : Context → Prop} {A : Trial → Prop}
    (h : ∀ o c, P c → A ⟨o, c⟩ → o.run (φ c) = mapContext φ (o.run c) ∧ P (left (o.run c))) (p : Plan α) {c : Context}
    (hc : P c) (ha : ∀ t ∈ p.tried c, A t) : p.run (φ c) = mapContext φ (p.run c) ∧ P (left (p.run c)) := by
  induction p generalizing c with
  | done a => exact ⟨rfl, hc⟩
  | first o rest ih =>
    obtain ⟨ho, hp⟩ := h o c hc (ha _ mem_tried_first)
    cases hr : o.run c with
    | ok v d =>
      rw [hr] at ho hp
      rw [tried_first_ok hr] at ha
      rw [run_first_ok ho, run_first_ok hr]
      exact ih v hp fun t ht => ha t (List.mem_cons_of_mem _ ht)
    | error e d =>
      rw [hr] at ho hp
      rw [run_first_error ho, run_first_error hr]
      exact ⟨rfl, hp⟩

/-! ## Expressions -/

mutual

def Expr.plan : Expr → Plan Value
  | .bool v _ => return .bool v
  | .num v _ => return .num v
  | .str v _ => return .str v
  | .null _ => return .null
  | .ident name _ => .once (.resolve name)
  | .member object key _ => do
    let o ← object.plan
    let k ← key.plan
    .once (.read o k)
  | .call callee args _ => do
    let f ← callee.plan
    let vs ← Expr.listPlan args
    .once (.call f vs callee.render)
  | .binary op left right _ => do
    let v ← left.plan
    let w ← right.plan
    return op.apply v w
  | .logical op left right _ => do
    let v ← left.plan
    if op.decidedBy v then return v else right.plan
  | .unary .typeOf (.ident name _) _ => .once (.typeName name)
  | .unary op arg _ => do return op.apply (← arg.plan)
  | .update op before (.ident name _) _ => do
    let old := (← .once (.resolve name)).toNumber
    let new := op.apply old
    let _ ← .once (.assign name (.num new))
    return .num (if before then new else old)
  | .update _ _ arg _ => .once (.skip s!"Cannot update {arg.render}: only variables can be incremented")
  | .assign op (.ident name _) value _ =>
    match op.binary? with
    | some bin => do
      let old ← .once (.resolve name)
      let v := bin.apply old (← value.plan)
      let _ ← .once (.assign name v)
      return v
    | none => do
      let v ← value.plan
      let _ ← .once (.assign name v)
      return v
  | .assign op (.member object key _) value _ => do
    let o ← object.plan
    let k ← key.plan
    match op.binary? with
    | some bin =>
      let old ← .once (.read o k)
      let v := bin.apply old (← value.plan)
      let _ ← .once (.write o k v)
      return v
    | none =>
      let v ← value.plan
      let _ ← .once (.write o k v)
      return v
  | .assign _ target _ _ => .once (.reject target.render)
  | .ternary condition consequent alternate _ => do
    if (← condition.plan).truthy then consequent.plan else alternate.plan
  | .function fn => return .func fn
  | .unsupported kind _ => .once (.skip ("Skipped unsupported " ++ kind))

def Expr.listPlan : List Expr → Plan (List Value)
  | [] => return []
  | e :: es => do
    let v ← e.plan
    let vs ← Expr.listPlan es
    return v :: vs

def MemberKey.plan : MemberKey → Plan String
  | .fixed name => return name
  | .computed e => do return (← e.plan).text

end

open Plan

mutual

/-- **Expressions** are evaluated by their plans. -/
theorem Expr.run_plan : ∀ e : Expr, e.plan.run = e.eval
  | .bool _ _ | .num _ _ | .str _ _ | .null _ | .function _ => rfl
  | .ident name _ => run_once _
  | .member object key _ => by
    simp only [Expr.plan, Expr.eval, run_bind, object.run_plan, key.run_plan, run_once, Operation.run]
  | .call callee args _ => by
    simp only [Expr.plan, Expr.eval, run_bind, callee.run_plan, Expr.run_listPlan args, run_once, Operation.run]
  | .binary op left right _ => by
    simp only [Expr.plan, Expr.eval, run_bind, left.run_plan, right.run_plan, run_pure]
  | .logical op left right _ => by
    simp only [Expr.plan, Expr.eval, run_bind, left.run_plan, right.run_plan, run_ite, run_pure]
  | .unary op arg _ => by
    have ih := arg.run_plan
    have happly : (arg.plan >>= fun v => return op.apply v).run = arg.eval >>= fun v => return op.apply v := by
      simp only [run_bind, ih, run_pure]
    cases op with
    | typeOf =>
      cases arg with
      | ident name s => exact run_once _
      | _ => exact happly
    | _ => exact happly
  | .update op before arg span => by
    cases arg with
    | ident name s =>
      simp only [Expr.plan, Expr.eval, Eval.update, run_bind, run_once, run_pure, Operation.run, bind_assoc, pure_bind]
    | _ => exact run_once _
  | .assign op target value span => by
    have ih := value.run_plan
    cases target with
    | ident name s =>
      rw [Expr.plan, Expr.eval]
      cases op.binary? <;>
        simp only [run_bind, run_once, run_pure, ih, Operation.run, bind_assoc, pure_bind]
    | member object key s =>
      rw [Expr.plan, Expr.eval]
      cases op.binary? <;>
        simp only [run_bind, run_once, run_pure, object.run_plan, key.run_plan, ih, Operation.run, bind_assoc, pure_bind]
    | _ => exact run_once _
  | .ternary condition consequent alternate _ => by
    simp only [Expr.plan, Expr.eval, run_bind, condition.run_plan, consequent.run_plan, alternate.run_plan, run_ite]
  | .unsupported kind _ => run_once _

theorem Expr.run_listPlan : ∀ es : List Expr, (Expr.listPlan es).run = Expr.evalList es
  | [] => rfl
  | e :: es => by simp only [Expr.listPlan, Expr.evalList, run_bind, e.run_plan, Expr.run_listPlan es, run_pure]

theorem MemberKey.run_plan : ∀ k : MemberKey, k.plan.run = k.eval
  | .fixed _ => rfl
  | .computed e => by simp only [MemberKey.plan, MemberKey.eval, run_bind, e.run_plan, run_pure]

end

/-! ## Units -/

def Expr.optionPlan : Option Expr → Plan Value
  | none => return .undefined
  | some e => e.plan

def declareAllPlan (kind : VarKind) : List Declarator → Plan Unit
  | [] => return ()
  | d :: ds => do
    let v ← Expr.optionPlan d.init?
    let _ ← once (.declare d.name (.ofVarKind kind) v s!"{kind.keyword} {d.name} = {v.shown}")
    declareAllPlan kind ds

def loopTestPlan : Option Expr → Plan Bool
  | none => return true
  | some e => do return (← e.plan).truthy

def startLoopPlan : Option ForInit → Plan Unit
  | none => return ()
  | some (.declare kind decls _) => declareAllPlan kind decls
  | some (.expr e) => do let _ ← e.plan

def Stmt.plan (s : Stmt) : Plan Outcome := do
  match s with
  | .block body _ => return .next (body.map Work.stmt)
  | .declare kind decls _ =>
    declareAllPlan kind decls
    return .next []
  | .function fn =>
    let params := ", ".intercalate fn.params
    let _ ← once (.declare fn.displayName .func (.func fn) s!"function {fn.displayName}({params})")
    return .next []
  | .expr e _ =>
    let _ ← e.plan
    return .next []
  | .ifElse test thenS elseS _ =>
    if (← test.plan).truthy then return .next [.stmt thenS]
    else return .next (elseS.map Work.stmt).toList
  | .for init test _ _ _ =>
    startLoopPlan init
    if ← loopTestPlan test then return .next (loopRound s) else return .next []
  | .ret value _ => return .leave (← Expr.optionPlan value)
  | .empty _ => return .next []
  | .unsupported kind _ =>
    let _ ← once (.skip ("Skipped unsupported " ++ kind))
    return .next []

def Work.plan : Work → Plan Outcome
  | .stmt s => s.plan
  | .loopUpdate e => do
    let _ ← e.plan
    return .next []
  | .loopCheck (.for init test update body span) => do
    if ← loopTestPlan test then return .next (loopRound (.for init test update body span)) else return .next []
  | .loopCheck _ => return .next []

theorem Expr.run_optionPlan (e : Option Expr) : (Expr.optionPlan e).run = evalOption e := by
  cases e with
  | none => rfl
  | some e => exact e.run_plan

theorem run_declareAllPlan (kind : VarKind) (decls : List Declarator) :
    (declareAllPlan kind decls).run = declareAll kind decls := by
  induction decls with
  | nil => rfl
  | cons d ds ih =>
    simp only [declareAllPlan, declareAll, run_bind, Expr.run_optionPlan, run_once, ih, Operation.run, bind_assoc,
      pure_bind]

theorem run_loopTestPlan (test : Option Expr) : (loopTestPlan test).run = loopTest test := by
  cases test with
  | none => rfl
  | some e => simp only [loopTestPlan, loopTest, run_bind, e.run_plan, run_pure]

theorem run_startLoopPlan (init : Option ForInit) : (startLoopPlan init).run = startLoop init := by
  rcases init with _ | ⟨kind, decls, span⟩ | e
  · rfl
  · exact run_declareAllPlan kind decls
  · simp only [startLoopPlan, startLoop, run_bind, e.run_plan, run_pure]

theorem Stmt.run_plan (s : Stmt) : s.plan.run = s.run := by
  cases s <;>
    simp only [Stmt.plan, Stmt.run, diagnostic, run_bind, run_pure, run_ite, run_once, Expr.run_plan, Expr.run_optionPlan,
      run_declareAllPlan, run_loopTestPlan, run_startLoopPlan, Operation.run, bind_assoc, pure_bind]

/-- **Units** are run by their plans. -/
theorem Work.run_plan (w : Work) : w.plan.run = w.run := by
  cases w with
  | stmt s => exact s.run_plan
  | loopUpdate e => simp only [Work.plan, Work.run, run_bind, run_pure, e.run_plan]
  | loopCheck s =>
    cases s with
    | «for» init test update body span =>
      simp only [Work.plan, Work.run, run_bind, run_pure, run_ite, run_loopTestPlan]
    | _ => rfl

end Stepwise
