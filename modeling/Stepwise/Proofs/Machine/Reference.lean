import Stepwise.Machine.Step

/-!
# Scripts as structured programs

A reference for what a run of a script does, by recursion on statements and without queues or a stack. A *unit* is the
part of a statement that runs at once: a test, an initialisation with its first test, an update, a returned value, or a
whole statement that is none of `if`, `for`, `return` and a block. Calls that are made in a unit do not interrupt it:
they are run to completion right after it, latest first (`UnitRuns`, `CallsRun`). Around units the control structure is
that of the statements (`StmtRuns`, `BodyRuns`, `RoundsRun`).

A judgement says how a piece of script ends when it is started in a store; there is none for a piece that does not end.
`Program.Yields` is the judgement for a whole script.
-/

namespace Stepwise

/-! ## Stores and endings -/

/-- What outlives an activation: where the last unit stands, the number of units, the global scope and the world. -/
structure Store where
  line : Option Nat
  steps : Nat
  globals : Scope
  world : World

/-- What is seen of a run that has ended. -/
structure Summary where
  globals : Scope
  logs : List LogEntry
  listeners : List Listener
  document : Option Document
  error : Option RuntimeError
  /-- The number of units. -/
  steps : Nat

namespace Store

/-- The store before a script starts. -/
def start (document : Option Document) : Store := ⟨none, 0, .empty, ⟨[], [], document⟩⟩

/-- What a unit sees that stands at `span` and has the given local scope. -/
def context (s : Store) (scoping : Scoping) (locals : Option Scope) (span : Span) : Context :=
  ⟨scoping, some span.line, s.globals, locals, [], s.world⟩

/-- The store after a unit that stands at `span` and left the context `c`. -/
def after (s : Store) (span : Span) (c : Context) : Store := ⟨some span.line, s.steps + 1, c.globals, c.world⟩

def summary (s : Store) (error : Option RuntimeError) : Summary :=
  ⟨s.globals, s.world.logs, s.world.listeners, s.world.document, error, s.steps⟩

end Store

/-- How a statement ends. -/
inductive Exit where
  /-- The activation goes on with the given local scope. -/
  | next (locals : Option Scope)
  /-- The activation is left. -/
  | left
  /-- The run stops. -/
  | failed (e : RuntimeError)

namespace Exit

def error? : Exit → Option RuntimeError
  | failed e => some e
  | _ => none

/-- Whether the rest of the activation is run. -/
def continues : Exit → Bool
  | next _ => true
  | _ => false

end Exit

/-! ## Units -/

/-- What a statement does as one unit, if it is no control structure. -/
def Stmt.effect : Stmt → Eval Unit
  | .declare kind decls _ => declareAll kind decls
  | .function fn => do
    let params := ", ".intercalate fn.params
    Eval.log .binding s!"function {fn.displayName}({params})"
    modify (·.declare fn.displayName .func (.func fn))
  | .expr e _ => do let _ ← e.eval
  | .unsupported kind _ => Eval.diagnostic ("Skipped unsupported " ++ kind)
  | _ => return ()

/-- Whether a statement is one unit. -/
def Stmt.isPlain : Stmt → Bool
  | .declare .. | .function _ | .expr .. | .unsupported .. => true
  | _ => false

/-- Evaluates what the activation called `name` returns, and logs it. -/
def returnValue (name : String) (value : Option Expr) : Eval Unit := do
  let v ← evalOption value
  Eval.log .ret s!"{name} returned {v.shown}"

/-- Starts a loop and tests it for the first time. -/
def enterLoop (init : Option ForInit) (test : Option Expr) : Eval Bool := do
  startLoop init
  loopTest test

/-- Where the later tests of a loop at `span` stand. -/
def testSpan (test : Option Expr) (span : Span) : Span := (test.map Expr.span).getD span

/-! ## Judgements -/

section

variable (scoping : Scoping)

mutual

/-- `UnitRuns act span l s r t`: a unit at `span`, run with the local scope `l` in the store `s`, and then the calls it
made end in `t`. The unit gives a value and a local scope, or the run stops. -/
inductive UnitRuns : {α : Type} → Eval α → Span → Option Scope → Store → Except RuntimeError (α × Option Scope) →
    Store → Prop
  | done {α : Type} {act : Eval α} {span : Span} {l : Option Scope} {s t : Store} {a : α} {c : Context} :
    act (s.context scoping l span) = .ok a c → CallsRun c.pushed (s.after span c) none t →
    UnitRuns act span l s (.ok (a, c.locals)) t
  | callFails {α : Type} {act : Eval α} {span : Span} {l : Option Scope} {s t : Store} {a : α} {c : Context}
    {e : RuntimeError} :
    act (s.context scoping l span) = .ok a c → CallsRun c.pushed (s.after span c) (some e) t →
    UnitRuns act span l s (.error e) t
  | fails {α : Type} {act : Eval α} {span : Span} {l : Option Scope} {s : Store} {e : RuntimeError} {c : Context} :
    act (s.context scoping l span) = .error e c → UnitRuns act span l s (.error e) (s.after span c)

/-- `CallsRun calls s e t`: calls are run to completion, first to last, unless one fails. -/
inductive CallsRun : List Activation → Store → Option RuntimeError → Store → Prop
  | nil {s : Store} : CallsRun [] s none s
  | cons {scope : Scope} {body : Stmt} {name : String} {calls : List Activation} {s t u : Store} {x : Exit}
    {e : Option RuntimeError} :
    StmtRuns name body (some scope) s x t → x.error? = none → CallsRun calls t e u →
    CallsRun (⟨⟨scope, [.stmt body]⟩, name, none⟩ :: calls) s e u
  | fails {scope : Scope} {body : Stmt} {name : String} {calls : List Activation} {s t : Store} {e : RuntimeError} :
    StmtRuns name body (some scope) s (.failed e) t →
    CallsRun (⟨⟨scope, [.stmt body]⟩, name, none⟩ :: calls) s (some e) t

/-- `StmtRuns name st l s x t`: in the activation called `name`, with the local scope `l`, the statement `st` started in
`s` ends with `x` in `t`. -/
inductive StmtRuns : String → Stmt → Option Scope → Store → Exit → Store → Prop
  | block {name : String} {body : List Stmt} {span : Span} {l : Option Scope} {s t : Store} {x : Exit} :
    BodyRuns name body l s x t → StmtRuns name (.block body span) l s x t
  | empty {name : String} {span : Span} {l : Option Scope} {s : Store} : StmtRuns name (.empty span) l s (.next l) s
  | plain {name : String} {st : Stmt} {l k : Option Scope} {s t : Store} : st.isPlain →
    UnitRuns st.effect st.span l s (.ok ((), k)) t → StmtRuns name st l s (.next k) t
  | plainFails {name : String} {st : Stmt} {l : Option Scope} {s t : Store} {e : RuntimeError} : st.isPlain →
    UnitRuns st.effect st.span l s (.error e) t → StmtRuns name st l s (.failed e) t
  | ifElse {name : String} {test : Expr} {thenS : Stmt} {elseS : Option Stmt} {span : Span} {l k : Option Scope}
    {s t u : Store} {v : Value} {x : Exit} :
    UnitRuns test.eval span l s (.ok (v, k)) t → BodyRuns name (if v.truthy then [thenS] else elseS.toList) k t x u →
    StmtRuns name (.ifElse test thenS elseS span) l s x u
  | ifFails {name : String} {test : Expr} {thenS : Stmt} {elseS : Option Stmt} {span : Span} {l : Option Scope}
    {s t : Store} {e : RuntimeError} :
    UnitRuns test.eval span l s (.error e) t → StmtRuns name (.ifElse test thenS elseS span) l s (.failed e) t
  | loop {name : String} {init : Option ForInit} {test update : Option Expr} {body : Stmt} {span : Span}
    {l k : Option Scope} {s t u : Store} {x : Exit} :
    UnitRuns (enterLoop init test) span l s (.ok (true, k)) t →
    RoundsRun name test update body (testSpan test span) k t x u →
    StmtRuns name (.for init test update body span) l s x u
  | loopPassed {name : String} {init : Option ForInit} {test update : Option Expr} {body : Stmt} {span : Span}
    {l k : Option Scope} {s t : Store} :
    UnitRuns (enterLoop init test) span l s (.ok (false, k)) t →
    StmtRuns name (.for init test update body span) l s (.next k) t
  | loopFails {name : String} {init : Option ForInit} {test update : Option Expr} {body : Stmt} {span : Span}
    {l : Option Scope} {s t : Store} {e : RuntimeError} :
    UnitRuns (enterLoop init test) span l s (.error e) t →
    StmtRuns name (.for init test update body span) l s (.failed e) t
  | ret {name : String} {value : Option Expr} {span : Span} {l k : Option Scope} {s t : Store} :
    UnitRuns (returnValue name value) span l s (.ok ((), k)) t → StmtRuns name (.ret value span) l s .left t
  | retFails {name : String} {value : Option Expr} {span : Span} {l : Option Scope} {s t : Store} {e : RuntimeError} :
    UnitRuns (returnValue name value) span l s (.error e) t → StmtRuns name (.ret value span) l s (.failed e) t

/-- Statements run in order; one that does not continue ends them all. -/
inductive BodyRuns : String → List Stmt → Option Scope → Store → Exit → Store → Prop
  | nil {name : String} {l : Option Scope} {s : Store} : BodyRuns name [] l s (.next l) s
  | cons {name : String} {st : Stmt} {rest : List Stmt} {l k : Option Scope} {s t u : Store} {x : Exit} :
    StmtRuns name st l s (.next k) t → BodyRuns name rest k t x u → BodyRuns name (st :: rest) l s x u
  | stop {name : String} {st : Stmt} {rest : List Stmt} {l : Option Scope} {s t : Store} {x : Exit} :
    StmtRuns name st l s x t → x.continues = false → BodyRuns name (st :: rest) l s x t

/-- The rounds of a loop whose test has just passed: the body, the update if there is one, and the next test, which
decides whether there is another round. -/
inductive RoundsRun : String → Option Expr → Option Expr → Stmt → Span → Option Scope → Store → Exit → Store → Prop
  | again {name : String} {test update : Option Expr} {body : Stmt} {span : Span} {l k j i : Option Scope}
    {s t u v w : Store} {x : Exit} :
    StmtRuns name body l s (.next k) t → UpdateRuns update k t (.ok j) u →
    UnitRuns (loopTest test) span j u (.ok (true, i)) v → RoundsRun name test update body span i v x w →
    RoundsRun name test update body span l s x w
  | passed {name : String} {test update : Option Expr} {body : Stmt} {span : Span} {l k j i : Option Scope}
    {s t u v : Store} :
    StmtRuns name body l s (.next k) t → UpdateRuns update k t (.ok j) u →
    UnitRuns (loopTest test) span j u (.ok (false, i)) v → RoundsRun name test update body span l s (.next i) v
  | testFails {name : String} {test update : Option Expr} {body : Stmt} {span : Span} {l k j : Option Scope}
    {s t u v : Store} {e : RuntimeError} :
    StmtRuns name body l s (.next k) t → UpdateRuns update k t (.ok j) u →
    UnitRuns (loopTest test) span j u (.error e) v → RoundsRun name test update body span l s (.failed e) v
  | updateFails {name : String} {test update : Option Expr} {body : Stmt} {span : Span} {l k : Option Scope}
    {s t u : Store} {e : RuntimeError} :
    StmtRuns name body l s (.next k) t → UpdateRuns update k t (.error e) u →
    RoundsRun name test update body span l s (.failed e) u
  | stop {name : String} {test update : Option Expr} {body : Stmt} {span : Span} {l : Option Scope} {s t : Store}
    {x : Exit} :
    StmtRuns name body l s x t → x.continues = false → RoundsRun name test update body span l s x t

/-- The update of a loop is a unit of its own; without one nothing happens. -/
inductive UpdateRuns : Option Expr → Option Scope → Store → Except RuntimeError (Option Scope) → Store → Prop
  | none {l : Option Scope} {s : Store} : UpdateRuns none l s (.ok l) s
  | some {e : Expr} {l k : Option Scope} {s t : Store} {v : Value} :
    UnitRuns e.eval e.span l s (.ok (v, k)) t → UpdateRuns (some e) l s (.ok k) t
  | fails {e : Expr} {l : Option Scope} {s t : Store} {err : RuntimeError} :
    UnitRuns e.eval e.span l s (.error err) t → UpdateRuns (some e) l s (.error err) t

end

end

/-- A script run on a document ends with a summary. The top level is the activation without local scope. -/
def Program.Yields (scoping : Scoping) (p : Program) (document : Option Document) (r : Summary) : Prop :=
  ∃ x t, StmtRuns scoping "(global)" p.body none (.start document) x t ∧ t.summary x.error? = r

end Stepwise
