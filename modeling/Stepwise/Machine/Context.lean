import Stepwise.Document.Access
import Stepwise.Machine.Log
import Stepwise.Machine.Stack

/-!
# The context of evaluation

What the evaluation of an expression can see and change: the scope of its activation, the global scope, calls that it
pushes, logs, listeners and the document. The rest of a machine is out of its reach.
-/

namespace Stepwise

/-- How the scope of a call relates to the global scope. -/
inductive Scoping where
  /-- A call starts with a copy of the global scope. -/
  | snapshot
  /-- A call starts with its parameters; other names are looked up in the live global scope. -/
  | chained
deriving DecidableEq, Inhabited

namespace Scoping

def name : Scoping → String
  | snapshot => "snapshot"
  | chained => "chained"

def ofName? : String → Option Scoping
  | "snapshot" => some snapshot
  | "chained" => some chained
  | _ => none

end Scoping

/-- Why a run stops before its end. -/
inductive RuntimeError where
  | notDefined (name : String)
  | notFunction (what : String)
  | invalidAssignment (target : String)
  | propertyRead (target property : String)
  | propertyWrite (target property : String)
  | host (cause : HostError)
deriving DecidableEq, Inhabited

def RuntimeError.message : RuntimeError → String
  | notDefined name => name ++ " is not defined"
  | notFunction what => what ++ " is not a function"
  | invalidAssignment target => "Invalid assignment target: " ++ target
  | propertyRead target property => s!"Cannot read properties of {target} (reading '{property}')"
  | propertyWrite target property => s!"Cannot set property '{property}' of {target}"
  | host cause => cause.message

/-- A function that is to be called when an event fires on an element. -/
structure Listener where
  /-- Listeners are numbered from `1` in the order of their registration. -/
  id : Nat
  target : ElementHandle
  event : String
  callback : Value

/-- What lies outside the call stack. -/
structure World where
  logs : List LogEntry
  listeners : List Listener
  document : Option Document

namespace World

def log (w : World) (entry : LogEntry) : World := { w with logs := w.logs ++ [entry] }

end World

structure Context where
  scoping : Scoping
  /-- The line of the current step. -/
  line : Option Nat
  globals : Scope
  /-- The scope of the call that is evaluated in; none at the top level. -/
  locals : Option Scope
  /-- The calls that were made, latest first. -/
  pushed : List Activation
  world : World

/-- A computation that may fail; what it did before it failed stays done. -/
abbrev Eval := EStateM RuntimeError Context

namespace Context

def log (c : Context) (kind : LogKind) (message : String) : Context :=
  { c with world := c.world.log ⟨kind, message, c.line⟩ }

/-! ## Names -/

/-- The value of a name that no scope binds. -/
def predefined? (c : Context) (name : String) : Option Value :=
  match name with
  | "undefined" => some .undefined
  | "NaN" => some (.num nan)
  | "Infinity" => some (.num infinity)
  | "console" => some (.host .console)
  | _ =>
    match c.world.document with
    | none => none
    | some d => if name = "document" then some (.host .document) else d.global? name

/-- The value of a name: the local scope, the global scope, then what is predefined. -/
def lookup? (c : Context) (name : String) : Option Value :=
  match c.locals.bind (·.get? name) with
  | some v => some v
  | none =>
    match c.globals.get? name with
    | some v => some v
    | none => c.predefined? name

/-- Declares a name in the scope that is evaluated in. -/
def declare (c : Context) (name : String) (kind : BindingKind) (v : Value) : Context :=
  match c.locals with
  | some s => { c with locals := some (s.declare name kind v) }
  | none => { c with globals := c.globals.declare name kind v }

/-- Assigns to a name where it is bound; a name that is not bound becomes global. -/
def assign (c : Context) (name : String) (v : Value) : Context :=
  match c.locals with
  | some s =>
    if s.has name then { c with locals := some (s.assign name v) }
    else { c with globals := c.globals.assign name v }
  | none => { c with globals := c.globals.assign name v }

/-! ## Calls -/

/-- The scope that a call starts with. -/
def callScope (c : Context) (fn : FunctionDef) (args : List Value) : Scope :=
  let start := match c.scoping with
    | .snapshot => c.globals
    | .chained => .empty
  start.bindParams fn.params args

/-- Makes a call of a function; its body runs in later steps. -/
def pushCall (c : Context) (fn : FunctionDef) (args : List Value) (handling : Option EventNote) : Context :=
  { c with pushed := ⟨⟨c.callScope fn args, [.stmt fn.body]⟩, fn.displayName, handling⟩ :: c.pushed }

end Context

end Stepwise
