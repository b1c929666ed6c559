import Stepwise.Machine.Member

/-!
# Calls

A built-in function runs at once. A function of the script is pushed as a call, and the place of the call gets
`undefined`; its body runs over the following steps.
-/

namespace Stepwise

/-! ## Built-in functions -/

/-- The message that a console call writes. -/
def consoleMessage (args : List Value) : String :=
  " ".intercalate (args.map fun v => match v with
    | .str s => s
    | .list _ | .element _ => v.shown
    | _ => v.text)

/-- What a console message of a level starts with. -/
def ConsoleLevel.mark : ConsoleLevel → String
  | log | info => ""
  | warn => "warning: "
  | error => "error: "

namespace Eval

def log (kind : LogKind) (message : String) : Eval Unit := modify (·.log kind message)

/-- The document; without one its name is not defined. -/
def document : Eval Document := do
  match (← get).world.document with
  | some d => return d
  | none => throw (.notDefined "document")

def setDocument (d : Document) : Eval Unit :=
  modify fun c => { c with world := { c.world with document := some d } }

/-- The result of something that may fail. -/
def ofExcept {α : Type} : Except RuntimeError α → Eval α
  | .ok a => return a
  | .error e => throw e

/-- A found element, or null. -/
def found : Option ElementHandle → Value
  | some handle => .element handle
  | none => .null

/-- Registers a listener on the receiver. -/
def listen (receiver : Option Value) (args : List Value) : Eval Value := do
  match receiver with
  | some (.element target) =>
    let event := argumentText args 0
    let callback := args.getD 1 .undefined
    if ! callback.callable then throw (.notFunction s!"The '{event}' listener {callback.shown}")
    modify fun c => { c with world := { c.world with document := c.world.document.map (·.listen target.node event) } }
    log .event s!"Listening for {event} events on {target.text}"
    modify fun c =>
      let listener := ⟨c.world.listeners.length + 1, target, event, callback⟩
      { c with world := { c.world with listeners := c.world.listeners ++ [listener] } }
    return .undefined
  | _ => throw (.host .noReceiver)

def callBuiltin (fn : Builtin) (receiver : Option Value) (args : List Value) : Eval Value := do
  match fn with
  | .console level =>
    log .console (level.mark ++ consoleMessage args)
    return .undefined
  | .elementById => return found ((← document).byId? (argumentText args 0))
  | .firstMatch => return found ((← document).first? (argumentText args 0))
  | .allMatches => return .list (((← document).all (argumentText args 0)).map Value.element)
  | .listen => listen receiver args
  | .method name =>
    match receiver with
    | some (.element handle) =>
      let (v, d) ← ofExcept ((← document).callMember handle name args)
      setDocument d
      return v
    | _ => throw (.notFunction name)
  | .global name =>
    let (v, d) ← ofExcept (((← document).callGlobal name args).mapError .host)
    setDocument d
    return v

/-! ## All values -/

/-- Calls a value; `name` stands for it if it cannot be called. -/
def callValue (callee : Value) (args : List Value) (handling : Option EventNote) (name : String) : Eval Value := do
  match callee with
  | .builtin fn receiver => callBuiltin fn receiver args
  | .func fn =>
    modify (·.pushCall fn args handling)
    return .undefined
  | _ => throw (.notFunction name)

end Eval

end Stepwise
