import Stepwise.Syntax.Same

/-!
# Runtime values

What a script computes with. A function is its own syntax tree. The page comes in through built-in functions, the two
objects `console` and `document`, and handles of elements.
-/

namespace Stepwise

/-- The severity of a message that a script writes to the console. -/
inductive ConsoleLevel where
  | log
  | info
  | warn
  | error
deriving DecidableEq, Inhabited

/-- Functions that the page provides. -/
inductive Builtin where
  | console (level : ConsoleLevel)
  | elementById
  | firstMatch
  | allMatches
  /-- Registers a listener on the element it is bound to. -/
  | listen
  /-- A method of the element it is bound to. -/
  | method (name : String)
  /-- A function in the global names of the page. -/
  | global (name : String)
deriving DecidableEq, Inhabited

inductive HostObject where
  | console
  | document
deriving DecidableEq, Inhabited

/-- An element as a script holds it: its place in the document, and tag and identifier when it was found. -/
structure ElementHandle where
  node : Nat
  tag : String
  id : Option String
deriving DecidableEq, Inhabited

/-- The short form in logs, such as `<button#save>`. -/
def ElementHandle.text (e : ElementHandle) : String :=
  match e.id with
  | some id => s!"<{e.tag}#{id}>"
  | none => s!"<{e.tag}>"

inductive Value where
  | undefined
  | null
  | bool (b : Bool)
  | num (x : Float)
  | str (s : String)
  /-- A list that the page gave; scripts cannot write one. -/
  | list (items : List Value)
  | func (fn : FunctionDef)
  /-- A function of the page, with the value it is bound to. -/
  | builtin (fn : Builtin) (receiver : Option Value)
  | host (object : HostObject)
  | element (handle : ElementHandle)

instance : Inhabited Value := ⟨.undefined⟩

def ConsoleLevel.name : ConsoleLevel → String
  | log => "log"
  | info => "info"
  | warn => "warn"
  | error => "error"

namespace Builtin

/-- The name under which a script finds the function. -/
def name : Builtin → String
  | console level => level.name
  | elementById => "getElementById"
  | firstMatch => "querySelector"
  | allMatches => "querySelectorAll"
  | listen => "addEventListener"
  | method name | global name => name

/-- The member of `console` with a name. -/
def ofConsole? : String → Option Builtin
  | "log" => some (console .log)
  | "info" => some (console .info)
  | "warn" => some (console .warn)
  | "error" => some (console .error)
  | _ => none

/-- The member of `document` with a name. -/
def ofDocument? : String → Option Builtin
  | "getElementById" => some elementById
  | "querySelector" => some firstMatch
  | "querySelectorAll" => some allMatches
  | _ => none

end Builtin

namespace Value

mutual

/-- Sameness of representations; see `Expr.same` for numbers. -/
def same : Value → Value → Bool
  | undefined, w => match w with | undefined => true | _ => false
  | null, w => match w with | null => true | _ => false
  | bool a, w => match w with | bool b => a == b | _ => false
  | num x, w => match w with | num y => x == y | _ => false
  | str s, w => match w with | str t => s == t | _ => false
  | list vs, w => match w with | list ws => listSame vs ws | _ => false
  | func f, w => match w with | func g => f.same g | _ => false
  | builtin f r, w => match w with | builtin g q => f == g && optionSame r q | _ => false
  | host o, w => match w with | host p => o == p | _ => false
  | element e, w => match w with | element d => e == d | _ => false

def listSame : List Value → List Value → Bool
  | [], ws => ws.isEmpty
  | v :: vs, ws => match ws with | w :: ws => v.same w && listSame vs ws | [] => false

def optionSame : Option Value → Option Value → Bool
  | none, w => w.isNone
  | some v, w => match w with | some w => v.same w | none => false

end

/-- Whether the value can be called. -/
def callable : Value → Bool
  | func _ | builtin .. => true
  | _ => false

def isElement : Value → Bool
  | element _ => true
  | _ => false

/-- What `typeof` gives. -/
def typeName : Value → String
  | undefined => "undefined"
  | null => "object"
  | bool _ => "boolean"
  | num _ => "number"
  | str _ => "string"
  | func _ | builtin .. => "function"
  | list _ | host _ | element _ => "object"

/-- The label that a binding of the value is shown with. -/
def label : Value → Option String
  | element _ => some "element"
  | list items =>
    some (if ! items.isEmpty && items.all isElement then s!"NodeList ({items.length})" else s!"list ({items.length})")
  | func _ | builtin .. => some "function"
  | _ => none

end Value

end Stepwise
