import Stepwise.Document.Basic

/-!
# Reading and changing a document

Properties, methods, listeners and global functions, as a script reaches them.
-/

namespace Stepwise

/-- What the page refuses. -/
inductive HostError where
  | missingElement (node : Nat)
  | readOnlyTag
  | notFunction (name : String)
  /-- A listener was registered on something else than an element. -/
  | noReceiver
deriving DecidableEq, Inhabited

def HostError.message : HostError → String
  | missingElement node => s!"Element {node} no longer exists"
  | readOnlyTag => "tagName is read-only"
  | notFunction name => name ++ " is not a function"
  | noReceiver => "addEventListener called without an element"

/-- What a property of an element is. -/
inductive Property where
  | value (v : Value)
  | method
  | missing

/-- The text of an argument; a missing one is `undefined`. -/
def argumentText (args : List Value) (index : Nat) : String := (args.getD index .undefined).text

namespace Element

def methods : List String := ["getAttribute", "setAttribute", "hasAttribute", "focus"]

/-- The value of a property. What was stored comes first. -/
def get (e : Element) (name : String) : Property :=
  match e.properties.get? name with
  | some data => .value (Value.ofData data)
  | none =>
    match name with
    | "id" => .value (.str (e.id.getD ""))
    | "tagName" => .value (.str (Text.toUpper e.tag))
    | "className" => .value (.str (" ".intercalate e.classes))
    | "textContent" | "innerText" | "innerHTML" | "value" => .value (.str "")
    | _ => if methods.contains name then .method else .missing

def set (e : Element) (name : String) (v : Value) : Except HostError Element :=
  match name with
  | "id" => .ok { e with id := some v.text }
  | "className" => .ok { e with classes := Text.words v.text }
  | "tagName" => .error .readOnlyTag
  | _ => .ok { e with properties := e.properties.insert name v.toData }

/-- The result of a method, and the element after it. -/
def call (e : Element) (name : String) (args : List Value) : Except HostError (Value × Element) :=
  match name with
  | "getAttribute" => .ok (((e.attributes.get? (argumentText args 0)).map Value.str).getD .null, e)
  | "setAttribute" =>
    .ok (.undefined, { e with attributes := e.attributes.insert (argumentText args 0) (argumentText args 1) })
  | "hasAttribute" => .ok (.bool (e.attributes.contains (argumentText args 0)), e)
  | "focus" => .ok (.undefined, e)
  | _ => .error (.notFunction name)

end Element

namespace Document

/-- The element at a place. -/
def element? (d : Document) (node : Nat) : Option Element := d.elements[node]?

def existing (d : Document) (node : Nat) : Except HostError Element :=
  match d.element? node with
  | some e => .ok e
  | none => .error (.missingElement node)

/-- Changes the element at a place. -/
def replace (d : Document) (node : Nat) (e : Element) : Document := { d with elements := d.elements.set node e }

def get (d : Document) (node : Nat) (name : String) : Property :=
  match d.element? node with
  | some e => e.get name
  | none => .missing

def set (d : Document) (node : Nat) (name : String) (v : Value) : Except HostError Document := do
  return d.replace node (← (← d.existing node).set name v)

def call (d : Document) (node : Nat) (name : String) (args : List Value) : Except HostError (Value × Document) := do
  let (v, e) ← (← d.existing node).call name args
  return (v, d.replace node e)

/-- Records that a listener was registered. -/
def listen (d : Document) (node : Nat) (event : String) : Document :=
  match d.element? node with
  | some e => d.replace node { e with listeners := e.listeners ++ [event] }
  | none => d

/-! ## Global names -/

def globalFunctions : List String := ["alert", "prompt", "confirm"]

/-- The value of a global name: what a host lends, the functions of the page, then data. -/
def global? (d : Document) (name : String) : Option Value :=
  match d.lent.get? name with
  | some v => some v
  | none =>
    if globalFunctions.contains name then some (.builtin (.global name) none)
    else (d.globals.get? name).map Value.ofData

/-- The result of a function of the page, and the document after it. -/
def callGlobal (d : Document) (name : String) (args : List Value) : Except HostError (Value × Document) :=
  let message := (args.head?.map Value.text).getD ""
  match name with
  | "alert" => .ok (.undefined, { d with alerts := d.alerts ++ [message] })
  | "prompt" =>
    .ok ((d.answers.head?.map Value.str).getD .null,
      { d with prompts := d.prompts ++ [message], answers := d.answers.tail })
  | "confirm" => .ok (.bool true, { d with prompts := d.prompts ++ [message] })
  | _ => .error (.notFunction name)

end Document

end Stepwise
