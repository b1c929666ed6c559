import Stepwise.Machine.Context
import Stepwise.Text.Units

/-!
# Members of values

Reading and writing `object.name`. The member that registers listeners is the machine's own and hides the element's.
-/

namespace Stepwise

/-! ## Elements -/

namespace Document

/-- The member of an element; a method stays bound to the element. -/
def readMember (d : Document) (handle : ElementHandle) (name : String) : Value :=
  if name = "addEventListener" then .builtin .listen (some (.element handle))
  else
    match d.get handle.node name with
    | .value v => v
    | .method => .builtin (.method name) (some (.element handle))
    | .missing => .undefined

def writeMember (d : Document) (handle : ElementHandle) (name : String) (v : Value) :
    Except RuntimeError Document :=
  if name = "addEventListener" then .error (.propertyWrite handle.text name)
  else (d.set handle.node name v).mapError .host

def callMember (d : Document) (handle : ElementHandle) (name : String) (args : List Value) :
    Except RuntimeError (Value × Document) :=
  (d.call handle.node name args).mapError .host

end Document

/-! ## All values -/

/-- The item that a text gives the index of. -/
def indexed? {α : Type} (items : List α) (key : String) : Option α := do items[← readRadix? 10 key.toList]?

/-- A count as a number. -/
def Value.ofNat (n : Nat) : Value := .num (Decimal.toFloat ⟨n, 0⟩)

namespace Context

def readMember (c : Context) (object : Value) (key : String) : Except RuntimeError Value :=
  match object with
  | .undefined | .null => .error (.propertyRead object.text key)
  | .host .console => .ok (((Builtin.ofConsole? key).map (Value.builtin · none)).getD .undefined)
  | .host .document => .ok (((Builtin.ofDocument? key).map (Value.builtin · none)).getD .undefined)
  | .element handle =>
    match c.world.document with
    | some d => .ok (d.readMember handle key)
    | none => .ok .undefined
  | .list items =>
    if key = "length" then .ok (.ofNat items.length) else .ok ((indexed? items key).getD .undefined)
  | .str s =>
    let units := Text.units s
    if key = "length" then .ok (.ofNat units.length)
    else .ok (((indexed? units key).map fun u => .str (Text.unitText u)).getD .undefined)
  | .func fn =>
    match key with
    | "name" => .ok (.str (fn.name?.getD ""))
    | "length" => .ok (.ofNat fn.params.length)
    | _ => .ok .undefined
  | _ => .ok .undefined

/-- Only elements of a document have members that can be written. -/
def writeMember (c : Context) (object : Value) (key : String) (v : Value) : Except RuntimeError Context :=
  match object, c.world.document with
  | .element handle, some d => do
    let d ← d.writeMember handle key v
    return { c with world := { c.world with document := some d } }
  | _, _ => .error (.propertyWrite object.shown key)

end Context

end Stepwise
