import Stepwise.Json.Printer
import Stepwise.Syntax.Json
import Stepwise.Value.Convert

/-!
# Values as JSON

Two encodings. The data of a page is plain JSON: `toData` and `ofData` go between it and values, and what has no JSON
form becomes its text. A state is saved with `toJson`, which keeps the kind of every value under `t` and its content
under `v`; `ofJson?` reads it back.
-/

namespace Stepwise

open Json

/-! ## Parts -/

namespace Builtin

/-- The tag of a function in saved states. -/
def tag : Builtin → String
  | console .log => "ConsoleLog"
  | console .info => "ConsoleInfo"
  | console .warn => "ConsoleWarn"
  | console .error => "ConsoleError"
  | elementById => "GetElementById"
  | firstMatch => "QuerySelector"
  | allMatches => "QuerySelectorAll"
  | listen => "AddEventListener"
  | method _ => "ElementMethod"
  | global _ => "HostGlobal"

def toJson : Builtin → Json
  | method name => .obj [("t", .str "ElementMethod"), ("name", .str name)]
  | global name => .obj [("t", .str "HostGlobal"), ("name", .str name)]
  | fn => .obj [("t", .str fn.tag)]

/-- The functions that their tags determine. -/
def constants : List Builtin :=
  [console .log, console .info, console .warn, console .error, elementById, firstMatch, allMatches, listen]

def ofJson? (j : Json) : Option Builtin := do
  let (tag, content) ← j.variant? "name"
  match tag with
  | "ElementMethod" => return method (← content.bind Json.str?)
  | "HostGlobal" => return global (← content.bind Json.str?)
  | _ => noContent? content; constants.find? (·.tag == tag)

end Builtin

def HostObject.tag : HostObject → String
  | console => "Console"
  | document => "Document"

def HostObject.ofTag? : String → Option HostObject
  | "Console" => some console
  | "Document" => some document
  | _ => none

namespace ElementHandle

def toJson (e : ElementHandle) : Json :=
  .obj [("node", .nat e.node), ("tag", .str e.tag), ("id", .ofOption .str e.id)]

def ofJson? (j : Json) : Option ElementHandle := do
  let r ← record? 3 j
  return ⟨← part? "node" 0 Json.nat? r, ← part? "tag" 1 Json.str? r, ← r.optional? "id" 2 Json.str?⟩

end ElementHandle

namespace Value

/-! ## Saved values -/

/-- A value with its tag and its content. -/
def saved (tag : String) (content : Json) : Json := .obj [("t", .str tag), ("v", content)]

mutual

def toJson : Value → Json
  | undefined => .obj [("t", .str "Undefined")]
  | null => .obj [("t", .str "Null")]
  | bool b => saved "Bool" (.bool b)
  | num x => saved "Num" (.float x)
  | str s => saved "Str" (.str s)
  | list items => saved "List" (.arr (listToJson items))
  | func fn => saved "Func" fn.toJson
  | builtin fn none => saved "Native" (.obj [("func", fn.toJson), ("this", .null)])
  | builtin fn (some v) => saved "Native" (.obj [("func", fn.toJson), ("this", v.toJson)])
  | host object => saved "Host" (.str object.tag)
  | element handle => saved "Element" handle.toJson

def listToJson : List Value → List Json
  | [] => []
  | v :: vs => v.toJson :: listToJson vs

end

/-- The value that was saved, with at most `fuel` values inside each other. -/
def decode? : Nat → Json → Option Value
  | 0, _ => none
  | fuel + 1, j => do
    let (tag, content) ← j.variant? "v"
    match tag with
    | "Undefined" => noContent? content; return undefined
    | "Null" => noContent? content; return null
    | "Bool" => return bool (← content.bind Json.bool?)
    | "Num" => return num (← content.bind Json.float?)
    | "Str" => return str (← content.bind Json.str?)
    | "List" => return list (← content.bind (Json.list? (decode? fuel)))
    | "Func" => return func (← content.bind FunctionDef.ofJson?)
    | "Native" =>
      let r ← content.bind (record? 2)
      return builtin (← part? "func" 0 Builtin.ofJson? r) (← r.optional? "this" 1 (decode? fuel))
    | "Host" => return host (← (content.bind Json.constant?).bind HostObject.ofTag?)
    | "Element" => return element (← content.bind ElementHandle.ofJson?)
    | _ => none

/-- The value that was saved as a JSON value. -/
def ofJson? (j : Json) : Option Value := decode? j.depth j

/-! ## Data of a page -/

mutual

/-- The value of data. An object becomes its compact text with sorted members. -/
def ofData : Json → Value
  | .null => null
  | .bool b => bool b
  | .int n => num ((Json.float? (.int n)).getD nan)
  | .float x => num x
  | .str s => str s
  | .arr items => list (ofDataList items)
  | .obj members => str (Json.obj members).sorted.compact

def ofDataList : List Json → List Value
  | [] => []
  | j :: js => ofData j :: ofDataList js

end

mutual

/-- The data that a value is stored as. What is no finite number, string or list of such becomes null or its text. -/
def toData : Value → Json
  | undefined | null => .null
  | bool b => .bool b
  | num x => if x.isNaN || x.isInf then .str (numberText x) else .float x
  | str s => .str s
  | list items => .arr (toDataList items)
  | v => .str v.text

def toDataList : List Value → List Json
  | [] => []
  | v :: vs => v.toData :: toDataList vs

end

end Value

end Stepwise
