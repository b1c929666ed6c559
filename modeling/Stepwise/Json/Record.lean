import Stepwise.Json.Basic

/-!
# Records in JSON

A record is an object with its fields by name, or an array with its fields in order. A case of a sum type is a record
with its tag as first field, under the name `t`. A tag is the name of the case or, where that is said, its number.
-/

namespace Stepwise.Json

mutual

/-- How many arrays and objects stand inside each other, counting from `1`. -/
def depth : Json → Nat
  | arr items => itemsDepth items + 1
  | obj members => membersDepth members + 1
  | _ => 1

def itemsDepth : List Json → Nat
  | [] => 0
  | j :: js => max j.depth (itemsDepth js)

def membersDepth : List (String × Json) → Nat
  | [] => 0
  | (_, j) :: ms => max j.depth (membersDepth ms)

end

/-- The fields of a value that is a record of at most `arity` fields. -/
def record? (arity : Nat) : Json → Option Json
  | obj members => some (obj members)
  | arr items => if items.length ≤ arity then some (arr items) else none
  | _ => none

/-- The tag of a case and its other fields. -/
def tagged? : Json → Option (Json × Json)
  | obj members => ((obj members).get? "t").map (·, obj members)
  | arr (tag :: items) => some (tag, arr items)
  | _ => none

/-- The case among `cases` that a tag tells by its name, or by its place. -/
def case? (cases : List String) : Json → Option String
  | str name => some name
  | int n => if 0 ≤ n then cases[n.toNat]? else none
  | _ => none

/-- A case whose tag is a name. -/
def named? (j : Json) : Option Json :=
  match j.tagged? with
  | some (str _, _) => some j
  | _ => none

/-- A field of a record, by name or by place. -/
def field? (name : String) (index : Nat) : Json → Option Json
  | arr items => items[index]?
  | j => j.get? name

/-- A field that may be null; by name it may also be missing. -/
def optional? {α : Type} (name : String) (index : Nat) (decode : Json → Option α) (record : Json) :
    Option (Option α) :=
  match record, record.field? name index with
  | arr _, none => none
  | _, none => some none
  | _, some null => some none
  | _, some j => (decode j).map some

/-- A field that takes a default value when it is missing. -/
def defaulted? {α : Type} (name : String) (index : Nat) (default : α) (decode : Json → Option α) (record : Json) :
    Option α :=
  match record.field? name index with
  | none => some default
  | some j => decode j

/-- The name of a constant: a string, or an object that holds null under that name. -/
def constant? : Json → Option String
  | str s => some s
  | obj [(s, null)] => some s
  | _ => none

/-- The name of a constant where an object without members counts as null. -/
def looseConstant? : Json → Option String
  | obj [(s, obj [])] => some s
  | j => j.constant?

/-- The tag of a case and its content, which is a single value under the name `content`; an array holds both. -/
def variant? (content : String) : Json → Option (String × Option Json)
  | obj members => do return (← ((obj members).get? "t").bind constant?, (obj members).get? content)
  | arr [tag, j] => do return (← tag.constant?, some j)
  | _ => none

/-- The content of a case that has none: it is missing or null. -/
def noContent? : Option Json → Option Unit
  | none | some null => some ()
  | _ => none

/-- All items of an array, each decoded. -/
def list? {α : Type} (decode : Json → Option α) : Json → Option (List α)
  | arr items => items.mapM decode
  | _ => none

end Stepwise.Json
