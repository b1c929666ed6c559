import Stepwise.Document.Basic
import Stepwise.Json.Reader

/-!
# Fixtures

A document written as JSON. Fields that are left out take their defaults and fields that are unknown are passed over; a
known field may be given once. Only the identifier of an element may be null.
-/

namespace Stepwise

namespace Json.Text

/-- The fields of a record with the given names: members of an object, or the items of an array in order. -/
def fields? (names : List String) : Text → Option (List (Option Text))
  | .obj members => do
    let members ← members.mapM fun (name, t) => return (← string? name, t)
    names.mapM fun name =>
      match members.filter (·.1 == name) with
      | [] => some none
      | [(_, t)] => some (some t)
      | _ => none
  | .arr items => if items.length ≤ names.length then some (names.mapIdx fun i _ => items[i]?) else none
  | _ => none

/-- A field that takes a default value when it is left out. -/
def orElse? {α : Type} (default : α) (decode : Text → Option α) : Option Text → Option α
  | none => some default
  | some t => decode t

def asString? : Text → Option String
  | .str ps => string? ps
  | _ => none

def asOptional? : Text → Option (Option String)
  | .null => some none
  | t => (asString? t).map some

def asList? {α : Type} (decode : Text → Option α) : Text → Option (List α)
  | .arr items => items.mapM decode
  | _ => none

/-- A map; of equal names the last one counts. -/
def asMap? {α : Type} (decode : Text → Option α) : Text → Option (NameMap α)
  | .obj members => do return NameMap.ofList (← members.mapM fun (name, t) => return (← string? name, ← decode t))
  | _ => none

end Json.Text

open Json Json.Text

def Element.ofFixture? (t : Json.Text) : Option Element := do
  match ← fields? ["id", "tag", "classes", "properties", "attributes"] t with
  | [id, tag, classes, properties, attributes] =>
    return {
      id := ← orElse? none asOptional? id
      tag := ← orElse? "div" asString? tag
      classes := ← orElse? [] (asList? asString?) classes
      -- The document, its elements, an element and its properties are four levels.
      properties := ← orElse? ∅ (asMap? (value? (maxDepth - 4))) properties
      attributes := ← orElse? ∅ (asMap? asString?) attributes
      listeners := [] }
  | _ => none

def Document.ofText? (t : Json.Text) : Option Document := do
  match ← fields? ["elements", "globals", "answers"] t with
  | [elements, globals, answers] =>
    return { Document.empty with
      elements := ← orElse? [] (asList? Element.ofFixture?) elements
      globals := ← orElse? ∅ (asMap? (value? (maxDepth - 2))) globals
      answers := ← orElse? [] (asList? asString?) answers }
  | _ => none

/-- Reads a document from the text of a fixture. -/
def Document.ofFixture? (source : String) : Option Document := (Json.Text.read source).bind Document.ofText?

end Stepwise
