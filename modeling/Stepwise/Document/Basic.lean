import Stepwise.Text.Blank
import Stepwise.Text.Case
import Stepwise.Value.Json

/-!
# Documents

The page that a script works on: a row of elements, global names with their data, the answers that `prompt` will give,
and a record of what was shown and asked. An element is known by its place in the row.
-/

namespace Stepwise

structure Element where
  id : Option String
  tag : String
  classes : List String
  /-- What a script reads and writes, such as `textContent`. -/
  properties : NameMap Json
  attributes : NameMap String
  /-- The events that listeners were registered for. -/
  listeners : List String

namespace Element

instance : Inhabited Element := ⟨⟨none, "div", [], ∅, ∅, []⟩⟩

/-- A new element; its tag is written in lower case. -/
def ofTag (tag : String) : Element := { (default : Element) with tag := Text.toLower tag }

/-- Equality of texts up to the case of the letters `A` to `Z`. -/
def sameLetters (s t : List Char) : Bool := s.map Char.toLower == t.map Char.toLower

/-- Whether a selector fits: `#id`, `.class` or a tag. -/
def fits (e : Element) (selector : String) : Bool :=
  match Text.trim selector.toList with
  | '#' :: id => e.id == some (String.ofList id)
  | '.' :: name => e.classes.contains (String.ofList name)
  | tag => sameLetters e.tag.toList tag

/-- The text of a property; without one it is empty. -/
def text (e : Element) (name : String) : String :=
  match e.properties.get? name with
  | some data => (Value.ofData data).text
  | none => ""

end Element

structure Document where
  elements : List Element
  /-- Data under global names. -/
  globals : NameMap Json
  /-- The answers that `prompt` gives, first to last. -/
  answers : List String
  /-- What `alert` was called with. -/
  alerts : List String
  /-- What `prompt` and `confirm` were called with. -/
  prompts : List String
  /-- Values that a host lends to scripts under global names of their own. -/
  lent : NameMap Value

namespace Document

def empty : Document := ⟨[], ∅, [], [], [], ∅⟩

instance : Inhabited Document := ⟨empty⟩

/-! ## Finding elements -/

/-- The handle of an element. -/
def handle (node : Nat) (e : Element) : ElementHandle := ⟨node, e.tag, e.id⟩

/-- The elements that pass a test, in order. -/
def select (d : Document) (test : Element → Bool) : List ElementHandle :=
  d.elements.zipIdx.filterMap fun (e, node) => if test e then some (handle node e) else none

/-- The first element with an identifier. -/
def byId? (d : Document) (id : String) : Option ElementHandle := (d.select (·.id == some id)).head?

/-- The first element that a selector fits. -/
def first? (d : Document) (selector : String) : Option ElementHandle := (d.select (·.fits selector)).head?

/-- All elements that a selector fits. -/
def all (d : Document) (selector : String) : List ElementHandle := d.select (·.fits selector)

/-! ## Building -/

/-- Puts an element at the end. -/
def push (d : Document) (e : Element) : Document := { d with elements := d.elements ++ [e] }

end Document

end Stepwise
