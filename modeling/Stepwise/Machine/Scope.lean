import Stepwise.NameMap
import Stepwise.Value.Basic

/-!
# Scopes

The variables of one activation. Beside its value a name has a note on how it was introduced, unless it was only
assigned to.
-/

namespace Stepwise

/-- How a name was introduced. -/
inductive BindingKind where
  | const
  | «let»
  | var
  | func
  | param
deriving DecidableEq, Inhabited

namespace BindingKind

def ofVarKind : VarKind → BindingKind
  | .const => const
  | .let => «let»
  | .var => var

def name : BindingKind → String
  | const => "const"
  | «let» => "let"
  | var => "var"
  | func => "func"
  | param => "param"

def ofName? : String → Option BindingKind
  | "const" => some const
  | "let" => some «let»
  | "var" => some var
  | "func" => some func
  | "param" => some param
  | _ => none

end BindingKind

/-- What is shown beside a declared name. -/
structure BindingNote where
  kind : BindingKind
  /-- The label of the value that the name holds. -/
  label : Option String
deriving DecidableEq, Inhabited

structure Scope where
  values : NameMap Value
  notes : NameMap BindingNote

namespace Scope

def empty : Scope := ⟨∅, ∅⟩

instance : Inhabited Scope := ⟨empty⟩

def get? (s : Scope) (name : String) : Option Value := s.values.get? name

def has (s : Scope) (name : String) : Bool := s.values.contains name

def note? (s : Scope) (name : String) : Option BindingNote := s.notes.get? name

/-- Binds a declared name, in place of an earlier value and note. -/
def declare (s : Scope) (name : String) (kind : BindingKind) (v : Value) : Scope :=
  ⟨s.values.insert name v, s.notes.insert name ⟨kind, v.label⟩⟩

/-- Binds a name without declaring it. A name that was declared keeps its kind and takes a new label. -/
def assign (s : Scope) (name : String) (v : Value) : Scope :=
  ⟨s.values.insert name v,
    match s.notes.get? name with
    | some note => s.notes.insert name { note with label := v.label }
    | none => s.notes⟩

/-- Binds parameters to arguments; those without an argument are undefined. -/
def bindParams (s : Scope) : List String → List Value → Scope
  | [], _ => s
  | p :: ps, args => (s.declare p .param (args.headD .undefined)).bindParams ps args.tail

end Scope

end Stepwise
