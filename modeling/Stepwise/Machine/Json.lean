import Stepwise.Machine.Basic

/-!
# Machines as JSON

The part of a machine that is shown to other programs: its frames without their queues, its logs and where it stands.
-/

namespace Stepwise

open Json

/-! ## Scopes -/

/-- The members of a map, in name order. -/
def NameMap.toJson {α : Type} (encode : α → Json) (m : NameMap α) : Json :=
  .obj (m.entries.map fun (name, a) => (name, encode a))

def NameMap.ofJson? {α : Type} (decode : Json → Option α) : Json → Option (NameMap α)
  | .obj members => do return .ofList (← members.mapM fun (name, j) => return (name, ← decode j))
  | _ => none

namespace BindingNote

def toJson (n : BindingNote) : Json :=
  .obj (("kind", .str n.kind.name) :: (n.label.map fun l => ("label", .str l)).toList)

def ofJson? (j : Json) : Option BindingNote := do
  let r ← record? 2 j
  let kind ← part? "kind" 0 Json.constant? r
  return ⟨← BindingKind.ofName? kind, ← r.optional? "label" 1 Json.str?⟩

end BindingNote

namespace Scope

def toJson (s : Scope) : Json :=
  .obj [("values", s.values.toJson Value.toJson), ("meta", s.notes.toJson BindingNote.toJson)]

def ofJson? (j : Json) : Option Scope := do
  let r ← record? 2 j
  let values ← part? "values" 0 (NameMap.ofJson? Value.ofJson?) r
  let notes ← part? "meta" 1 (NameMap.ofJson? BindingNote.ofJson?) r
  return ⟨values, notes⟩

end Scope

/-! ## Stacks -/

def EventNote.toJson (n : EventNote) : Json :=
  .obj [("t", .str "EventHandled"), ("event", .str n.event), ("target", .str n.target)]

def FrameView.toJson (f : FrameView) : Json :=
  .obj ([("name", .ofOption .str f.name), ("is_function", .bool f.name.isSome), ("scope", f.scope.toJson)] ++
    (f.handling.map fun n => ("on_return", n.toJson)).toList)

def Stack.toJson (s : Stack) : Json := .arr (s.frames.map FrameView.toJson)

/-! ## Machines -/

def LogEntry.toJson (e : LogEntry) : Json :=
  .obj [("kind", .str e.kind.name), ("message", .str e.message), ("line", .ofOption .nat e.line)]

def Machine.toJson (m : Machine) : Json :=
  .obj [("stack", m.stack.toJson), ("logs", .arr (m.world.logs.map LogEntry.toJson)), ("finished", .bool m.finished),
    ("error", .ofOption (fun e => .str e.message) m.error), ("current_line", .ofOption .nat m.line),
    ("explanation", .str m.explanation), ("steps", .nat m.steps)]

end Stepwise
