import Stepwise.Machine.Basic
import Stepwise.Machine.Call

/-!
# Events

Firing an event on an element calls every listener that was registered for it. Built-in callbacks run at once; those of
the script become calls, so that the first listener runs first.
-/

namespace Stepwise

/-- The callbacks of listeners in turn. -/
def callListeners (event : String) : List Listener → Eval Unit
  | [] => return ()
  | l :: ls => do
    let _ ← Eval.callValue l.callback [] (some ⟨event, l.target.text⟩) "listener"
    callListeners event ls

namespace Machine

/-- The listeners of an event on an element, in the order of their registration. -/
def listenersFor (m : Machine) (node : Nat) (event : String) : List Listener :=
  m.world.listeners.filter fun l => l.target.node == node && l.event == event

/-- Fires an event on an element. Gives the number of listeners; an observer is shown the machine if there is one. -/
def fire (m : Machine) (node : Nat) (event : String) : Nat × Move :=
  if m.error.isSome then (0, ⟨m, false⟩)
  else
    let listeners := m.listenersFor node event
    if listeners.isEmpty then (0, ⟨m, false⟩)
    else
      let m := listeners.foldl (fun m l => m.log .event s!"{event} event fired on {l.target.text}") m
      -- The innermost call runs first, so the first listener is called last.
      let moved (c : Context) : Machine :=
        { m with
          world := c.world
          stack := ⟨{ m.stack.global with scope := c.globals }, c.pushed ++ m.stack.calls⟩ }
      match callListeners event listeners.reverse (m.context none) with
      | .ok _ c => (listeners.length, ⟨{ moved c with finished := false }, true⟩)
      | .error e c => (listeners.length, ⟨(moved c).halt e, true⟩)

/-- Fires an event on the element with an identifier. -/
def fireById (m : Machine) (id event : String) : Nat × Move :=
  match m.world.document.bind (·.byId? id) with
  | some handle => m.fire handle.node event
  | none => (0, ⟨m, false⟩)

end Machine

end Stepwise
