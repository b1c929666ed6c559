import Stepwise.Machine.Scope
import Stepwise.Machine.Work

/-!
# The call stack

A frame has a scope and a queue of work. The global frame stays for the whole run; calls come and go above it. Frames
are addressed by depth: `0` is the global frame and `n` the `n`-th call above it.
-/

namespace Stepwise

structure Frame where
  scope : Scope
  /-- The work that is left, next unit first. -/
  queue : List Work

/-- What is logged when a call that handles an event is done. -/
structure EventNote where
  event : String
  target : String
deriving DecidableEq, Inhabited

def EventNote.message (n : EventNote) : String := s!"Finished handling {n.event} event on {n.target}"

/-- The frame of a call. -/
structure Activation extends Frame where
  name : String
  /-- The event that the call handles, if it was made for one. -/
  handling : Option EventNote

structure Stack where
  global : Frame
  /-- The calls, innermost first. -/
  calls : List Activation

/-- A frame as it is shown; the global one has no name. -/
structure FrameView extends Frame where
  name : Option String
  handling : Option EventNote

namespace FrameView

def ofActivation (a : Activation) : FrameView := ⟨a.toFrame, some a.name, a.handling⟩

def displayName (f : FrameView) : String := f.name.getD "(global)"

end FrameView

namespace Stack

/-- The stack before the first step of a script. -/
def start (body : Stmt) : Stack := ⟨⟨.empty, [.stmt body]⟩, []⟩

def depth (s : Stack) : Nat := s.calls.length

/-- All frames, the global one first. -/
def frames (s : Stack) : List FrameView :=
  ⟨s.global, none, none⟩ :: s.calls.reverse.map FrameView.ofActivation

def names (s : Stack) : List String := s.frames.map FrameView.displayName

/-- The innermost frame. -/
def current (s : Stack) : FrameView :=
  match s.calls with
  | a :: _ => .ofActivation a
  | [] => ⟨s.global, none, none⟩

/-- The frame at a depth; beyond the innermost frame it is that one. -/
def frameAt (s : Stack) (depth : Nat) : FrameView := s.frames.getD depth s.current

def push (s : Stack) (a : Activation) : Stack := { s with calls := a :: s.calls }

/-- Takes the innermost call off. -/
def pop? (s : Stack) : Option (Activation × Stack) :=
  match s.calls with
  | a :: calls => some (a, { s with calls })
  | [] => none

/-- Takes the call at a depth out and keeps those above it. -/
def remove? (s : Stack) (depth : Nat) : Option (Activation × Stack) :=
  if depth = 0 then none
  else do
    let a ← s.calls.reverse[depth - 1]?
    return (a, { s with calls := (s.calls.reverse.eraseIdx (depth - 1)).reverse })

/-- Changes the frame at a depth; beyond the innermost frame it is that one. -/
def modifyAt (s : Stack) (depth : Nat) (f : Frame → Frame) : Stack :=
  match min depth s.depth with
  | 0 => { s with global := f s.global }
  | n + 1 =>
    { s with calls := s.calls.modify (s.depth - (n + 1)) fun a => { a with toFrame := f a.toFrame } }

end Stack

end Stepwise
