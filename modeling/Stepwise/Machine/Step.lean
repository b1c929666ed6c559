import Stepwise.Machine.Basic
import Stepwise.Machine.Dispatch

/-!
# Steps

A step runs one visible unit. Blocks open and empty statements vanish without a step of their own, and a call whose work
is done leaves the stack.
-/

namespace Stepwise

/-! ## The next unit -/

mutual

/-- The first visible unit of a statement, and what follows it inside the statement. -/
def Stmt.firstUnit? : Stmt → Option (Work × List Work)
  | .block body _ => Stmt.firstUnitOf? body
  | .empty _ => none
  | s => some (.stmt s, [])

def Stmt.firstUnitOf? : List Stmt → Option (Work × List Work)
  | [] => none
  | s :: ss =>
    match s.firstUnit? with
    | some (w, rest) => some (w, rest ++ ss.map Work.stmt)
    | none => Stmt.firstUnitOf? ss

end

/-- The first visible unit of a queue, and the queue after it. -/
def takeUnit? : List Work → Option (Work × List Work)
  | [] => none
  | .stmt s :: queue =>
    match s.firstUnit? with
    | some (w, rest) => some (w, rest ++ queue)
    | none => takeUnit? queue
  | w :: queue => some (w, queue)

/-- The innermost call that has a visible unit. -/
structure Ready where
  unit : Work
  /-- The call, without the unit. -/
  owner : Activation
  /-- The calls below it. -/
  below : List Activation

/-- The calls that have no visible unit left, innermost first, and the first that has one. -/
def nextReady : List Activation → List Activation × Option Ready
  | [] => ([], none)
  | a :: calls =>
    match takeUnit? a.queue with
    | some (unit, queue) => ([], some ⟨unit, { a with queue }, calls⟩)
    | none =>
      let (done, ready) := nextReady calls
      (a :: done, ready)

namespace Machine

/-- Notes that calls are done. -/
def concludedAll (m : Machine) (calls : List Activation) : Machine := calls.foldl concluded m

/-! ## Running a unit -/

/-- Takes note of a unit before it runs. -/
def announce (m : Machine) (unit : Work) : Machine :=
  { m with line := some unit.span.line, explanation := unit.sentence, steps := m.steps + 1 }

/-- The machine with the world of a context and its global scope. -/
def withContext (m : Machine) (c : Context) : Machine :=
  { m with world := c.world, stack := { m.stack with global := { m.stack.global with scope := c.globals } } }

/-- Takes calls that have nothing left to do off the stack; without any work the run is finished. -/
def settle (m : Machine) : Machine :=
  let done := m.stack.calls.takeWhile (·.queue.isEmpty)
  let calls := m.stack.calls.dropWhile (·.queue.isEmpty)
  let m := ({ m with stack := { m.stack with calls } }).concludedAll done
  if calls.isEmpty && m.stack.global.queue.isEmpty then { m with finished := true } else m

/-- Logs what a call gave. -/
def logReturn (m : Machine) (name : String) (v : Value) : Machine := m.log .ret s!"{name} returned {v.shown}"

/-- Runs a unit of a call. -/
def runCall (m : Machine) (r : Ready) : Machine :=
  match r.unit.run (m.context (some r.owner.scope)) with
  | .error e c =>
    let owner := { r.owner with scope := c.locals.getD r.owner.scope }
    let m := m.withContext c
    ({ m with stack := { m.stack with calls := c.pushed ++ owner :: r.below } }).halt e
  | .ok (.next work) c =>
    let owner := { r.owner with scope := c.locals.getD r.owner.scope, queue := work ++ r.owner.queue }
    let m := m.withContext c
    ({ m with stack := { m.stack with calls := c.pushed ++ owner :: r.below } }).settle
  | .ok (.leave v) c =>
    let m := (m.withContext c).logReturn r.owner.name v
    (({ m with stack := { m.stack with calls := c.pushed ++ r.below } }).concluded r.owner).settle

/-- Runs a unit of the top level, where `queue` follows it. A value that leaves the top level ends its work. -/
def runGlobal (m : Machine) (unit : Work) (queue : List Work) : Machine :=
  let finish (m : Machine) (c : Context) (queue : List Work) : Machine :=
    { m with stack := ⟨{ m.stack.global with queue }, c.pushed⟩ }
  match unit.run (m.context none) with
  | .error e c => (finish (m.withContext c) c queue).halt e
  | .ok (.next work) c => (finish (m.withContext c) c (work ++ queue)).settle
  | .ok (.leave v) c => (finish ((m.withContext c).logReturn "(global)" v) c []).settle

/-! ## Steps -/

/-- Runs the next visible unit. A machine that is finished stays as it is. -/
def step (m : Machine) : Move :=
  if m.finished then ⟨m, false⟩
  else
    let (done, ready) := nextReady m.stack.calls
    match ready with
    | some r =>
      let m := ({ m with stack := { m.stack with calls := r.owner :: r.below } }).concludedAll done
      ⟨(m.announce r.unit).runCall r, true⟩
    | none =>
      let m := ({ m with stack := { m.stack with calls := [] } }).concludedAll done
      match takeUnit? m.stack.global.queue with
      | some (unit, queue) => ⟨(m.announce unit).runGlobal unit queue, true⟩
      | none =>
        let stack : Stack := ⟨{ m.stack.global with queue := [] }, []⟩
        ⟨{ m with stack, finished := true }, false⟩

/-- Steps until the machine is finished, `limit` times at most. What an observer gathers is passed along. -/
def runFor {σ : Type} (observe : σ → Machine → σ) : Nat → σ → Machine → σ × Machine
  | 0, s, m => (s, m)
  | limit + 1, s, m =>
    let move := m.step
    let s := if move.shown then observe s move.machine else s
    if move.machine.finished then (s, move.machine) else runFor observe limit s move.machine

end Machine

end Stepwise
