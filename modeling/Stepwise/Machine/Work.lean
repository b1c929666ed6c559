import Stepwise.Explain.Sentence
import Stepwise.Text.Case

/-!
# Units of work

A unit of work waits in the queue of an activation: a statement, or one of the two parts that a running loop comes back
to.
-/

namespace Stepwise

inductive Work where
  | stmt (s : Stmt)
  /-- The update clause of a running loop. -/
  | loopUpdate (update : Expr)
  /-- The next test of a running loop; `loop` is the whole statement. -/
  | loopCheck (loop : Stmt)

instance : Inhabited Work := ⟨.stmt default⟩

namespace Work

def span : Work → Span
  | stmt s => s.span
  | loopUpdate e => e.span
  | loopCheck (.for _ (some test) _ _ _) => test.span
  | loopCheck s => s.span

/-- Whether the unit expands or does nothing without counting as a step. -/
def transparent : Work → Bool
  | stmt (.block ..) | stmt (.empty _) => true
  | _ => false

def kindName : Work → String
  | stmt s => s.kindName
  | loopUpdate _ => "LoopUpdate"
  | loopCheck _ => "LoopCheck"

/-- A sentence with a small first letter. -/
def uncapitalized (sentence : String) : String :=
  match sentence.toList with
  | [] => ""
  | c :: cs => String.ofList (Text.lowerChar c ++ cs)

/-- What running the unit will do, in words. -/
def sentence : Work → String
  | stmt s => s.sentence
  | loopUpdate e => "Update the loop: " ++ uncapitalized e.sentence
  | loopCheck (.for _ (some test) _ _ _) => s!"Check the loop condition {backquoted test.render} again"
  | loopCheck _ => "Repeat the loop"

end Work

mutual

/-- The units that running a statement may reach without calls, outermost first. Functions that are declared are
entered, function expressions are not. -/
def Stmt.units : Stmt → List Work
  | .block body s => .stmt (.block body s) :: Stmt.listUnits body
  | .function (.mk name params body arrow span) =>
    .stmt (.function (.mk name params body arrow span)) :: body.units
  | .ifElse test thenS none s => .stmt (.ifElse test thenS none s) :: thenS.units
  | .ifElse test thenS (some elseS) s =>
    .stmt (.ifElse test thenS (some elseS) s) :: thenS.units ++ elseS.units
  | .for init test update body s =>
    .stmt (.for init test update body s) :: (update.map Work.loopUpdate).toList ++
      .loopCheck (.for init test update body s) :: body.units
  | s => [.stmt s]

def Stmt.listUnits : List Stmt → List Work
  | [] => []
  | s :: ss => s.units ++ Stmt.listUnits ss

end

end Stepwise
