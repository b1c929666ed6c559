import Stepwise.Syntax.Render

/-!
# Expressions in plain words

A phrase stands for the value of an expression inside a sentence. Well-known calls of the page are described by what
they give; other expressions are quoted.
-/

namespace Stepwise

/-- A text between backquotes. -/
def backquoted (text : String) : String := "`" ++ text ++ "`"

namespace Expr

/-- The object and the name of a member access with a fixed name. -/
def method? : Expr → Option (Expr × String)
  | .member object (.fixed name) _ => some (object, name)
  | _ => none

def isName (e : Expr) (name : String) : Bool :=
  match e with
  | .ident n _ => n == name
  | _ => false

/-- The value of a call, if it is one of the known calls or a call of a named function; `first` is the phrase of the
first argument. -/
def callPhrase? (callee : Expr) (first : String) : Option String :=
  match callee with
  | .member object (.fixed name) _ =>
    if object.isName "document" then
      match name with
      | "getElementById" => some ("the element with id " ++ first)
      | "querySelector" => some ("the first element matching " ++ first)
      | "querySelectorAll" => some ("all elements matching " ++ first)
      | _ => none
    else none
  | .ident "prompt" _ => some ("the answer when you ask the user " ++ first)
  | .ident "confirm" _ => some ("the user's choice when asked " ++ first)
  | .ident name _ => some ("the result of calling " ++ backquoted name)
  | _ => none

mutual

/-- The value of an expression, in words. -/
def phrase : Expr → String
  | .bool v s => render (.bool v s)
  | .num v s => render (.num v s)
  | .str v s => render (.str v s)
  | .null s => render (.null s)
  | .call callee args s =>
    (callee.callPhrase? (firstPhrase args)).getD ("the result of " ++ backquoted (render (.call callee args s)))
  | .function fn => if fn.arrow then "an arrow function" else "a function"
  | e => backquoted e.render

/-- The phrase of the first argument. -/
def firstPhrase : List Expr → String
  | [] => "nothing"
  | e :: _ => e.phrase

end

/-- Phrases in a row, the last one after "and". -/
def enumeration : List String → String
  | [] => "nothing"
  | [p] => p
  | ps => ", ".intercalate ps.dropLast ++ " and " ++ ps.getLastD ""

def phrases (args : List Expr) : String := enumeration (args.map phrase)

end Expr

end Stepwise
