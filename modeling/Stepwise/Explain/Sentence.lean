import Stepwise.Explain.Phrase

/-!
# Statements in plain words

The sentence of a statement says what running it will do. It is read off the tree alone; nothing is evaluated.
-/

namespace Stepwise

/-! ## Calls -/

/-- A sentence about a call, completed by its arguments. -/
def withArguments (sentence : String) (args : List Expr) : String :=
  if args.isEmpty then sentence else sentence ++ " with " ++ Expr.phrases args

/-- What a listener is registered on. -/
def listenerTarget (object : Expr) : String :=
  match object with
  | .call callee args _ => (callee.callPhrase? (Expr.firstPhrase args)).getD (backquoted object.render)
  | _ => backquoted object.render

def consoleMethods : List String := ["log", "info", "warn", "error"]

/-- A call that stands as a statement. -/
def callSentence (callee : Expr) (args : List Expr) : String :=
  let first := Expr.firstPhrase args
  match callee with
  | .member object (.fixed name) _ =>
    if object.isName "console" && consoleMethods.contains name then s!"Print {Expr.phrases args} to the console"
    else if name == "addEventListener" then s!"Listen for {first} events on {listenerTarget object}"
    else
      match callee.callPhrase? first with
      | some found => "Find " ++ found
      | none => withArguments ("Call " ++ backquoted callee.render) args
  | .ident "alert" _ => "Show an alert saying " ++ first
  | .ident "prompt" _ => "Ask the user " ++ first
  | .ident name _ => withArguments ("Call function " ++ backquoted name) args
  | _ => withArguments ("Call " ++ backquoted callee.render) args

/-! ## Statements -/

/-- An expression that stands as a statement. -/
def Expr.sentence : Expr → String
  | .assign op target value _ =>
    let t := backquoted target.render
    let v := value.phrase
    match op with
    | .assign => s!"Set {t} to {v}"
    | .add => s!"Add {v} to {t}"
    | .sub => s!"Subtract {v} from {t}"
    | .mul => s!"Multiply {t} by {v}"
    | .div => s!"Divide {t} by {v}"
  | .update .inc _ arg _ => s!"Increase {backquoted arg.render} by 1"
  | .update .dec _ arg _ => s!"Decrease {backquoted arg.render} by 1"
  | .call callee args _ => callSentence callee args
  | e => "Evaluate " ++ backquoted e.render

def VarKind.noun : VarKind → String
  | .const => "constant"
  | .let | .var => "variable"

def Declarator.sentence (kind : VarKind) (d : Declarator) : String :=
  let start := s!"Declare {kind.noun} {backquoted d.name}"
  match d.init? with
  | some init => s!"{start} and set it to {init.phrase}"
  | none => start

def FunctionDef.sentence (fn : FunctionDef) : String :=
  let start := "Define function " ++ backquoted fn.displayName
  if fn.params.isEmpty then start
  else start ++ " with parameters " ++ ", ".intercalate (fn.params.map backquoted)

def ForInit.render : ForInit → String
  | .declare kind decls _ => renderDeclaration kind decls
  | .expr e => e.render

/-- A loop that is about to start. -/
def loopSentence (init : Option ForInit) (test : Option Expr) : String :=
  let start := match init with
    | some i => "Start a for loop with " ++ backquoted i.render
    | none => "Start a for loop"
  match test with
  | some t => s!"{start}, repeating while {backquoted t.render}"
  | none => start ++ ", repeating forever"

def Stmt.sentence : Stmt → String
  | .block .. => "Enter a block"
  | .declare kind decls _ => "; ".intercalate (decls.map (Declarator.sentence kind))
  | .function fn => fn.sentence
  | .expr e _ => e.sentence
  | .ifElse test .. => "Check if " ++ backquoted test.render
  | .for init test .. => loopSentence init test
  | .ret (some value) _ => "Return " ++ value.phrase
  | .ret none _ => "Return from the function"
  | .empty _ => "Do nothing"
  | .unsupported kind _ => "Skip unsupported " ++ kind

end Stepwise
