import Stepwise.Syntax.Span

/-!
# Syntax trees

Scripts are written in a teaching subset of JavaScript. A tree keeps the span of every node. Syntax that is recognised
but outside the subset (`while`, array literals, ...) is kept as an `unsupported` node with the name of its kind.
-/

namespace Stepwise

/-! ## Operators -/

inductive VarKind where
  | const
  | «let»
  | var
deriving DecidableEq, Inhabited

inductive BinaryOp where
  | add | sub | mul | div | rem
  | eq | strictEq | ne | strictNe
  | lt | gt | lte | gte
deriving DecidableEq, Inhabited

/-- The operators that may leave their right operand unevaluated. -/
inductive LogicalOp where
  | and
  | or
deriving DecidableEq, Inhabited

inductive UnaryOp where
  | not
  | neg
  | plus
  | typeOf
deriving DecidableEq, Inhabited

inductive UpdateOp where
  | inc
  | dec
deriving DecidableEq, Inhabited

inductive AssignOp where
  | assign
  | add
  | sub
  | mul
  | div
deriving DecidableEq, Inhabited

def VarKind.keyword : VarKind → String
  | .const => "const"
  | .let => "let"
  | .var => "var"

def VarKind.ofKeyword? : String → Option VarKind
  | "const" => some .const
  | "let" => some .let
  | "var" => some .var
  | _ => none

def BinaryOp.symbol : BinaryOp → String
  | .add => "+"
  | .sub => "-"
  | .mul => "*"
  | .div => "/"
  | .rem => "%"
  | .eq => "=="
  | .strictEq => "==="
  | .ne => "!="
  | .strictNe => "!=="
  | .lt => "<"
  | .gt => ">"
  | .lte => "<="
  | .gte => ">="

/-- The operators of `symbol`'s image, in the order of their declaration. -/
def BinaryOp.all : List BinaryOp :=
  [.add, .sub, .mul, .div, .rem, .eq, .strictEq, .ne, .strictNe, .lt, .gt, .lte, .gte]

def BinaryOp.ofSymbol? (s : String) : Option BinaryOp := BinaryOp.all.find? (·.symbol == s)

def LogicalOp.symbol : LogicalOp → String
  | .and => "&&"
  | .or => "||"

def AssignOp.symbol : AssignOp → String
  | .assign => "="
  | .add => "+="
  | .sub => "-="
  | .mul => "*="
  | .div => "/="

def AssignOp.all : List AssignOp := [.assign, .add, .sub, .mul, .div]

def AssignOp.ofSymbol? (s : String) : Option AssignOp := AssignOp.all.find? (·.symbol == s)

/-- The operator that a compound assignment combines the old value with. -/
def AssignOp.binary? : AssignOp → Option BinaryOp
  | .assign => none
  | .add => some .add
  | .sub => some .sub
  | .mul => some .mul
  | .div => some .div

def UpdateOp.symbol : UpdateOp → String
  | .inc => "++"
  | .dec => "--"

/-! ## Nodes -/

mutual

inductive Expr where
  | bool (v : Bool) (span : Span)
  | num (v : Float) (span : Span)
  | str (v : String) (span : Span)
  | null (span : Span)
  | ident (name : String) (span : Span)
  | member (object : Expr) (key : MemberKey) (span : Span)
  | call (callee : Expr) (args : List Expr) (span : Span)
  | binary (op : BinaryOp) (left right : Expr) (span : Span)
  | logical (op : LogicalOp) (left right : Expr) (span : Span)
  | unary (op : UnaryOp) (arg : Expr) (span : Span)
  | update (op : UpdateOp) (before : Bool) (arg : Expr) (span : Span)
  | assign (op : AssignOp) (target value : Expr) (span : Span)
  | ternary (condition consequent alternate : Expr) (span : Span)
  | function (fn : FunctionDef)
  | unsupported (kind : String) (span : Span)

/-- The part of a member access after its object. -/
inductive MemberKey where
  /-- `object.name` -/
  | fixed (name : String)
  /-- `object[expr]` -/
  | computed (expr : Expr)

/-- A function declaration, function expression or arrow function; it is also its own value at run time. -/
inductive FunctionDef where
  | mk (name : Option String) (params : List String) (body : Stmt) (arrow : Bool) (span : Span)

/-- One `name = init` entry of a declaration. -/
inductive Declarator where
  | mk (name : String) (init : Option Expr) (span : Span)

/-- What stands before the first semicolon of a `for` header. -/
inductive ForInit where
  | declare (kind : VarKind) (decls : List Declarator) (span : Span)
  | expr (expr : Expr)

inductive Stmt where
  | block (body : List Stmt) (span : Span)
  | declare (kind : VarKind) (decls : List Declarator) (span : Span)
  | function (fn : FunctionDef)
  | expr (expr : Expr) (span : Span)
  | ifElse (test : Expr) (thenS : Stmt) (elseS : Option Stmt) (span : Span)
  | for (init : Option ForInit) (test update : Option Expr) (body : Stmt) (span : Span)
  | ret (value : Option Expr) (span : Span)
  | empty (span : Span)
  | unsupported (kind : String) (span : Span)

end

instance : Inhabited Expr := ⟨.null .zero⟩

instance : Inhabited Stmt := ⟨.empty .zero⟩

/-- A whole script. -/
structure Program where
  /-- A block of the top-level statements. -/
  body : Stmt
  span : Span

/-! ## Fields -/

namespace FunctionDef

def name? : FunctionDef → Option String
  | mk name _ _ _ _ => name

def params : FunctionDef → List String
  | mk _ params _ _ _ => params

def body : FunctionDef → Stmt
  | mk _ _ body _ _ => body

def arrow : FunctionDef → Bool
  | mk _ _ _ arrow _ => arrow

def span : FunctionDef → Span
  | mk _ _ _ _ span => span

/-- The name shown in frames, logs and explanations. -/
def displayName (fn : FunctionDef) : String := fn.name?.getD "anonymous"

end FunctionDef

namespace Declarator

def name : Declarator → String
  | mk name _ _ => name

def init? : Declarator → Option Expr
  | mk _ init _ => init

def span : Declarator → Span
  | mk _ _ span => span

end Declarator

def Expr.span : Expr → Span
  | .bool _ s | .num _ s | .str _ s | .null s | .ident _ s | .member _ _ s | .call _ _ s | .binary _ _ _ s
  | .logical _ _ _ s | .unary _ _ s | .update _ _ _ s | .assign _ _ _ s | .ternary _ _ _ s | .unsupported _ s => s
  | .function fn => fn.span

def Stmt.span : Stmt → Span
  | .block _ s | .declare _ _ s | .expr _ s | .ifElse _ _ _ s | .for _ _ _ _ s | .ret _ s | .empty s
  | .unsupported _ s => s
  | .function fn => fn.span

/-- The kind of a statement as diagnostics name it. -/
def Stmt.kindName : Stmt → String
  | .block .. => "BlockStatement"
  | .declare .. => "VariableDeclaration"
  | .function _ => "FunctionDeclaration"
  | .expr .. => "ExpressionStatement"
  | .ifElse .. => "IfStatement"
  | .for .. => "ForStatement"
  | .ret .. => "ReturnStatement"
  | .empty _ => "EmptyStatement"
  | .unsupported kind _ => kind

end Stepwise
