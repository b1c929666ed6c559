import Stepwise.Number.Layout
import Stepwise.Syntax.Tree

/-!
# Expressions as text

`Expr.chars` writes an expression in the script language, with as few parentheses as the precedence of its operators
asks for. The body of a function and the contents of unsupported literals are cut to dots.
-/

namespace Stepwise

/-! ## Precedence -/

def BinaryOp.precedence : BinaryOp → Nat
  | .eq | .strictEq | .ne | .strictNe => 5
  | .lt | .gt | .lte | .gte => 6
  | .add | .sub => 7
  | .mul | .div | .rem => 8

def LogicalOp.precedence : LogicalOp → Nat
  | .or => 3
  | .and => 4

/-- How tightly an expression holds together; `11` is the highest level, of names, literals, calls and members. -/
def Expr.precedence : Expr → Nat
  | .assign .. | .function _ => 1
  | .ternary .. => 2
  | .logical op .. => op.precedence
  | .binary op .. => op.precedence
  | .unary .. => 9
  | .update .. => 10
  | _ => 11

/-- Puts a text into parentheses unless it holds together at `level`. -/
def parenthesized (precedence level : Nat) (text : List Char) : List Char :=
  if precedence < level then '(' :: text ++ [')'] else text

/-! ## Pieces -/

def UnaryOp.chars : UnaryOp → List Char
  | .not => ['!']
  | .neg => ['-']
  | .plus => ['+']
  | .typeOf => "typeof ".toList

/-- A unary operator before its operand. Two signs are kept apart, so that they do not read as an update. -/
def UnaryOp.before (op : UnaryOp) (operand : List Char) : List Char :=
  match op, operand with
  | .neg, '-' :: _ | .plus, '+' :: _ => op.chars ++ ' ' :: operand
  | _, _ => op.chars ++ operand

/-- A string literal in double quotes; only quotes and backslashes are escaped. -/
def stringLiteral (s : String) : List Char :=
  '"' :: s.toList.flatMap (fun c => if c = '\\' ∨ c = '"' then ['\\', c] else [c]) ++ ['"']

def commaSeparated (texts : List (List Char)) : List Char := [',', ' '].intercalate texts

/-- A function with its body cut. -/
def FunctionDef.header (fn : FunctionDef) : List Char :=
  let params := '(' :: commaSeparated (fn.params.map String.toList) ++ [')']
  if fn.arrow then params ++ " => \x7b ... \x7d".toList
  else "function ".toList ++ (fn.name?.getD "").toList ++ params ++ " \x7b ... \x7d".toList

/-- An unsupported literal or construct. -/
def unsupportedChars : String → List Char
  | "ArrayExpression" => "[...]".toList
  | "ObjectExpression" => "\x7b...\x7d".toList
  | kind => kind.toList

/-! ## Expressions -/

mutual

/-- The text of an expression, as characters. -/
def Expr.chars : Expr → List Char
  | .bool v _ => if v then "true".toList else "false".toList
  | .num v _ => (numberText v).toList
  | .str v _ => stringLiteral v
  | .null _ => "null".toList
  | .ident name _ => name.toList
  | .member object key _ => parenthesized object.precedence 11 object.chars ++ key.chars
  | .call callee args _ =>
    parenthesized callee.precedence 11 callee.chars ++ '(' :: commaSeparated (Expr.listChars args) ++ [')']
  | .binary op left right _ =>
    parenthesized left.precedence op.precedence left.chars ++ ' ' :: op.symbol.toList ++
      ' ' :: parenthesized right.precedence (op.precedence + 1) right.chars
  | .logical op left right _ =>
    parenthesized left.precedence op.precedence left.chars ++ ' ' :: op.symbol.toList ++
      ' ' :: parenthesized right.precedence (op.precedence + 1) right.chars
  | .unary op arg _ => op.before (parenthesized arg.precedence 9 arg.chars)
  | .update op before arg _ =>
    let operand := parenthesized arg.precedence 11 arg.chars
    if before then op.symbol.toList ++ operand else operand ++ op.symbol.toList
  | .assign op target value _ => target.chars ++ ' ' :: op.symbol.toList ++ ' ' :: value.chars
  | .ternary condition consequent alternate _ =>
    parenthesized condition.precedence 3 condition.chars ++ " ? ".toList ++ consequent.chars ++ " : ".toList ++
      alternate.chars
  | .function fn => fn.header
  | .unsupported kind _ => unsupportedChars kind

def Expr.listChars : List Expr → List (List Char)
  | [] => []
  | e :: es => e.chars :: Expr.listChars es

/-- The part of a member access after its object. -/
def MemberKey.chars : MemberKey → List Char
  | .fixed name => '.' :: name.toList
  | .computed e => '[' :: e.chars ++ [']']

end

/-- The text of an expression. -/
def Expr.render (e : Expr) : String := String.ofList e.chars

/-- One `name = init` entry. -/
def Declarator.render (d : Declarator) : String :=
  match d.init? with
  | some init => d.name ++ " = " ++ init.render
  | none => d.name

/-- A declaration without its semicolon. -/
def renderDeclaration (kind : VarKind) (decls : List Declarator) : String :=
  kind.keyword ++ " " ++ ", ".intercalate (decls.map Declarator.render)

end Stepwise
