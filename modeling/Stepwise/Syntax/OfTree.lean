import Stepwise.Grammar.Match
import Stepwise.Number.Decimal
import Stepwise.Syntax.Tree

/-!
# From matched text to syntax trees

Turns the tree of a match into statements and expressions. Parentheses leave no node; operators of one level are joined
from the left; an arrow function with an expression body returns that expression. Two things the grammar admits are
refused here: a `const` without initializer, and an assignment to something that is neither a name nor a member.

The first fault in source order is reported. Only those two refusals arise on the trees of the grammar; the other faults
are about trees that lack a part, or hold one that does not belong there.
-/

namespace Stepwise

/-! ## Faults -/

/-- What a tree may lack. -/
inductive Constituent where
  | program
  | statement
  | declaration
  | declarator
  | expressionStatement
  | ifCondition
  | ifBranch
  | elseBranch
  | forInitializer
  | forCondition
  | forUpdate
  | arrowParameters
  | arrowBody
  | expression
  | assignment
  | assignmentOperator
  | assignmentValue
  | condition
  | ternary
  | unaryExpression
  | operand
  | updateOperator
  | updateOperand
  | callExpression
  | accessor
  | property
  | index
  | string
deriving DecidableEq

def Constituent.name : Constituent → String
  | program => "program"
  | statement => "statement"
  | declaration => "declaration"
  | declarator => "declarator"
  | expressionStatement => "expression statement"
  | ifCondition => "if condition"
  | ifBranch => "if branch"
  | elseBranch => "else branch"
  | forInitializer => "for initializer"
  | forCondition => "for condition"
  | forUpdate => "for update"
  | arrowParameters => "arrow parameters"
  | arrowBody => "arrow body"
  | expression => "expression"
  | assignment => "assignment"
  | assignmentOperator => "assignment operator"
  | assignmentValue => "assignment value"
  | condition => "condition"
  | ternary => "ternary"
  | unaryExpression => "unary expression"
  | operand => "operand"
  | updateOperator => "update operator"
  | updateOperand => "update operand"
  | callExpression => "call expression"
  | accessor => "postfix"
  | property => "property"
  | index => "index"
  | string => "string"

/-- What a tree is read as where it has the wrong rule. -/
inductive Role where
  | statement
  | functionPart
  | accessor
  | expression
deriving DecidableEq

def Role.name : Role → String
  | statement => "statement rule"
  | functionPart => "function part"
  | accessor => "postfix rule"
  | expression => "expression rule"

/-- Why a matched text is no script. -/
inductive BuildError where
  | missingInitializer (name : String) (span : Span)
  | invalidTarget (span : Span)
  | missing (part : Constituent) (span : Span)
  | unexpected (role : Role) (rule : Rule) (span : Span)
  | unknownKind (keyword : String) (span : Span)
  | unknownOperator (symbol : String) (span : Span)
  | unknownAssignment (symbol : String) (span : Span)
  | noOperand (span : Span)
  | noRightOperand (span : Span)
  | noLoopBody (span : Span)
  | noFunctionName (span : Span)
  | noFunctionBody (span : Span)
  | notNumber (lexeme : String) (span : Span)
deriving DecidableEq

namespace BuildError

def span : BuildError → Span
  | missingInitializer _ s | invalidTarget s | missing _ s | unexpected _ _ s | unknownKind _ s | unknownOperator _ s
  | unknownAssignment _ s | noOperand s | noRightOperand s | noLoopBody s | noFunctionName s | noFunctionBody s
  | notNumber _ s => s

def message : BuildError → String
  | missingInitializer name _ => s!"Missing initializer in const declaration of '{name}'"
  | invalidTarget _ => "Invalid left-hand side in assignment"
  | missing part _ => s!"Malformed {part.name}"
  | unexpected role rule _ => s!"Unexpected {role.name}: {rule.name}"
  | unknownKind keyword _ => s!"Expected 'const', 'let' or 'var', got: {keyword}"
  | unknownOperator symbol _ => s!"Unknown operator '{symbol}'"
  | unknownAssignment symbol _ => s!"Unknown assignment operator '{symbol}'"
  | noOperand _ => "Empty binary expression"
  | noRightOperand _ => "Missing right operand after operator"
  | noLoopBody _ => "Missing for loop body"
  | noFunctionName _ => "Function declaration requires a name"
  | noFunctionBody _ => "Missing function body"
  | notNumber lexeme _ =>
    let cause := if lexeme = "" then "cannot parse float from empty string" else "invalid float literal"
    s!"Failed to parse number '{lexeme}': {cause}"

/-- The fault of a tree that is read as an expression, if it has no parts or its rule is that of no expression. -/
def ofExpression (r : Rule) (span : Span) : BuildError :=
  match r with
  | .expression | .assignment | .primary | .literal | .parenExpr => missing .expression span
  | .assignExpr => missing .assignment span
  | .arrowFunction => missing .arrowParameters span
  | .ternaryExpr => missing .condition span
  | .logicalOrExpr | .logicalAndExpr | .equalityExpr | .comparisonExpr | .additiveExpr | .multiplicativeExpr =>
    noOperand span
  | .unaryExpr => missing .unaryExpression span
  | .updateBefore => missing .updateOperator span
  | .updateAfter => missing .operand span
  | .callExpr => missing .callExpression span
  | r => unexpected .expression r span

/-- The fault of a tree that is read as a statement, if it has no parts or its rule is that of no statement. -/
def ofStatement (r : Rule) (span : Span) : BuildError :=
  match r with
  | .statement => missing .statement span
  | .declareStmt => missing .declaration span
  | .ifStmt => missing .ifCondition span
  | .exprStmt => missing .expressionStatement span
  | r => unexpected .statement r span

/-- The fault of what follows an expression with the given span, if it is no accessor. -/
def ofAccessor (text : List Char) (span : Span) (t : Tree) : BuildError :=
  match t.parts with
  | [] => missing .accessor span
  | suffix :: _ =>
    match suffix.rule with
    | .staticAccess => missing .property span
    | r => unexpected .accessor r (t.span text)

end BuildError

/-! ## Tokens -/

/-- Whether a rule is a keyword, which carries no meaning beyond its place. -/
def Rule.isKeyword : Rule → Bool
  | kwIf | kwElse | kwFor | kwWhile | kwBreak | kwContinue | kwReturn | kwFunction => true
  | _ => false

/-- The lexeme of a token. -/
def Tree.lexeme : Tree → String
  | .token _ _ _ l => String.ofList l
  | .phrase .. => ""

/-- The operator of a unary expression; every other word is `typeof`. -/
def UnaryOp.ofSymbol : String → UnaryOp
  | "!" => .not
  | "-" => .neg
  | "+" => .plus
  | _ => .typeOf

def UpdateOp.ofSymbol (s : String) : UpdateOp := if s = "--" then .dec else .inc

/-- Whether a value can be assigned to an expression. -/
def Expr.isTarget : Expr → Bool
  | .ident .. | .member .. => true
  | _ => false

/-- Joins two operands by the operator of a token. -/
def Expr.join? (op : Tree) (left right : Expr) : Option Expr :=
  let span := left.span.merge right.span
  match op.rule with
  | .opOr => some (.logical .or left right span)
  | .opAnd => some (.logical .and left right span)
  | _ => (BinaryOp.ofSymbol? op.lexeme).map fun op => .binary op left right span

/-- The body of an arrow function that only gives an expression. -/
def Stmt.returning (e : Expr) : Stmt := .block [.ret (some e) e.span] e.span

/-- The parameter names of an arrow function: one name, or a list in parentheses. -/
def Tree.paramNames : Tree → List String
  | .phrase _ _ _ (.token .identifier _ _ l :: _) => [String.ofList l]
  | .phrase _ _ _ (.phrase _ _ _ names :: _) => names.map lexeme
  | _ => []

/-- The expression that a token stands for. -/
def Expr.ofToken (r : Rule) (lexeme : List Char) (span : Span) : Except BuildError Expr :=
  match r with
  | .identifier => .ok (.ident (String.ofList lexeme) span)
  | .number =>
    match readDecimal? lexeme with
    | some v => .ok (.num v span)
    | none => .error (.notNumber (String.ofList lexeme) span)
  | .string =>
    match Scanner.body? lexeme with
    | some body => .ok (.str (String.ofList (Scanner.unescape body)) span)
    | none => .error (.missing .string span)
  | .boolean => .ok (.bool (lexeme == "true".toList) span)
  | .nullLit => .ok (.null span)
  | r => .error (.unexpected .expression r span)

/-! ## Phrases -/

section

variable (text : List Char)

mutual

/-- The expression of a tree. -/
def Expr.ofTree : Tree → Except BuildError Expr
  | .token r start stop lexeme => Expr.ofToken r lexeme (.ofOffsets text start stop)
  | .phrase .functionExpr start stop parts =>
    return .function (← FunctionDef.ofParts (.ofOffsets text start stop) true none [] none parts)
  | .phrase r start stop parts => Expr.ofPhrase r (.ofOffsets text start stop) parts

/-- The expression of a phrase with its span and its parts. -/
def Expr.ofPhrase : Rule → Span → List Tree → Except BuildError Expr
  | .expression, _, t :: _ => Expr.ofTree t
  | .assignment, _, t :: _ => Expr.ofTree t
  | .primary, _, t :: _ => Expr.ofTree t
  | .literal, _, t :: _ => Expr.ofTree t
  | .parenExpr, _, t :: _ => Expr.ofTree t
  | .assignExpr, span, target :: rest => do
    let target ← Expr.ofTree target
    if ! target.isTarget then throw (.invalidTarget target.span)
    Expr.ofAssigned span target rest
  | .arrowFunction, span, params :: .phrase _ _ _ (.phrase .block start stop parts :: _) :: _ => do
    let body := Stmt.block (← Stmt.ofTrees parts) (.ofOffsets text start stop)
    return .function (.mk none params.paramNames body true span)
  | .arrowFunction, span, params :: .phrase _ _ _ (value :: _) :: _ => do
    return .function (.mk none params.paramNames (.returning (← Expr.ofTree value)) true span)
  | .arrowFunction, span, _ :: _ => .error (.missing .arrowBody span)
  | .ternaryExpr, span, t :: rest => do Expr.ofChoice span (← Expr.ofTree t) rest
  | .logicalOrExpr, span, t :: rest => do Expr.ofChain span (← Expr.ofTree t) rest
  | .logicalAndExpr, span, t :: rest => do Expr.ofChain span (← Expr.ofTree t) rest
  | .equalityExpr, span, t :: rest => do Expr.ofChain span (← Expr.ofTree t) rest
  | .comparisonExpr, span, t :: rest => do Expr.ofChain span (← Expr.ofTree t) rest
  | .additiveExpr, span, t :: rest => do Expr.ofChain span (← Expr.ofTree t) rest
  | .multiplicativeExpr, span, t :: rest => do Expr.ofChain span (← Expr.ofTree t) rest
  | .unaryExpr, span, .token .opUnary _ _ l :: rest => do
    return .unary (.ofSymbol (String.ofList l)) (← Expr.ofFirst .operand span rest) span
  | .unaryExpr, _, t :: _ => Expr.ofTree t
  | .updateBefore, span, op :: rest => do
    return .update (.ofSymbol op.lexeme) true (← Expr.ofFirst .updateOperand span rest) span
  | .updateAfter, _, [t] => Expr.ofTree t
  | .updateAfter, span, arg :: op :: _ => return .update (.ofSymbol op.lexeme) false (← Expr.ofTree arg) span
  | .callExpr, span, t :: accessors => do Expr.ofAccessors span (← Expr.ofTree t) accessors
  | .arrayLit, span, _ => .ok (.unsupported "ArrayExpression" span)
  | .objectLit, span, _ => .ok (.unsupported "ObjectExpression" span)
  | r, span, _ => .error (.ofExpression r span)

/-- The expression of the first tree, which stands for a part of a phrase. -/
def Expr.ofFirst (part : Constituent) (span : Span) : List Tree → Except BuildError Expr
  | [] => .error (.missing part span)
  | t :: _ => Expr.ofTree t

/-- The operator and the value of an assignment to a target. -/
def Expr.ofAssigned (span : Span) (target : Expr) : List Tree → Except BuildError Expr
  | [] => .error (.missing .assignmentOperator span)
  | op :: rest =>
    match AssignOp.ofSymbol? op.lexeme with
    | none => .error (.unknownAssignment op.lexeme span)
    | some op => return .assign op target (← Expr.ofFirst .assignmentValue span rest) span

/-- The two values of a choice by a condition; without them the condition is the whole expression. -/
def Expr.ofChoice (span : Span) (condition : Expr) : List Tree → Except BuildError Expr
  | [] => .ok condition
  | consequent :: rest => do
    return .ternary condition (← Expr.ofTree consequent) (← Expr.ofFirst .ternary span rest) span

/-- Operators and operands after a first operand. -/
def Expr.ofChain (span : Span) (left : Expr) : List Tree → Except BuildError Expr
  | [] => .ok left
  | [_] => .error (.noRightOperand span)
  | op :: t :: rest => do
    let right ← Expr.ofTree t
    match Expr.join? op left right with
    | none => .error (.unknownOperator op.lexeme (op.span text))
    | some e => Expr.ofChain span e rest

/-- Calls and member accesses after an expression. -/
def Expr.ofAccessors (span : Span) (e : Expr) : List Tree → Except BuildError Expr
  | [] => .ok e
  | .phrase _ start stop (.phrase .callSuffix _ _ suffix :: _) :: rest => do
    let args ← Expr.ofArgs suffix
    Expr.ofAccessors span (.call e args (e.span.merge (.ofOffsets text start stop))) rest
  | .phrase _ start stop (.phrase .staticAccess _ _ (name :: _) :: _) :: rest =>
    Expr.ofAccessors span (.member e (.fixed name.lexeme) (e.span.merge (.ofOffsets text start stop))) rest
  | .phrase _ start stop (.phrase .computedAccess _ _ inside :: _) :: rest => do
    let index ← Expr.ofFirst .index span inside
    Expr.ofAccessors span (.member e (.computed index) (e.span.merge (.ofOffsets text start stop))) rest
  | t :: _ => .error (.ofAccessor text span t)

/-- The arguments of a call, if there are any. -/
def Expr.ofArgs : List Tree → Except BuildError (List Expr)
  | .phrase _ _ _ args :: _ => Expr.ofTrees args
  | _ => .ok []

def Expr.ofTrees : List Tree → Except BuildError (List Expr)
  | [] => .ok []
  | t :: ts => return (← Expr.ofTree t) :: (← Expr.ofTrees ts)

/-- A function from its name, parameters and block. -/
def FunctionDef.ofParts (span : Span) (anonymous : Bool) (name : Option String) (params : List String)
    (body : Option Stmt) : List Tree → Except BuildError FunctionDef
  | [] =>
    if name.isNone && ! anonymous then .error (.noFunctionName span)
    else match body with
      | none => .error (.noFunctionBody span)
      | some body => .ok (.mk name params body false span)
  | .token .identifier _ _ l :: rest => FunctionDef.ofParts span anonymous (some (String.ofList l)) params body rest
  | .phrase .paramList _ _ ps :: rest => FunctionDef.ofParts span anonymous name (ps.map Tree.lexeme) body rest
  | .phrase .block start stop parts :: rest => do
    let body := Stmt.block (← Stmt.ofTrees parts) (.ofOffsets text start stop)
    FunctionDef.ofParts span anonymous name params (some body) rest
  | t :: rest =>
    if t.rule.isKeyword then FunctionDef.ofParts span anonymous name params body rest
    else .error (.unexpected .functionPart t.rule span)

/-- The kind and the entries of a declaration. -/
def Declarator.ofParts (span : Span) : List Tree → Except BuildError (VarKind × List Declarator)
  | [] => .error (.missing .declaration span)
  | kind :: entries =>
    match VarKind.ofKeyword? kind.lexeme with
    | none => .error (.unknownKind kind.lexeme (kind.span text))
    | some kind => return (kind, ← Declarator.ofTrees kind entries)

/-- The entries of a declaration; every entry of a `const` needs an initializer. -/
def Declarator.ofTrees (kind : VarKind) : List Tree → Except BuildError (List Declarator)
  | [] => .ok []
  | .phrase _ start stop [name] :: rest => do
    let span := Span.ofOffsets text start stop
    if kind = .const then throw (.missingInitializer name.lexeme span)
    return .mk name.lexeme none span :: (← Declarator.ofTrees kind rest)
  | .phrase _ start stop (name :: init :: _) :: rest => do
    let init ← Expr.ofTree init
    return .mk name.lexeme (some init) (.ofOffsets text start stop) :: (← Declarator.ofTrees kind rest)
  | t :: _ => .error (.missing .declarator (t.span text))

/-- The statement of a tree. -/
def Stmt.ofTree : Tree → Except BuildError Stmt
  | .token r start stop _ => .error (.unexpected .statement r (.ofOffsets text start stop))
  | .phrase .functionDecl start stop parts =>
    return .function (← FunctionDef.ofParts (.ofOffsets text start stop) false none [] none parts)
  | .phrase .forStmt start stop parts => Stmt.ofForParts (.ofOffsets text start stop) none none none none parts
  | .phrase .block start stop parts => return .block (← Stmt.ofTrees parts) (.ofOffsets text start stop)
  | .phrase r start stop parts => Stmt.ofPhrase r (.ofOffsets text start stop) parts

/-- The statement of a phrase with its span and its parts, the first of which may be a keyword. -/
def Stmt.ofPhrase : Rule → Span → List Tree → Except BuildError Stmt
  | .statement, _, t :: _ => Stmt.ofTree t
  | .declareStmt, span, .phrase _ start stop parts :: _ => do
    let entries ← Declarator.ofParts (.ofOffsets text start stop) parts
    return .declare entries.1 entries.2 span
  | .ifStmt, span, _ :: test :: rest => do Stmt.ofBranches span (← Expr.ofTree test) rest
  | .whileStmt, span, _ => .ok (.unsupported "WhileStatement" span)
  | .breakStmt, span, _ => .ok (.unsupported "BreakStatement" span)
  | .continueStmt, span, _ => .ok (.unsupported "ContinueStatement" span)
  | .returnStmt, span, _ :: value :: _ => return .ret (some (← Expr.ofTree value)) span
  | .returnStmt, span, _ => .ok (.ret none span)
  | .emptyStmt, span, _ => .ok (.empty span)
  | .exprStmt, span, t :: _ => return .expr (← Expr.ofTree t) span
  | r, span, _ => .error (.ofStatement r span)

/-- The branches of a conditional. -/
def Stmt.ofBranches (span : Span) (test : Expr) : List Tree → Except BuildError Stmt
  | [] => .error (.missing .ifBranch span)
  | [thenS] => return .ifElse test (← Stmt.ofTree thenS) none span
  | thenS :: clause :: _ => do
    let thenS ← Stmt.ofTree thenS
    return .ifElse test thenS (some (← Stmt.ofElse span clause)) span

/-- The branch of an `else`. -/
def Stmt.ofElse (span : Span) : Tree → Except BuildError Stmt
  | .phrase _ _ _ (_ :: s :: _) => Stmt.ofTree s
  | _ => .error (.missing .elseBranch span)

def Stmt.ofTrees : List Tree → Except BuildError (List Stmt)
  | [] => .ok []
  | t :: ts => return (← Stmt.ofTree t) :: (← Stmt.ofTrees ts)

/-- A loop from the parts of its header, each of which may be missing, and its body. -/
def Stmt.ofForParts (span : Span) (init : Option ForInit) (test update : Option Expr) (body : Option Stmt) :
    List Tree → Except BuildError Stmt
  | [] =>
    match body with
    | none => .error (.noLoopBody span)
    | some body => .ok (.for init test update body span)
  | .phrase .forInit start stop inside :: rest => do
    let init ← ForInit.ofParts (.ofOffsets text start stop) inside
    Stmt.ofForParts span (some init) test update body rest
  | .phrase .forTest start stop inside :: rest => do
    let test ← Expr.ofFirst .forCondition (.ofOffsets text start stop) inside
    Stmt.ofForParts span init (some test) update body rest
  | .phrase .forUpdate start stop inside :: rest => do
    let update ← Expr.ofFirst .forUpdate (.ofOffsets text start stop) inside
    Stmt.ofForParts span init test (some update) body rest
  | t :: rest =>
    if t.rule.isKeyword then Stmt.ofForParts span init test update body rest
    else do
      let body ← Stmt.ofTree t
      Stmt.ofForParts span init test update (some body) rest

/-- What a loop starts with: a declaration or an expression. -/
def ForInit.ofParts (span : Span) : List Tree → Except BuildError ForInit
  | [] => .error (.missing .forInitializer span)
  | .phrase .declaration start stop parts :: _ => do
    let entries ← Declarator.ofParts (.ofOffsets text start stop) parts
    return .declare entries.1 entries.2 span
  | t :: _ => return .expr (← Expr.ofTree t)

end

/-- The script of a tree. Its block covers the statements; without any it covers the whole text. -/
def Program.ofTree (t : Tree) : Except BuildError Program := do
  let statements ← Stmt.ofTrees text (t.parts.filter (·.rule = .statement))
  let covered := match statements.head?, statements.getLast? with
    | some first, some last => first.span.merge last.span
    | _, _ => t.span text
  return ⟨.block statements covered, t.span text⟩

/-- The script of the first tree. -/
def Program.ofTrees : List Tree → Except BuildError Program
  | [] => .error (.missing .program ⟨0, Cursor.byteLength text, 0, 0, 0, 0⟩)
  | t :: _ => Program.ofTree text t

end

end Stepwise
