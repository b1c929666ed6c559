import Stepwise.Json.Record
import Stepwise.Syntax.Tree

/-!
# Syntax trees as JSON

A node is an object with the name of its case under `t` and its fields beside it. A span whose numbers are all zero is
left out, except at the whole script; a missing part is null. Decoding takes back what encoding writes; of a node inside
another one it also takes the number of the case, counted from zero.
-/

namespace Stepwise

open Json

/-! ## Operators -/

def BinaryOp.name : BinaryOp → String
  | .add => "Add"
  | .sub => "Sub"
  | .mul => "Mul"
  | .div => "Div"
  | .rem => "Rem"
  | .eq => "Eq"
  | .strictEq => "StrictEq"
  | .ne => "Ne"
  | .strictNe => "StrictNe"
  | .lt => "Lt"
  | .gt => "Gt"
  | .lte => "Lte"
  | .gte => "Gte"

def BinaryOp.ofName? (s : String) : Option BinaryOp := BinaryOp.all.find? (·.name == s)

def LogicalOp.name : LogicalOp → String
  | .and => "And"
  | .or => "Or"

def LogicalOp.ofName? : String → Option LogicalOp
  | "And" => some .and
  | "Or" => some .or
  | _ => none

def UnaryOp.name : UnaryOp → String
  | .not => "Not"
  | .neg => "Neg"
  | .plus => "Plus"
  | .typeOf => "TypeOf"

def UnaryOp.ofName? : String → Option UnaryOp
  | "Not" => some .not
  | "Neg" => some .neg
  | "Plus" => some .plus
  | "TypeOf" => some .typeOf
  | _ => none

def UpdateOp.name : UpdateOp → String
  | .inc => "Inc"
  | .dec => "Dec"

def UpdateOp.ofName? : String → Option UpdateOp
  | "Inc" => some .inc
  | "Dec" => some .dec
  | _ => none

def AssignOp.name : AssignOp → String
  | .assign => "Assign"
  | .add => "Add"
  | .sub => "Sub"
  | .mul => "Mul"
  | .div => "Div"

def AssignOp.ofName? (s : String) : Option AssignOp := AssignOp.all.find? (·.name == s)

/-! ## Spans -/

def Span.toJson (s : Span) : Json :=
  .obj [("start", .nat s.start), ("end", .nat s.stop), ("start_line", .nat s.startLine), ("start_col", .nat s.startCol),
    ("end_line", .nat s.stopLine), ("end_col", .nat s.stopCol)]

def Span.ofJson? (j : Json) : Option Span := do
  let r ← record? 6 j
  let number (name : String) (index : Nat) := (r.field? name index).bind Json.nat?
  return ⟨← number "start" 0, ← number "end" 1, ← number "start_line" 2, ← number "start_col" 3,
    ← number "end_line" 4, ← number "end_col" 5⟩

/-- The span as last field of a node; zeros are left out. -/
def Span.field (s : Span) : List (String × Json) := if s = .zero then [] else [("span", s.toJson)]

/-- A node: its tag, its fields and its span. -/
def node (tag : String) (fields : List (String × Json)) (span : Span) : Json :=
  .obj (("t", .str tag) :: fields ++ span.field)

/-! ## Encoding -/

mutual

def Expr.toJson : Expr → Json
  | .bool v s => node "LitBool" [("v", .bool v)] s
  | .num v s => node "LitNum" [("v", .float v)] s
  | .str v s => node "LitStr" [("v", .str v)] s
  | .null s => node "LitNull" [] s
  | .ident name s => node "Ident" [("name", .str name)] s
  | .member object key s => node "Member" [("object", object.toJson), ("property", key.toJson)] s
  | .call callee args s => node "Call" [("callee", callee.toJson), ("args", .arr (Expr.listToJson args))] s
  | .binary op left right s =>
    node "Binary" [("op", .str op.name), ("left", left.toJson), ("right", right.toJson)] s
  | .logical op left right s =>
    node "Logical" [("op", .str op.name), ("left", left.toJson), ("right", right.toJson)] s
  | .unary op arg s => node "Unary" [("op", .str op.name), ("arg", arg.toJson)] s
  | .update op before arg s =>
    node "Update" [("op", .str op.name), ("prefix", .bool before), ("arg", arg.toJson)] s
  | .assign op target value s =>
    node "Assign" [("op", .str op.name), ("target", target.toJson), ("value", value.toJson)] s
  | .ternary condition consequent alternate s =>
    node "Ternary" [("condition", condition.toJson), ("consequent", consequent.toJson),
      ("alternate", alternate.toJson)] s
  | .function fn => node "Function" [("def", fn.toJson)] .zero
  | .unsupported kind s => node "Unsupported" [("kind", .str kind)] s

def Expr.listToJson : List Expr → List Json
  | [] => []
  | e :: es => e.toJson :: Expr.listToJson es

def MemberKey.toJson : MemberKey → Json
  | .fixed name => node "Static" [("name", .str name)] .zero
  | .computed e => node "Computed" [("expr", e.toJson)] .zero

def FunctionDef.toJson : FunctionDef → Json
  | .mk name params body arrow span =>
    .obj ([("name", .ofOption .str name), ("params", .arr (params.map .str)), ("body", body.toJson),
      ("is_arrow", .bool arrow)] ++ span.field)

def Declarator.toJson : Declarator → Json
  | .mk name none span => .obj ([("name", .str name), ("init", .null)] ++ span.field)
  | .mk name (some e) span => .obj ([("name", .str name), ("init", e.toJson)] ++ span.field)

def Declarator.listToJson : List Declarator → List Json
  | [] => []
  | d :: ds => d.toJson :: Declarator.listToJson ds

def ForInit.toJson : ForInit → Json
  | .declare kind decls s =>
    node "Declare" [("kind", .str kind.keyword), ("decls", .arr (Declarator.listToJson decls))] s
  | .expr e => node "Expr" [("expr", e.toJson)] .zero

def Stmt.toJson : Stmt → Json
  | .block body s => node "Block" [("body", .arr (Stmt.listToJson body))] s
  | .declare kind decls s =>
    node "Declare" [("kind", .str kind.keyword), ("decls", .arr (Declarator.listToJson decls))] s
  | .function fn => node "Function" [("def", fn.toJson)] .zero
  | .expr e s => node "Expr" [("expr", e.toJson)] s
  | .ifElse test thenS elseS s =>
    node "If" [("test", test.toJson), ("then_s", thenS.toJson), ("else_s", Stmt.optionToJson elseS)] s
  | .for init test update body s =>
    node "For" [("init", ForInit.optionToJson init), ("test", Expr.optionToJson test),
      ("update", Expr.optionToJson update), ("body", body.toJson)] s
  | .ret value s => node "Return" [("value", Expr.optionToJson value)] s
  | .empty s => node "Empty" [] s
  | .unsupported kind s => node "Unsupported" [("kind", .str kind)] s

def Stmt.listToJson : List Stmt → List Json
  | [] => []
  | s :: ss => s.toJson :: Stmt.listToJson ss

def Expr.optionToJson : Option Expr → Json
  | none => .null
  | some e => e.toJson

def Stmt.optionToJson : Option Stmt → Json
  | none => .null
  | some s => s.toJson

def ForInit.optionToJson : Option ForInit → Json
  | none => .null
  | some i => i.toJson

end

def Program.toJson (p : Program) : Json := .obj [("body", p.body.toJson), ("span", p.span.toJson)]

/-! ## Decoding -/

/-- The span of a record, its field at `index`. -/
def span? (index : Nat) (r : Json) : Option Span := r.defaulted? "span" index .zero Span.ofJson?

/-- A field of a record, decoded. -/
def part? {α : Type} (name : String) (index : Nat) (decode : Json → Option α) (r : Json) : Option α :=
  (r.field? name index).bind decode

/-- The case of a node and its fields. -/
def node? (cases : List String) (j : Json) : Option (String × Json) := do
  let (tag, r) ← j.tagged?
  return (← tag.case? cases, r)

/-- The cases of expressions, in the order of their numbers. -/
def Expr.cases : List String :=
  ["LitBool", "LitNum", "LitStr", "LitNull", "Ident", "Member", "Call", "Binary", "Logical", "Unary", "Update",
    "Assign", "Ternary", "Function", "Unsupported"]

def MemberKey.cases : List String := ["Static", "Computed"]

def ForInit.cases : List String := ["Declare", "Expr"]

def Stmt.cases : List String :=
  ["Block", "Declare", "Function", "Expr", "If", "For", "Return", "Empty", "Unsupported"]

mutual

/-- The expression of a value, with at most `fuel` nodes inside each other. -/
def Expr.decode? : Nat → Json → Option Expr
  | 0, _ => none
  | fuel + 1, j => do
    let (tag, r) ← node? Expr.cases j
    match tag with
    | "LitBool" => let r ← record? 2 r; return .bool (← part? "v" 0 Json.bool? r) (← span? 1 r)
    | "LitNum" => let r ← record? 2 r; return .num (← part? "v" 0 Json.float? r) (← span? 1 r)
    | "LitStr" => let r ← record? 2 r; return .str (← part? "v" 0 Json.str? r) (← span? 1 r)
    | "LitNull" => let r ← record? 1 r; return .null (← span? 0 r)
    | "Ident" => let r ← record? 2 r; return .ident (← part? "name" 0 Json.str? r) (← span? 1 r)
    | "Member" =>
      let r ← record? 3 r
      return .member (← part? "object" 0 (Expr.decode? fuel) r) (← part? "property" 1 (MemberKey.decode? fuel) r)
        (← span? 2 r)
    | "Call" =>
      let r ← record? 3 r
      return .call (← part? "callee" 0 (Expr.decode? fuel) r) (← part? "args" 1 (Json.list? (Expr.decode? fuel)) r)
        (← span? 2 r)
    | "Binary" =>
      let r ← record? 4 r
      let op ← part? "op" 0 Json.looseConstant? r
      return .binary (← BinaryOp.ofName? op) (← part? "left" 1 (Expr.decode? fuel) r)
        (← part? "right" 2 (Expr.decode? fuel) r) (← span? 3 r)
    | "Logical" =>
      let r ← record? 4 r
      let op ← part? "op" 0 Json.looseConstant? r
      return .logical (← LogicalOp.ofName? op) (← part? "left" 1 (Expr.decode? fuel) r)
        (← part? "right" 2 (Expr.decode? fuel) r) (← span? 3 r)
    | "Unary" =>
      let r ← record? 3 r
      let op ← part? "op" 0 Json.looseConstant? r
      return .unary (← UnaryOp.ofName? op) (← part? "arg" 1 (Expr.decode? fuel) r) (← span? 2 r)
    | "Update" =>
      let r ← record? 4 r
      let op ← part? "op" 0 Json.looseConstant? r
      return .update (← UpdateOp.ofName? op) (← part? "prefix" 1 Json.bool? r) (← part? "arg" 2 (Expr.decode? fuel) r)
        (← span? 3 r)
    | "Assign" =>
      let r ← record? 4 r
      let op ← part? "op" 0 Json.looseConstant? r
      return .assign (← AssignOp.ofName? op) (← part? "target" 1 (Expr.decode? fuel) r)
        (← part? "value" 2 (Expr.decode? fuel) r) (← span? 3 r)
    | "Ternary" =>
      let r ← record? 4 r
      return .ternary (← part? "condition" 0 (Expr.decode? fuel) r) (← part? "consequent" 1 (Expr.decode? fuel) r)
        (← part? "alternate" 2 (Expr.decode? fuel) r) (← span? 3 r)
    | "Function" => let r ← record? 1 r; return .function (← part? "def" 0 (FunctionDef.decode? fuel) r)
    | "Unsupported" => let r ← record? 2 r; return .unsupported (← part? "kind" 0 Json.str? r) (← span? 1 r)
    | _ => none

def MemberKey.decode? : Nat → Json → Option MemberKey
  | 0, _ => none
  | fuel + 1, j => do
    let (tag, r) ← node? MemberKey.cases j
    let r ← record? 1 r
    match tag with
    | "Static" => return .fixed (← part? "name" 0 Json.str? r)
    | "Computed" => return .computed (← part? "expr" 0 (Expr.decode? fuel) r)
    | _ => none

def FunctionDef.decode? : Nat → Json → Option FunctionDef
  | 0, _ => none
  | fuel + 1, j => do
    let r ← record? 5 j
    return .mk (← r.optional? "name" 0 Json.str?) (← part? "params" 1 (Json.list? Json.str?) r)
      (← part? "body" 2 (Stmt.decode? fuel) r) (← part? "is_arrow" 3 Json.bool? r) (← span? 4 r)

def Declarator.decode? : Nat → Json → Option Declarator
  | 0, _ => none
  | fuel + 1, j => do
    let r ← record? 3 j
    return .mk (← part? "name" 0 Json.str? r) (← r.optional? "init" 1 (Expr.decode? fuel)) (← span? 2 r)

def ForInit.decode? : Nat → Json → Option ForInit
  | 0, _ => none
  | fuel + 1, j => do
    let (tag, r) ← node? ForInit.cases j
    match tag with
    | "Declare" =>
      let r ← record? 3 r
      let kind ← part? "kind" 0 Json.looseConstant? r
      return .declare (← VarKind.ofKeyword? kind) (← part? "decls" 1 (Json.list? (Declarator.decode? fuel)) r)
        (← span? 2 r)
    | "Expr" => let r ← record? 1 r; return .expr (← part? "expr" 0 (Expr.decode? fuel) r)
    | _ => none

/-- The statement of a value, with at most `fuel` nodes inside each other. -/
def Stmt.decode? : Nat → Json → Option Stmt
  | 0, _ => none
  | fuel + 1, j => do
    let (tag, r) ← node? Stmt.cases j
    match tag with
    | "Block" =>
      let r ← record? 2 r
      return .block (← part? "body" 0 (Json.list? (Stmt.decode? fuel)) r) (← span? 1 r)
    | "Declare" =>
      let r ← record? 3 r
      let kind ← part? "kind" 0 Json.looseConstant? r
      return .declare (← VarKind.ofKeyword? kind) (← part? "decls" 1 (Json.list? (Declarator.decode? fuel)) r)
        (← span? 2 r)
    | "Function" => let r ← record? 1 r; return .function (← part? "def" 0 (FunctionDef.decode? fuel) r)
    | "Expr" => let r ← record? 2 r; return .expr (← part? "expr" 0 (Expr.decode? fuel) r) (← span? 1 r)
    | "If" =>
      let r ← record? 4 r
      return .ifElse (← part? "test" 0 (Expr.decode? fuel) r) (← part? "then_s" 1 (Stmt.decode? fuel) r)
        (← r.optional? "else_s" 2 (Stmt.decode? fuel)) (← span? 3 r)
    | "For" =>
      let r ← record? 5 r
      return .for (← r.optional? "init" 0 (ForInit.decode? fuel)) (← r.optional? "test" 1 (Expr.decode? fuel))
        (← r.optional? "update" 2 (Expr.decode? fuel)) (← part? "body" 3 (Stmt.decode? fuel) r) (← span? 4 r)
    | "Return" =>
      let r ← record? 2 r
      return .ret (← r.optional? "value" 0 (Expr.decode? fuel)) (← span? 1 r)
    | "Empty" => let r ← record? 1 r; return .empty (← span? 0 r)
    | "Unsupported" => let r ← record? 2 r; return .unsupported (← part? "kind" 0 Json.str? r) (← span? 1 r)
    | _ => none

end

/-- The expression that a value encodes. -/
def Expr.ofJson? (j : Json) : Option Expr := j.named?.bind (Expr.decode? j.depth)

/-- The function that a value encodes. -/
def FunctionDef.ofJson? (j : Json) : Option FunctionDef := do
  let _ ← part? "body" 2 Json.named? j
  FunctionDef.decode? j.depth j

/-- The script that a value encodes. -/
def Program.ofJson? (j : Json) : Option Program := do
  let r ← record? 2 j
  let body ← part? "body" 0 Json.named? r
  return ⟨← Stmt.decode? j.depth body, ← span? 1 r⟩

end Stepwise
