import Stepwise.Grammar.Token

/-!
# The grammar of scripts

Every rule is either a token, given by a scanner, or a phrase, given by a pattern over rules and punctuation. Patterns
are those of a parsing expression grammar: choice is ordered, and repetition takes as much as it can. Layout may stand
between the parts of a sequence and between repetitions.
-/

namespace Stepwise

/-- The rules of the grammar, in the order in which messages list them. -/
inductive Rule where
  | endOfInput
  | identifier
  | propertyName
  | varKind
  | kwIf
  | kwElse
  | kwFor
  | kwWhile
  | kwBreak
  | kwContinue
  | kwReturn
  | kwFunction
  | number
  | string
  | boolean
  | nullLit
  | program
  | statement
  | block
  | emptyStmt
  | declareStmt
  | declaration
  | declarator
  | functionDecl
  | paramList
  | ifStmt
  | elseClause
  | forStmt
  | forInit
  | forTest
  | forUpdate
  | whileStmt
  | breakStmt
  | continueStmt
  | returnStmt
  | exprStmt
  | expression
  | assignment
  | assignExpr
  | assignOp
  | arrowFunction
  | arrowParams
  | arrowBody
  | ternaryExpr
  | logicalOrExpr
  | logicalAndExpr
  | equalityExpr
  | comparisonExpr
  | additiveExpr
  | multiplicativeExpr
  | opOr
  | opAnd
  | opEquality
  | opComparison
  | opAdditive
  | opMultiplicative
  | unaryExpr
  | opUnary
  | updateBefore
  | updateAfter
  | opUpdate
  | callExpr
  | accessor
  | callSuffix
  | argList
  | staticAccess
  | computedAccess
  | primary
  | literal
  | parenExpr
  | functionExpr
  | arrayLit
  | objectLit
  | objectProp
deriving DecidableEq, Ord

namespace Rule

/-- The name of a rule in messages. -/
def name : Rule → String
  | endOfInput => "EOI"
  | identifier => "identifier"
  | propertyName => "property_name"
  | varKind => "var_kind"
  | kwIf => "kw_if"
  | kwElse => "kw_else"
  | kwFor => "kw_for"
  | kwWhile => "kw_while"
  | kwBreak => "kw_break"
  | kwContinue => "kw_continue"
  | kwReturn => "kw_return"
  | kwFunction => "kw_function"
  | number => "number"
  | string => "string"
  | boolean => "boolean"
  | nullLit => "null_lit"
  | program => "program"
  | statement => "statement"
  | block => "block"
  | emptyStmt => "empty_stmt"
  | declareStmt => "declare_stmt"
  | declaration => "declaration"
  | declarator => "declarator"
  | functionDecl => "function_decl"
  | paramList => "param_list"
  | ifStmt => "if_stmt"
  | elseClause => "else_clause"
  | forStmt => "for_stmt"
  | forInit => "for_init"
  | forTest => "for_test"
  | forUpdate => "for_update"
  | whileStmt => "while_stmt"
  | breakStmt => "break_stmt"
  | continueStmt => "continue_stmt"
  | returnStmt => "return_stmt"
  | exprStmt => "expr_stmt"
  | expression => "expression"
  | assignment => "assignment"
  | assignExpr => "assign_expr"
  | assignOp => "assign_op"
  | arrowFunction => "arrow_function"
  | arrowParams => "arrow_params"
  | arrowBody => "arrow_body"
  | ternaryExpr => "ternary_expr"
  | logicalOrExpr => "logical_or_expr"
  | logicalAndExpr => "logical_and_expr"
  | equalityExpr => "equality_expr"
  | comparisonExpr => "comparison_expr"
  | additiveExpr => "additive_expr"
  | multiplicativeExpr => "multiplicative_expr"
  | opOr => "op_or"
  | opAnd => "op_and"
  | opEquality => "op_equality"
  | opComparison => "op_comparison"
  | opAdditive => "op_additive"
  | opMultiplicative => "op_multiplicative"
  | unaryExpr => "unary_expr"
  | opUnary => "op_unary"
  | updateBefore => "prefix_update"
  | updateAfter => "postfix_update"
  | opUpdate => "op_update"
  | callExpr => "call_expr"
  | accessor => "postfix"
  | callSuffix => "call_suffix"
  | argList => "arg_list"
  | staticAccess => "static_access"
  | computedAccess => "computed_access"
  | primary => "primary"
  | literal => "literal"
  | parenExpr => "paren_expr"
  | functionExpr => "function_expr"
  | arrayLit => "array_lit"
  | objectLit => "object_lit"
  | objectProp => "object_prop"

end Rule

/-! ## Patterns -/

/-- What a phrase is made of. -/
inductive Pattern where
  /-- Punctuation. -/
  | text (s : String)
  | rule (r : Rule)
  | seq (p q : Pattern)
  | alt (p q : Pattern)
  | opt (p : Pattern)
  | star (p : Pattern)

namespace Pattern

instance : Coe Rule Pattern := ⟨rule⟩

/-- The parts of a phrase, one after the other. -/
def all : Pattern → List Pattern → Pattern
  | p, [] => p
  | p, q :: qs => seq p (all q qs)

/-- The first alternative that matches. -/
def any : Pattern → List Pattern → Pattern
  | p, [] => p
  | p, q :: qs => alt p (any q qs)

/-- One or more of `p`, with a comma between them. -/
def commaList (p : Pattern) : Pattern := seq p (star (seq (text ",") p))

/-- Operands joined by operators of one level. -/
def chain (operand operator : Rule) : Pattern := seq operand (star (seq operator operand))

/-- `{ … }` with `p` between the braces. -/
def braces (p : Pattern) : Pattern := all (text "\x7b") [p, text "\x7d"]

/-- `( … )` with `p` between the parentheses. -/
def parens (p : Pattern) : Pattern := all (text "(") [p, text ")"]

end Pattern

/-- A token is scanned as a whole; a phrase has parts. -/
inductive Definition where
  | token (scan : Scanner)
  | phrase (p : Pattern)

open Pattern in
/-- The grammar. -/
def Rule.definition : Rule → Definition
  | endOfInput => .token Scanner.endOfInput
  | identifier => .token Scanner.identifier
  | propertyName => .token Scanner.anyWord
  | varKind => .token (Scanner.keyword ["const", "let", "var"])
  | kwIf => .token (Scanner.keyword ["if"])
  | kwElse => .token (Scanner.keyword ["else"])
  | kwFor => .token (Scanner.keyword ["for"])
  | kwWhile => .token (Scanner.keyword ["while"])
  | kwBreak => .token (Scanner.keyword ["break"])
  | kwContinue => .token (Scanner.keyword ["continue"])
  | kwReturn => .token (Scanner.keyword ["return"])
  | kwFunction => .token (Scanner.keyword ["function"])
  | number => .token Scanner.number
  | string => .token Scanner.string
  | boolean => .token (Scanner.keyword ["true", "false"])
  | nullLit => .token (Scanner.keyword ["null"])
  -- the empty text lets layout stand before the first statement
  | program => .phrase (all (text "") [star statement, endOfInput])
  | statement => .phrase (any functionDecl [declareStmt, ifStmt, forStmt, whileStmt, breakStmt, continueStmt,
      returnStmt, block, emptyStmt, exprStmt])
  | block => .phrase (braces (star statement))
  | emptyStmt => .phrase (text ";")
  | declareStmt => .phrase (seq declaration (opt (text ";")))
  | declaration => .phrase (seq varKind (commaList declarator))
  | declarator => .phrase (seq identifier (opt (seq (text "=") assignment)))
  | functionDecl => .phrase (all kwFunction [identifier, parens (opt paramList), block])
  | paramList => .phrase (commaList identifier)
  | ifStmt => .phrase (all kwIf [parens expression, statement, opt elseClause])
  | elseClause => .phrase (seq kwElse statement)
  | forStmt => .phrase (all kwFor [text "(", opt forInit, text ";", opt forTest, text ";", opt forUpdate, text ")",
      statement])
  | forInit => .phrase (alt declaration expression)
  | forTest => .phrase expression
  | forUpdate => .phrase expression
  | whileStmt => .phrase (all kwWhile [parens expression, statement])
  | breakStmt => .phrase (seq kwBreak (opt (text ";")))
  | continueStmt => .phrase (seq kwContinue (opt (text ";")))
  | returnStmt => .phrase (all kwReturn [opt expression, opt (text ";")])
  | exprStmt => .phrase (seq expression (opt (text ";")))
  | expression => .phrase assignment
  | assignment => .phrase (any arrowFunction [assignExpr, ternaryExpr])
  | assignExpr => .phrase (all callExpr [assignOp, assignment])
  | assignOp => .token Scanner.assignOp
  | arrowFunction => .phrase (all arrowParams [text "=>", arrowBody])
  | arrowParams => .phrase (alt identifier (parens (opt paramList)))
  | arrowBody => .phrase (alt block assignment)
  | ternaryExpr => .phrase (seq logicalOrExpr (opt (all (text "?") [assignment, text ":", assignment])))
  | logicalOrExpr => .phrase (chain logicalAndExpr opOr)
  | logicalAndExpr => .phrase (chain equalityExpr opAnd)
  | equalityExpr => .phrase (chain comparisonExpr opEquality)
  | comparisonExpr => .phrase (chain additiveExpr opComparison)
  | additiveExpr => .phrase (chain multiplicativeExpr opAdditive)
  | multiplicativeExpr => .phrase (chain unaryExpr opMultiplicative)
  | opOr => .token (Scanner.symbol "||" [])
  | opAnd => .token (Scanner.symbol "&&" [])
  | opEquality => .token Scanner.equalityOp
  | opComparison => .token Scanner.comparisonOp
  | opAdditive => .token Scanner.additiveOp
  | opMultiplicative => .token Scanner.multiplicativeOp
  | unaryExpr => .phrase (any (seq opUnary unaryExpr) [updateBefore, updateAfter])
  | opUnary => .token Scanner.unaryOp
  | updateBefore => .phrase (seq opUpdate unaryExpr)
  | updateAfter => .phrase (seq callExpr (opt opUpdate))
  | opUpdate => .token Scanner.updateOp
  | callExpr => .phrase (seq primary (star accessor))
  | accessor => .phrase (any callSuffix [computedAccess, staticAccess])
  | callSuffix => .phrase (parens (opt argList))
  | argList => .phrase (commaList assignment)
  | staticAccess => .phrase (seq (text ".") propertyName)
  | computedAccess => .phrase (all (text "[") [expression, text "]"])
  | primary => .phrase (any literal [functionExpr, arrayLit, objectLit, identifier, parenExpr])
  | literal => .phrase (any number [string, boolean, nullLit])
  | parenExpr => .phrase (parens expression)
  | functionExpr => .phrase (all kwFunction [opt identifier, parens (opt paramList), block])
  | arrayLit => .phrase (all (text "[") [opt (commaList assignment), opt (text ","), text "]"])
  | objectLit => .phrase (braces (seq (opt (commaList objectProp)) (opt (text ","))))
  | objectProp => .phrase (all (alt propertyName string) [text ":", assignment])

end Stepwise
