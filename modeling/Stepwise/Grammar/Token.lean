/-!
# Tokens

Scanners for the pieces of a script that hold no layout inside: words, numbers, strings and operators. A scanner looks
at the start of a text and gives the lexeme and what follows it. A word is a maximal run of letters, digits, `_` and
`$`, so a keyword never matches the beginning of a longer word.
-/

namespace Stepwise

/-- Gives the lexeme at the start of a text and the rest of the text. -/
abbrev Scanner := List Char → Option (List Char × List Char)

namespace Scanner

/-! ## Combinators -/

/-- The first of two scanners that succeeds. -/
def orElse (a b : Scanner) : Scanner := fun cs =>
  match a cs with
  | some r => some r
  | none => b cs

/-- A fixed text that none of the given characters follows. -/
def symbol (s : String) (notBefore : List Char) : Scanner := fun cs =>
  match s.toList.isPrefixOf? cs with
  | none => none
  | some rest =>
    match rest.head? with
    | none => some (s.toList, rest)
    | some c => if c ∈ notBefore then none else some (s.toList, rest)

/-- The first of several scanners that succeeds. -/
def firstOf (scanners : List Scanner) : Scanner := scanners.foldr orElse fun _ => none

/-! ## Words -/

def isWordStart (c : Char) : Bool := c.isAlpha || c = '_' || c = '$'

def isWordChar (c : Char) : Bool := c.isAlphanum || c = '_' || c = '$'

/-- The words that are no identifiers. -/
def reserved : List String :=
  ["const", "let", "var", "if", "else", "for", "while", "do", "return", "function", "true", "false", "null", "typeof",
    "break", "continue", "throw", "new", "class", "try", "catch", "switch", "this"]

/-- The maximal run of word characters. -/
def word (cs : List Char) : List Char × List Char := (cs.takeWhile isWordChar, cs.dropWhile isWordChar)

/-- One of the given words. -/
def keyword (words : List String) : Scanner := fun cs =>
  let (w, rest) := word cs
  if words.any (·.toList == w) then some (w, rest) else none

/-- Any word that starts with no digit. -/
def anyWord : Scanner
  | [] => none
  | c :: cs => if isWordStart c then some (word (c :: cs)) else none

/-- A word that is not reserved. -/
def identifier : Scanner := fun cs =>
  match keyword reserved cs with
  | some _ => none
  | none => anyWord cs

/-! ## Numbers -/

/-- A run of digits, possibly empty. -/
def digits (cs : List Char) : List Char × List Char := (cs.takeWhile Char.isDigit, cs.dropWhile Char.isDigit)

/-- The power of ten after a number; without at least one digit there is none. -/
def exponent (cs : List Char) : List Char × List Char :=
  match cs with
  | e :: rest =>
    if e = 'e' ∨ e = 'E' then
      let (sign, after) := match rest with
        | s :: after => if s = '+' ∨ s = '-' then ([s], after) else ([], rest)
        | [] => ([], [])
      match digits after with
      | ([], _) => ([], cs)
      | (ds, after) => (e :: sign ++ ds, after)
    else ([], cs)
  | [] => ([], [])

/-- Digits with an optional fraction, or a fraction alone, with an optional power of ten. -/
def number : Scanner := fun cs =>
  let finish (lexeme rest : List Char) := let (e, rest) := exponent rest; some (lexeme ++ e, rest)
  match digits cs with
  | ([], '.' :: rest) =>
    match digits rest with
    | ([], _) => none
    | (part, rest) => finish ('.' :: part) rest
  | ([], _) => none
  | (whole, '.' :: rest) => let (part, rest) := digits rest; finish (whole ++ '.' :: part) rest
  | (whole, rest) => finish whole rest

/-! ## Strings -/

/-- What stands before the closing quote: no line feed, and a backslash takes the next character with it. -/
def stringBody (quote : Char) : List Char → List Char × List Char
  | [] => ([], [])
  | ['\\'] => ([], ['\\'])
  | '\\' :: c :: cs => let (body, rest) := stringBody quote cs; ('\\' :: c :: body, rest)
  | c :: cs =>
    if c = quote ∨ c = '\n' then ([], c :: cs)
    else let (body, rest) := stringBody quote cs; (c :: body, rest)

/-- A string between two equal quotes; the lexeme holds the quotes. -/
def string : Scanner
  | [] => none
  | quote :: cs =>
    if quote = '"' ∨ quote = '\'' then
      match stringBody quote cs with
      | (body, c :: rest) => if c = quote then some (quote :: body ++ [quote], rest) else none
      | (_, []) => none
    else none

/-- The body of a string literal, which stands between its quotes. -/
def body? : List Char → Option (List Char)
  | _ :: c :: cs => some (c :: cs).dropLast
  | _ => none

/-- The text that the body of a string literal stands for. -/
def unescape : List Char → List Char
  | [] => []
  | ['\\'] => ['\\']
  | '\\' :: c :: cs =>
    let meant := match c with
      | 'n' => '\n'
      | 't' => '\t'
      | 'r' => '\r'
      | '0' => '\x00'
      | c => c
    meant :: unescape cs
  | c :: cs => c :: unescape cs

/-! ## Operators -/

def plain (symbols : List String) : Scanner := firstOf (symbols.map (symbol · []))

def assignOp : Scanner := orElse (plain ["+=", "-=", "*=", "/="]) (symbol "=" ['=', '>'])

def equalityOp : Scanner := plain ["===", "!==", "==", "!="]

def comparisonOp : Scanner := plain ["<=", ">=", "<", ">"]

def additiveOp : Scanner := orElse (symbol "+" ['+', '=']) (symbol "-" ['-', '='])

def multiplicativeOp : Scanner := firstOf [symbol "*" ['='], symbol "/" ['='], symbol "%" ['=']]

def unaryOp : Scanner := firstOf [symbol "!" ['='], symbol "-" ['-'], symbol "+" ['+'], keyword ["typeof"]]

def updateOp : Scanner := plain ["++", "--"]

/-- Nothing, at the end of the text. -/
def endOfInput : Scanner
  | [] => some ([], [])
  | _ :: _ => none

end Scanner

end Stepwise
