import Stepwise.Text.Visible

/-!
# Quoted text

A text between double quotes in which every character can be told from its looks: quotes, backslashes and the usual
control characters have short escapes, other hidden characters are written by their code point.
-/

namespace Stepwise.Text

/-- A character inside quoted text. -/
def quotedChar (c : Char) : List Char :=
  match c with
  | '\x00' => ['\\', '0']
  | '\t' => ['\\', 't']
  | '\r' => ['\\', 'r']
  | '\n' => ['\\', 'n']
  | '"' => ['\\', '"']
  | '\\' => ['\\', '\\']
  | c => if isHidden c then '\\' :: 'u' :: '\x7b' :: Nat.toDigits 16 c.toNat ++ ['\x7d'] else [c]

def quoted (s : String) : String := "\"" ++ String.ofList (s.toList.flatMap quotedChar) ++ "\""

end Stepwise.Text
