/-
# Quoted text in the journal

Texts are shown between double quotes, with the characters that do not show themselves written as
escapes.
-/
import Lisp.Text.Shown

namespace Lisp

/-- **The code point of a character in hexadecimal**, between `\u{` and `}`. -/
def codePointEscape (c : Char) : List Char :=
  ['\\', 'u', '\x7b'] ++ Nat.toDigits 16 c.toNat ++ ['\x7d']

/-- **How a character is shown between double quotes.** -/
def literalChar : Char → List Char
  | '"' => ['\\', '"']
  | '\\' => ['\\', '\\']
  | '\n' => ['\\', 'n']
  | '\t' => ['\\', 't']
  | '\r' => ['\\', 'r']
  | '\x00' => ['\\', '0']
  | c => if isShown c then [c] else codePointEscape c

/-- **A text between double quotes.** -/
def quotedLiteral (text : String) : String :=
  String.ofList ('"' :: text.toList.flatMap literalChar ++ ['"'])

end Lisp
