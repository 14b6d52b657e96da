/-
# The text of values

How values are printed.  Lists of data print so that they read back: strings with escapes, raw
strings between backticks, `(quote x)` as `'x`, and a chain that does not end in the empty list
with a dot before its last element.  Values that are no data print between `#<` and `>`.
-/
import Lisp.Value
import Lisp.Decimal.FloatText

namespace Lisp

/-- **How a character is written inside a string.** -/
def escapeChar : Char → List Char
  | '"' => ['\\', '"']
  | '\\' => ['\\', '\\']
  | '\n' => ['\\', 'n']
  | '\t' => ['\\', 't']
  | '\r' => ['\\', 'r']
  | c => [c]

/-- **An integer in decimal.** -/
def integerChars (n : Int64) : List Char :=
  (toString n.toInt).toList

/-- **The text of an atom.** -/
def Atom.chars : Atom → List Char
  | .boolean true => ['#', 't']
  | .boolean false => ['#', 'f']
  | .integer n => integerChars n
  | .float x => floatChars x
  | .string text true => '`' :: text.toList ++ ['`']
  | .string text false => '"' :: text.toList.flatMap escapeChar ++ ['"']
  | .symbol name => name.toList

namespace Value

/-- **What stands before an atom**: a dot when it ends a list. -/
def beforeAtom (inList : Bool) : List Char :=
  if inList then " . ".toList else []

/-- **What stands after an atom**, in front of `rest`: the closing parenthesis of the list that it
ends. -/
def afterAtom (inList : Bool) (rest : List Char) : List Char :=
  if inList then ')' :: rest else rest

/-- **The text of a value in front of `rest`**, or, with `inList`, of the rest of a list up to its
closing parenthesis. -/
def charsOnto (inList : Bool) : Value → List Char → List Char
  | .nil, rest => if inList then ')' :: rest else '(' :: ')' :: rest
  | .atom _ value, rest => beforeAtom inList ++ (value.chars ++ afterAtom inList rest)
  | .pair _ head tail, rest =>
    if inList then ' ' :: head.charsOnto false (tail.charsOnto true rest)
    else match head.isSymbolNamed "quote", tail with
      | true, .pair _ second .nil => '\'' :: second.charsOnto false rest
      | _, tail => '(' :: head.charsOnto false (tail.charsOnto true rest)
  | .procedure _ parameters _ _, rest =>
    beforeAtom inList ++ ("#<procedure ".toList ++
      parameters.charsOnto false ('>' :: afterAtom inList rest))
  | .transformer .., rest =>
    beforeAtom inList ++ ("#<syntax-rules>".toList ++ afterAtom inList rest)
  | .formMarker _ name, rest =>
    beforeAtom inList ++ ("#<special-form ".toList ++ (name.toList ++ '>' :: afterAtom inList rest))
  | .hostMarker _ name, rest =>
    beforeAtom inList ++ ("#<host-function ".toList ++ (name.toList ++ '>' :: afterAtom inList rest))

/-- **The characters of the printed form.** -/
def chars (v : Value) : List Char :=
  v.charsOnto false []

/-- **The printed form of a value.** -/
def text (v : Value) : String :=
  String.ofList v.chars

/-- **The contents of a string, and any other value printed.** -/
def plainText : Value → String
  | .atom _ (.string text _) => text
  | v => v.text

end Value

end Lisp
