/-
# Categories of expressions

What kind of expression a text looks like, judged by its first and last character and the number
grammar alone.
-/
import Lisp.Numeral
import Lisp.Text.Blank

namespace Lisp

/-- **The kinds of expression texts.** -/
inductive Category where
  | list
  | quoted
  | selfEvaluating
  | reference
deriving DecidableEq

namespace Category

/-- **Whether a text is at least two characters long and has `c` at both ends.** -/
def delimitedBy (c : Char) (text : List Char) : Bool :=
  2 ≤ text.length && text.head? == some c && text.getLast? == some c

/-- **The category of a text**, blanks at its ends ignored. -/
def ofChars (text : List Char) : Category :=
  let text := trimBlanks text
  if text.head? = some '(' ∧ text.getLast? = some ')' then .list
  else if text.head? = some '\'' then .quoted
  else if (Numeral.ofChars? text).isSome || delimitedBy '"' text || delimitedBy '`' text
      || text = ['#', 't'] || text = ['#', 'f'] then .selfEvaluating
  else .reference

/-- **The category's name.** -/
def name : Category → String
  | .list => "List"
  | .quoted => "Quoted"
  | .selfEvaluating => "SelfEvaluating"
  | .reference => "Variable"

end Category

end Lisp
