/-
# Atoms

The data that the reader makes out of one token, and that carry no reference to anything else.
-/

namespace Lisp

/-- **An indivisible datum.**  A raw string was written between backticks. -/
inductive Atom where
  | boolean (value : Bool)
  | integer (value : Int64)
  | float (value : Float)
  | string (text : String) (raw : Bool)
  | symbol (name : String)
deriving DecidableEq

namespace Atom

/-- **Whether the atom is the symbol of this name.** -/
def isSymbol (name : String) : Atom → Bool
  | .symbol other => other == name
  | _ => false

/-- **Only `#f` is false.** -/
def isFalse : Atom → Bool
  | .boolean value => !value
  | _ => false

end Atom

end Lisp
