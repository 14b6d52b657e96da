/-
# Equality of values

One object is equal to itself.  Otherwise values are compared by their contents: strings whatever
way they were written, an integer with a float as doubles, lists element by element, procedures and
transformers by identity, markers by name.
-/
import Lisp.Value

namespace Lisp

/-- **The double nearest to an integer.** -/
def integerToFloat (n : Int64) : Float :=
  Float.ofInt n.toInt

/-- **Equality of atoms by contents.** -/
def Atom.equal : Atom → Atom → Bool
  | .boolean a, .boolean b => a == b
  | .integer a, .integer b => a == b
  | .float a, .float b => a == b
  | .integer a, .float b => integerToFloat a == b
  | .float a, .integer b => a == integerToFloat b
  | .string a _, .string b _ => a == b
  | .symbol a, .symbol b => a == b
  | _, _ => false

namespace Value

/-- **Equality by contents.**  Along a list only the elements may be recognised as one object. -/
def equalContents : Value → Value → Bool
  | .nil, .nil => true
  | .atom _ a, .atom _ b => a.equal b
  | .pair _ head tail, .pair _ head' tail' =>
    (head.same head' || head.equalContents head') && tail.equalContents tail'
  | .procedure id _ _ _, .procedure id' _ _ _ => id == id'
  | .transformer id _ _, .transformer id' _ _ => id == id'
  | .formMarker _ name, .formMarker _ name' => name == name'
  | .hostMarker _ name, .hostMarker _ name' => name == name'
  | _, _ => false

/-- **Equality of values.** -/
def equal (a b : Value) : Bool :=
  a.same b || a.equalContents b

end Value

end Lisp
