/-
# Host functions

A host function takes host values, may print, and answers with a host value or refuses.
-/
import Lisp.Host.Arithmetic

namespace Lisp

/-- **What a call printed and how it ended.** -/
structure HostReply where
  printed : String
  result : Except HostFault HostValue

/-- **A function of the host.** -/
abbrev HostFunction := List HostValue → HostReply

namespace HostFunction

/-- **A function that prints nothing.** -/
def silent (f : List HostValue → Except HostFault HostValue) : HostFunction :=
  fun args => ⟨"", f args⟩

/-- **Prints its arguments one after the other.** -/
def display : HostFunction :=
  fun args => ⟨String.join (args.map HostValue.text), .ok .undefined⟩

/-- **Ends a line.** -/
def newline : HostFunction :=
  fun _ => ⟨"\n", .ok .undefined⟩

/-- **The standard functions**, by name. -/
def standard : List (String × HostFunction) :=
  [("%", silent Arithmetic.remainders),
   ("*", silent Arithmetic.product),
   ("+", silent Arithmetic.sum),
   ("-", silent Arithmetic.difference),
   ("/", silent Arithmetic.quotient),
   ("<", silent Relation.less.compareAll),
   ("<=", silent Relation.lessOrEqual.compareAll),
   ("=", silent Relation.equal.compareAll),
   (">", silent Relation.greater.compareAll),
   (">=", silent Relation.greaterOrEqual.compareAll),
   ("display", display),
   ("newline", newline)]

end HostFunction

end Lisp
