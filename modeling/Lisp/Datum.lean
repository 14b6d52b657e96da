/-
# Data as read

What the reader makes of a text: a binary tree whose leaves are atoms and the empty list.  Atoms
and the first pair of every list carry the stretch of text they were written in; the pairs further
down a list, and the symbol that `'x` abbreviates, were not written on their own and carry none.
-/
import Lisp.Atom
import Lisp.Source

namespace Lisp

/-- **A datum and where it was written.** -/
inductive Datum where
  | nil
  | atom (value : Atom) (span : Option Span)
  | pair (head tail : Datum) (span : Option Span)
deriving DecidableEq

namespace Datum

/-- **The stretch of text the datum was written in.** -/
def span : Datum → Option Span
  | .nil => none
  | .atom _ span => span
  | .pair _ _ span => span

/-- **The same datum, written elsewhere.**  The empty list has no place. -/
def withSpan (span : Option Span) : Datum → Datum
  | .nil => .nil
  | .atom value _ => .atom value span
  | .pair head tail _ => .pair head tail span

/-- **The chain of pairs that holds `items`, continued by `tail`.**  No pair carries a span. -/
def listWithTail : List Datum → Datum → Datum
  | [], tail => tail
  | item :: items, tail => .pair item (listWithTail items tail) none

/-- **The two element list `(quote x)`** that `'x` stands for. -/
def quoted (datum : Datum) : Datum :=
  listWithTail [.atom (.symbol "quote") none, datum] .nil

/-- **The tree alone**, without places. -/
def bare : Datum → Datum
  | .nil => .nil
  | .atom value _ => .atom value none
  | .pair head tail _ => .pair head.bare tail.bare none

/-- **Whether the datum is a symbol.** -/
def isSymbol : Datum → Bool
  | .atom (.symbol _) _ => true
  | _ => false

end Datum

end Lisp
