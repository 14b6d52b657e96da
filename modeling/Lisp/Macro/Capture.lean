/-
# Captures

What a pattern's variables stand for after a match.  A variable under an ellipsis captures one
thing for every repetition, a variable that ends a list captures the rest of it, and every other
variable captures a single value.
-/
import Lisp.Macro.Pattern
import Lisp.Store

namespace Lisp

/-- **What a variable captured.** -/
inductive Capture where
  | one (value : Value)
  /-- The rest of a list: some elements and what ends the chain. -/
  | rest (elements : List Value) (ending : Value)
  /-- One capture for each repetition. -/
  | many (items : List Capture)

/-- **The captures of a match.**  Where a name occurs twice the first entry counts. -/
abbrev Captures := List (String × Capture)

namespace Capture

mutual

/-- **The value that a capture becomes.**  The rest of a list and the repetitions of a variable are
new lists. -/
def toValue (s : Store) : Capture → Value × Store
  | .one value => (value, s)
  | .rest elements ending => s.newListWithTail elements ending
  | .many items =>
    let (values, s) := toValues s items
    s.newList values

/-- **The values that a row of captures becomes.** -/
def toValues (s : Store) : List Capture → List Value × Store
  | [] => ([], s)
  | item :: items =>
    let (value, s) := toValue s item
    let (values, s) := toValues s items
    (value :: values, s)

end

end Capture

namespace Captures

/-- **What a name captured.** -/
def find? (captures : Captures) (name : String) : Option Capture :=
  captures.lookup name

/-- **The captures of a repeated pattern**: for each of its names, what it captured each time. -/
def gather (names : List String) (repetitions : List Captures) : Captures :=
  names.map fun name => (name, .many (repetitions.filterMap (Captures.find? · name)))

/-- **The values that captures become.** -/
def toBindings (s : Store) : Captures → Bindings × Store
  | [] => ([], s)
  | (name, capture) :: rest =>
    let (value, s) := capture.toValue s
    let (others, s) := toBindings s rest
    ((name, value) :: others, s)

end Captures

/-! ## Matching -/

namespace Pattern

/-- **Matches a leaf with a single value.** -/
def leafMatch? (single : Leaf) (v : Value) : Option Captures :=
  match single with
  | .variable name => some [(name, .one v)]
  | .wildcard => some []
  | .literal name => if v.isSymbolNamed name then some [] else none
  | .constant value => if v.equal value then some [] else none

/-- **Matches what ends a list pattern with the rest of a list.** -/
def endingMatch? (ending : Option Leaf) (rest : Value) : Option Captures :=
  match ending with
  | none => if rest.isNil then some [] else none
  | some (.variable name) => some [(name, .rest rest.elements rest.ending)]
  | some last => leafMatch? last rest

mutual

/-- **Matches a value with a pattern.**  In a list pattern a name that is written twice keeps what
it captured last: without an ellipsis in the order written; with one, what ends the list comes
first, then the parts in the order written, and the repeated part last. -/
def match? : Pattern → Value → Option Captures
  | .leaf single, v => leafMatch? single v
  | .list parts ending, v => do
    let (captures, rest) ← partsMatch? parts v
    let last ← endingMatch? ending rest
    if parts.hasEllipsis then pure (captures ++ last) else pure (last ++ captures)

/-- **Matches the parts of a list pattern with the elements of a chain**, and returns what is left
of it.  A repeated part takes all elements but those that the parts after it need. -/
def partsMatch? : Parts → Value → Option (Captures × Value)
  | .stop, v => some ([], v)
  | .part first rest, v =>
    match v with
    | .pair _ head tail => do
      let own ← match? first head
      let (others, left) ← partsMatch? rest tail
      pure (others ++ own, left)
    | _ => none
  | .repeated item after, v => do
    let needed := after.count
    let elements := v.elements
    if elements.length < needed then none else
    let taken := elements.length - needed
    let (others, left) ← partsMatch? after (v.drop taken)
    let repetitions ← (elements.take taken).mapM (match? item)
    pure (Captures.gather ((depths 0 item).map (·.1)) repetitions ++ others, left)

end

end Pattern

end Lisp
