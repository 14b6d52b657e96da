/-
# Places in a source text

A `Position` is advanced character by character (`Position.advance`), so the position after a text
is a fold over it.  A `Span` is the half-open stretch between two positions of one file.
-/

namespace Lisp

/-- **A place between two characters.**  Lines and columns count from one, `offset` is the number
of characters before the place. -/
structure Position where
  line : Nat
  column : Nat
  offset : Nat
deriving DecidableEq

namespace Position

/-- **The place before the first character.** -/
def first : Position := ⟨1, 1, 0⟩

/-- **The place after one more character.**  Only a newline starts a line. -/
def advance (p : Position) (c : Char) : Position :=
  if c = '\n' then ⟨p.line + 1, 1, p.offset + 1⟩ else ⟨p.line, p.column + 1, p.offset + 1⟩

/-- **`line.column`**, as messages name a place. -/
def text (p : Position) : String :=
  toString p.line ++ "." ++ toString p.column

end Position

/-- **A stretch of the file numbered `file`**, from `start` up to but not including `stop`. -/
structure Span where
  file : Nat
  start : Position
  stop : Position
deriving DecidableEq

end Lisp
