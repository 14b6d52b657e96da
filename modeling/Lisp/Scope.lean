/-
# Scopes

Variables live in frames, which are numbered.  A scope is the list of the frames that a name is
looked up in, so entering a new frame is putting its number in front, and two scopes that end alike
share those frames.
-/

namespace Lisp

/-- **The frames visible from a place in a program.**  `locals` holds the inner ones, innermost
first; `root` is the global frame that ends the chain. -/
structure Scope where
  locals : List Nat
  root : Nat
deriving DecidableEq

namespace Scope

/-- **A scope of a global frame alone.** -/
def ofRoot (root : Nat) : Scope := ⟨[], root⟩

/-- **All its frames**, innermost first. -/
def frames (s : Scope) : List Nat :=
  s.locals ++ [s.root]

/-- **The innermost frame**, where definitions go. -/
def frame (s : Scope) : Nat :=
  s.locals.head?.getD s.root

/-- **The scope inside one more frame.** -/
def enter (s : Scope) (frame : Nat) : Scope :=
  { s with locals := frame :: s.locals }

/-- **The scope of its global frame.** -/
def global (s : Scope) : Scope :=
  ofRoot s.root

end Scope

end Lisp
