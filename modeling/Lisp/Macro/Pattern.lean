/-
# Patterns

A pattern says what a list may look like and names parts of it.  It is a tree of its own:
elements in a row, at most one of them repeated by an ellipsis, and something that ends the list.
Compiling a datum to a pattern (`Pattern.compile`) fails only where ellipses are misplaced.
-/
import Lisp.Fault
import Lisp.Value.Equal

namespace Lisp

/-- **The name of the ellipsis.** -/
def ellipsis : String := "..."

/-- **The name that matches anything and is not kept.** -/
def wildcard : String := "_"

/-- **A pattern without parts.** -/
inductive Leaf where
  /-- Matches anything and keeps it under a name. -/
  | variable (name : String)
  /-- Matches anything. -/
  | wildcard
  /-- Matches the symbol of that name. -/
  | literal (name : String)
  /-- Matches whatever equals the value. -/
  | constant (value : Value)

mutual

/-- **A pattern.** -/
inductive Pattern where
  | leaf (leaf : Leaf)
  /-- A list of such parts; it ends in the empty list, or in what the last pattern matches. -/
  | list (parts : Parts) (ending : Option Leaf)

/-- **The parts of a list pattern.** -/
inductive Parts where
  | stop
  | part (first : Pattern) (rest : Parts)
  /-- `item ...`, and the parts after it. -/
  | repeated (item : Pattern) (after : Parts)

end

namespace Pattern

/-! ## Compiling -/

/-- **The pattern of a datum that is no list.** -/
def compileLeaf (literals : List String) (v : Value) : Except RuleFault Leaf :=
  match v.symbol? with
  | some name =>
    if name = ellipsis then .error .leadingEllipsis
    else if name = Lisp.wildcard then .ok .wildcard
    else if literals.contains name then .ok (.literal name)
    else .ok (.variable name)
  | none => .ok (.constant v)

/-- **The pattern of an element**, given what it is as a list. -/
def compileElement (literals : List String) (v : Value)
    (asList : Except RuleFault (Parts × Option Leaf)) : Except RuleFault Pattern :=
  match v with
  | .nil | .pair .. => do
    let (parts, ending) ← asList
    pure (.list parts ending)
  | v => do
    let single ← compileLeaf literals v
    pure (.leaf single)

/-- **The pattern of the rest of a list.**  `whole` is the list, for the message, and `seen` says
whether an ellipsis came before. -/
def compileParts (literals : List String) (whole : Value) (seen : Bool) :
    Value → Except RuleFault (Parts × Option Leaf)
  | .nil => .ok (.stop, none)
  | .pair _ head tail => do
    let first ← compileElement literals head (compileParts literals head false head)
    match tail with
    | .pair id next after =>
      if next.isSymbolNamed ellipsis then
        if seen then .error (.secondEllipsis whole) else
        let (after, ending) ← compileParts literals whole true after
        pure (.repeated first after, ending)
      else
        let (rest, ending) ← compileParts literals whole seen (.pair id next after)
        pure (.part first rest, ending)
    | tail =>
      let (rest, ending) ← compileParts literals whole seen tail
      pure (.part first rest, ending)
  | v => do
    let last ← compileLeaf literals v
    pure (.stop, some last)

/-- **The pattern of an argument list.** -/
def compile (literals : List String) (v : Value) : Except RuleFault Pattern := do
  let (parts, ending) ← compileParts literals v false v
  pure (.list parts ending)

/-! ## Variables -/

/-- **The names a pattern keeps, and how many ellipses each stands under**, the last written
first.  Where a name is written twice the first entry counts. -/
abbrev Depths := List (String × Nat)

/-- **The variable of a leaf.** -/
def leafDepths (depth : Nat) : Leaf → Depths
  | .variable name => [(name, depth)]
  | _ => []

mutual

/-- **The variables of a pattern** that stands under `depth` ellipses. -/
def depths (depth : Nat) : Pattern → Depths
  | .leaf single => leafDepths depth single
  | .list parts ending =>
    (ending.map (leafDepths depth)).getD [] ++ partsDepths depth parts

/-- **The variables of the parts of a list.** -/
def partsDepths (depth : Nat) : Parts → Depths
  | .stop => []
  | .part first rest => partsDepths depth rest ++ depths depth first
  | .repeated item after => partsDepths depth after ++ depths (depth + 1) item

end

end Pattern

namespace Parts

/-- **How many elements there must be at least.** -/
def count : Parts → Nat
  | .stop => 0
  | .part _ rest => rest.count + 1
  | .repeated _ after => after.count

/-- **Whether one of the parts is repeated.** -/
def hasEllipsis : Parts → Bool
  | .stop => false
  | .part _ rest => rest.hasEllipsis
  | .repeated .. => true

end Parts

end Lisp
