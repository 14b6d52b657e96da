/-
# Values

A value is a tree that never changes, and every node but the empty list has an identity: a number
drawn once, when the node was made.  Two occurrences of one node are one object, however deep they
stand.  What an object's identity is good for (where it was written, whether two values are one)
is looked up elsewhere by that number.

Procedures and transformers hold their code as it was written and the scope they were made in; a
marker stands for a special form or a host function by name.
-/
import Lisp.Atom
import Lisp.Scope

namespace Lisp

/-- **A value of the language.** -/
inductive Value where
  | nil
  | atom (id : Nat) (value : Atom)
  | pair (id : Nat) (head tail : Value)
  /-- A closure, from its parameter specification, its body and the scope it was made in. -/
  | procedure (id : Nat) (parameters body : Value) (scope : Scope)
  /-- A macro, from its literals and rules and the scope it was made in. -/
  | transformer (id : Nat) (rules : Value) (scope : Scope)
  /-- Stands for the special form registered under the name. -/
  | formMarker (id : Nat) (name : String)
  /-- Stands for the host function of the name. -/
  | hostMarker (id : Nat) (name : String)
deriving DecidableEq, Inhabited

namespace Value

/-- **The identity of a value.**  There is only one empty list, and it needs none. -/
def id? : Value → Option Nat
  | .nil => none
  | .atom id _ | .pair id _ _ | .procedure id _ _ _ | .transformer id _ _
  | .formMarker id _ | .hostMarker id _ => some id

/-- **Whether two values are one object.** -/
def same (a b : Value) : Bool :=
  a.id? == b.id?

/-! ## Kinds -/

/-- **Whether the value is the empty list.** -/
def isNil : Value → Bool
  | .nil => true
  | _ => false

/-- **Whether the value is a pair.** -/
def isPair : Value → Bool
  | .pair .. => true
  | _ => false

/-- **The name of a symbol.** -/
def symbol? : Value → Option String
  | .atom _ (.symbol name) => some name
  | _ => none

/-- **Whether the value is a symbol.** -/
def isSymbol (v : Value) : Bool :=
  v.symbol?.isSome

/-- **Whether the value is the symbol of this name.** -/
def isSymbolNamed (name : String) (v : Value) : Bool :=
  v.symbol? == some name

/-- **Whether the value is an integer or a float.** -/
def isNumber : Value → Bool
  | .atom _ (.integer _) | .atom _ (.float _) => true
  | _ => false

/-- **Whether the value is a string, raw or not.** -/
def isString : Value → Bool
  | .atom _ (.string _ _) => true
  | _ => false

/-- **Whether the value is `#f`**, the only false one. -/
def isFalse : Value → Bool
  | .atom _ value => value.isFalse
  | _ => false

/-- **Whether the value is an atom that evaluates to itself.** -/
def isSelfEvaluating : Value → Bool
  | .nil => true
  | .atom _ (.symbol _) => false
  | .atom .. => true
  | _ => false

/-- **Whether the value can be applied to arguments.** -/
def isApplicable : Value → Bool
  | .procedure .. | .transformer .. | .formMarker .. | .hostMarker .. => true
  | _ => false

/-! ## Chains of pairs -/

/-- **The heads of the chain of pairs that starts here**, whatever ends it. -/
def elements : Value → List Value
  | .pair _ head tail => head :: tail.elements
  | _ => []

/-- **What ends the chain of pairs that starts here.** -/
def ending : Value → Value
  | .pair _ _ tail => tail.ending
  | v => v

/-- **The chain after its first `count` pairs.** -/
def drop : Value → Nat → Value
  | v, 0 => v
  | .pair _ _ tail, count + 1 => tail.drop count
  | v, _ + 1 => v

/-- **The length of a proper list.** -/
def length? (v : Value) : Option Nat :=
  if v.ending.isNil then some v.elements.length else none

/-- **Whether the value is a proper list.** -/
def isList (v : Value) : Bool :=
  v.ending.isNil

end Value

end Lisp
