/-
# Effects

An effect runs on a store and ends with a value, with a failure, or because it was nested too
deeply; whichever it is, the store it leaves is kept.
-/
import Lisp.Fault
import Lisp.Store

namespace Lisp

/-- **A fault and what was being evaluated when it arose**, the outermost form first. -/
structure Failure where
  fault : Fault
  trace : List Value

namespace Failure

/-- **The failure seen from one form further out.**  One object in a row is noted once. -/
def inside (f : Failure) (form : Value) : Failure :=
  match f.trace with
  | last :: _ => if last.same form then f else { f with trace := form :: f.trace }
  | [] => { f with trace := [form] }

end Failure

/-- **Why an effect ended without a value.** -/
inductive Stop where
  | failed (failure : Failure)
  /-- The evaluation was nested deeper than allowed. -/
  | tooDeep

/-- **The same, seen from one form further out.** -/
def Stop.inside (form : Value) : Stop → Stop
  | .failed failure => .failed (failure.inside form)
  | .tooDeep => .tooDeep

/-- **Something that runs on the store.** -/
abbrev Effect := EStateM Stop Store

namespace Effect

/-- **Fails.** -/
def fail {α : Type} (fault : Fault) : Effect α :=
  throw (.failed ⟨fault, []⟩)

/-- **Goes on with a result, or fails with a fault.** -/
def ofExcept {α : Type} : Except Fault α → Effect α
  | .ok a => pure a
  | .error fault => fail fault

/-- **Notes on a failure that it happened inside of `form`.** -/
def inside {α : Type} (form : Value) (effect : Effect α) : Effect α :=
  EStateM.adaptExcept (Stop.inside form) effect

/-- **Reports an event.** -/
def record (e : Event) : Effect Unit :=
  modify (·.record e)

/-- **Makes a new atom.** -/
def newAtom (value : Atom) : Effect Value :=
  modifyGet (·.newAtom value)

/-- **Makes a new symbol.** -/
def newSymbol (name : String) : Effect Value :=
  newAtom (.symbol name)

/-- **Makes a new string.** -/
def newString (text : String) : Effect Value :=
  newAtom (.string text false)

/-- **Makes a new pair.** -/
def newPair (head tail : Value) : Effect Value :=
  modifyGet (·.newPair head tail)

/-- **Makes a new proper list.** -/
def newList (items : List Value) : Effect Value :=
  modifyGet (·.newList items)

/-- **Binds a name in a frame.** -/
def bind (frame : Nat) (name : String) (value : Value) : Effect Unit :=
  modify (·.bind frame name value)

/-- **The value of a name in a scope.** -/
def lookup (scope : Scope) (name : String) : Effect Value := do
  match (← get).lookup? scope name with
  | some value => pure value
  | none => fail (.unbound name)

end Effect

end Lisp
