/-
# Parameters and arguments

A procedure is written with a parameter specification: a list of names, a list of names with one
more name after a dot, or a single name.  The names of the list take one argument each; the last
name, where there is one, takes the list of all the others.
-/
import Lisp.Effect

namespace Lisp

/-- **The parameters of a procedure.** -/
structure Parameters where
  fixed : List String
  rest : Option String
deriving DecidableEq

namespace Parameters

/-- **The parameters that a specification names.** -/
def ofSpec : Value → Except Fault Parameters
  | .nil => .ok ⟨[], none⟩
  | .atom _ (.symbol name) => .ok ⟨[], some name⟩
  | .pair _ head tail =>
    match head with
    | .atom _ (.symbol name) => do
      let others ← ofSpec tail
      pure ⟨name :: others.fixed, others.rest⟩
    | head => .error (.parameterNoSymbol head)
  | ending => .error (.malformedParameters ending)

/-- **How many arguments the parameters take.** -/
def arity (p : Parameters) : Arity :=
  ⟨p.fixed.length, p.rest.isSome⟩

/-- **Binds the names of the list**, each to its argument.  Returns the arguments left over, or how
many there were when they did not suffice; the names served before that stay bound. -/
def bindFixed (frame : Nat) : List String → List Value → Nat → Effect (Except Nat (List Value))
  | [], args, _ => pure (.ok args)
  | _ :: _, [], given => pure (.error given)
  | name :: names, arg :: args, given => do
    Effect.bind frame name arg
    bindFixed frame names args (given + 1)

/-- **Binds the parameters to a chain of arguments** in a frame.  `spec` is the specification as
written, for the message. -/
def bindArguments (p : Parameters) (spec : Value) (frame : Nat) (args : Value) : Effect Unit := do
  match ← bindFixed frame p.fixed args.elements 0 with
  | .error given => Effect.fail (.wrongCount spec p.arity given)
  | .ok remaining =>
    match p.rest, remaining with
    | some name, remaining => do
      let values ← Effect.newList remaining
      Effect.record (.remainderBound name values)
      Effect.bind frame name values
    | none, [] => pure ()
    | none, _ :: _ => Effect.fail (.wrongCount spec p.arity (args.length?.getD 0))

end Parameters

/-- **The faults of a `lambda` form**: its parameters are looked at before its body. -/
def checkProcedure (spec body : Value) : Except Fault Parameters := do
  let parameters ← Parameters.ofSpec spec
  if body.isList then pure parameters else .error (.bodyNoList body)

namespace Effect

/-- **Makes a procedure** from its specification and body as written. -/
def newProcedure (spec body : Value) (scope : Scope) : Effect Value := do
  let _ ← ofExcept (checkProcedure spec body)
  modifyGet (·.allocate (.procedure · spec body scope) none)

end Effect

end Lisp
