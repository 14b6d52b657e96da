/-
# Argument chains

The arguments of a special form are a chain of pairs that has to have a certain shape: some
required elements, some that may be missing, and either nothing more or a remainder of any kind.
Each step takes one element off the chain.
-/
import Lisp.Fault

namespace Lisp

namespace Arguments

/-- **Takes an element that must be there**; `name` is what the message calls it. -/
def required (name : String) : Value → Except Fault (Value × Value)
  | .pair _ head tail => .ok (head, tail)
  | _ => .error (.missingArgument name)

/-- **Takes an element that may be missing.**  Where there is none it is the empty list, and
nothing is left, whatever ended the chain. -/
def optional : Value → Value × Value
  | .pair _ head tail => (head, tail)
  | _ => (.nil, .nil)

/-- **Nothing may be left.** -/
def finished (rest : Value) : Except Fault Unit :=
  if rest.isNil then .ok () else .error (.surplusArguments rest)

/-- **Takes a single argument.** -/
def single (name : String) (args : Value) : Except Fault Value := do
  let (value, rest) ← required name args
  finished rest
  pure value

/-- **Takes two arguments.** -/
def double (first second : String) (args : Value) : Except Fault (Value × Value) := do
  let (a, rest) ← required first args
  let (b, rest) ← required second rest
  finished rest
  pure (a, b)

end Arguments

/-- **The shape of an argument chain**: names for the required and the optional elements, and
whether whatever remains is an argument too. -/
structure ArgumentShape where
  required : List String
  optional : Nat
  rest : Bool
deriving DecidableEq

namespace ArgumentShape

/-- **Takes the required elements.** -/
def takeRequired : List String → Value → Except Fault (List Value × Value)
  | [], chain => .ok ([], chain)
  | name :: names, chain => do
    let (value, chain) ← Arguments.required name chain
    let (values, chain) ← takeRequired names chain
    pure (value :: values, chain)

/-- **Takes the optional elements.** -/
def takeOptional : Nat → Value → List Value × Value
  | 0, chain => ([], chain)
  | count + 1, chain =>
    let (value, chain) := Arguments.optional chain
    let (values, chain) := takeOptional count chain
    (value :: values, chain)

/-- **Takes a chain apart**: the required elements, the optional ones and, if the shape has one,
the remainder. -/
def destruct (shape : ArgumentShape) (chain : Value) : Except Fault (List Value) := do
  let (required, chain) ← takeRequired shape.required chain
  let (optional, chain) := takeOptional shape.optional chain
  if shape.rest then
    pure (required ++ optional ++ [chain])
  else
    Arguments.finished chain
    pure (required ++ optional)

end ArgumentShape

end Lisp
