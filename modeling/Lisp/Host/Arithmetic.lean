/-
# Arithmetic and comparison

Integers stay integers and never wrap: a result outside 64 bits is an error.  As soon as a float
takes part the step is done on doubles.  Operations on several arguments go from left to right, and
comparisons compare neighbours.
-/
import Lisp.Decimal.Remainder
import Lisp.Host.Value
import Lisp.Value.Equal

namespace Lisp

/-- **Why a host function refused its arguments.** -/
inductive HostFault where
  | notANumber (value : HostValue)
  | noArguments
  | integerOverflow
  | divisionByZero
  /-- A reason in the host's own words. -/
  | stated (message : String)

/-- **The reason in words.** -/
def HostFault.message : HostFault → String
  | .notANumber value => "expected a number, got " ++ value.text
  | .noArguments => "expected at least one argument"
  | .integerOverflow => "integer overflow"
  | .divisionByZero => "division by zero"
  | .stated message => message

namespace HostValue

/-- **A number as a double.** -/
def toFloat : HostValue → Except HostFault Float
  | .integer n => .ok (integerToFloat n)
  | .float x => .ok x
  | value => .error (.notANumber value)

/-- **Whether the value is a zero**, of either sign. -/
def isZero : HostValue → Bool
  | .integer n => n == 0
  | .float x => x == 0.0
  | _ => false

end HostValue

namespace Arithmetic

/-- **Whether an integer fits in 64 bits.** -/
def fits (n : Int) : Bool :=
  Int64.minValue.toInt ≤ n && n ≤ Int64.maxValue.toInt

/-- **The integer, if it fits.** -/
def exactly (n : Int) : Except HostFault HostValue :=
  if fits n then .ok (.integer (Int64.ofInt n)) else .error .integerOverflow

/-- **An operation on two numbers**: on integers where both are, on doubles otherwise. -/
def binary (onIntegers : Int64 → Int64 → Except HostFault HostValue)
    (onFloats : Float → Float → Float) (a b : HostValue) : Except HostFault HostValue :=
  match a, b with
  | .integer m, .integer n => onIntegers m n
  | a, b => do
    let x ← a.toFloat
    let y ← b.toFloat
    pure (.float (onFloats x y))

/-- **The sum of two numbers.** -/
def add : HostValue → HostValue → Except HostFault HostValue :=
  binary (fun m n => exactly (m.toInt + n.toInt)) (· + ·)

/-- **The difference of two numbers.** -/
def subtract : HostValue → HostValue → Except HostFault HostValue :=
  binary (fun m n => exactly (m.toInt - n.toInt)) (· - ·)

/-- **The product of two numbers.** -/
def multiply : HostValue → HostValue → Except HostFault HostValue :=
  binary (fun m n => exactly (m.toInt * n.toInt)) (· * ·)

/-- **The remainder of two integers**, if it is defined and their quotient fits. -/
def integerRemainder? (m n : Int64) : Option Int :=
  if n ≠ 0 ∧ fits (m.toInt.tdiv n.toInt) then some (m.toInt.tmod n.toInt) else none

/-- **The quotient of two integers**: an integer where the division leaves nothing, the quotient of
the two doubles otherwise. -/
def divideIntegers (m n : Int64) : Except HostFault HostValue :=
  if integerRemainder? m n = some 0 then exactly (m.toInt.tdiv n.toInt)
  else .ok (.float (integerToFloat m / integerToFloat n))

/-- **Refuses to divide by zero**, before anything else is looked at. -/
def nonzero (op : HostValue → HostValue → Except HostFault HostValue) (a b : HostValue) :
    Except HostFault HostValue :=
  if b.isZero then .error .divisionByZero else op a b

/-- **The quotient of two numbers.** -/
def divide : HostValue → HostValue → Except HostFault HostValue :=
  nonzero (binary divideIntegers (· / ·))

/-- **The remainder of two numbers**, with the sign of the first. -/
def remainder : HostValue → HostValue → Except HostFault HostValue :=
  nonzero (binary
    (fun m n => match integerRemainder? m n with
      | some r => exactly r
      | none => .error .integerOverflow)
    floatRemainder)

/-- **Combines one or more numbers from left to right.** -/
def reduce (op : HostValue → HostValue → Except HostFault HostValue) :
    List HostValue → Except HostFault HostValue
  | [] => .error .noArguments
  | first :: rest => do
    let _ ← first.toFloat
    rest.foldlM op first

/-- **The sum**; zero of nothing. -/
def sum : List HostValue → Except HostFault HostValue
  | [] => .ok (.integer 0)
  | args => reduce add args

/-- **The product**; one of nothing. -/
def product : List HostValue → Except HostFault HostValue
  | [] => .ok (.integer 1)
  | args => reduce multiply args

/-- **The first number less the others**; a single one is taken from zero. -/
def difference : List HostValue → Except HostFault HostValue
  | [only] => subtract (.integer 0) only
  | args => reduce subtract args

/-- **The first number divided by the others**; a single one divides one. -/
def quotient : List HostValue → Except HostFault HostValue
  | [only] => divide (.integer 1) only
  | args => reduce divide args

/-- **The remainder of the first number by the others in turn.** -/
def remainders (args : List HostValue) : Except HostFault HostValue :=
  reduce remainder args

end Arithmetic

/-- **The relations that numbers are compared by.** -/
inductive Relation where
  | equal
  | less
  | greater
  | lessOrEqual
  | greaterOrEqual
deriving DecidableEq

namespace Relation

/-- **The relation on integers.** -/
def onIntegers : Relation → Int64 → Int64 → Bool
  | .equal, m, n => m == n
  | .less, m, n => m < n
  | .greater, m, n => n < m
  | .lessOrEqual, m, n => m ≤ n
  | .greaterOrEqual, m, n => n ≤ m

/-- **The relation on doubles.** -/
def onFloats : Relation → Float → Float → Bool
  | .equal, x, y => x == y
  | .less, x, y => x < y
  | .greater, x, y => y < x
  | .lessOrEqual, x, y => x ≤ y
  | .greaterOrEqual, x, y => y ≤ x

/-- **The relation on two numbers**, on doubles unless both are integers. -/
def holds (r : Relation) (a b : HostValue) : Except HostFault Bool :=
  match a, b with
  | .integer m, .integer n => .ok (r.onIntegers m n)
  | a, b => do
    let x ← a.toFloat
    let y ← b.toFloat
    pure (r.onFloats x y)

/-- **Whether the relation holds between all neighbours.** -/
def chained (r : Relation) : List HostValue → Except HostFault Bool
  | a :: b :: rest => do
    if ← r.holds a b then r.chained (b :: rest) else pure false
  | _ => pure true

/-- **Compares a row of numbers**; all of them have to be numbers, whatever the outcome. -/
def compareAll (r : Relation) (args : List HostValue) : Except HostFault HostValue := do
  for arg in args do
    let _ ← arg.toFloat
  let holds ← r.chained args
  pure (.boolean holds)

end Relation

end Lisp
