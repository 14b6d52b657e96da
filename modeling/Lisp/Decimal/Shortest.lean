/-
# The shortest decimal that rounds to a binary number

A positive double is `mantissa · 2^exponent`, and the reals that round to it form an interval
around it (`Binary.low`, `Binary.high`, in quarter units of the last place; its ends belong to it
iff the mantissa is even).  `Binary.shortest` looks at ever finer grids `c · 10^p` and stops at the
first one with a point in the interval.  On a grid only the two neighbours of the number have to be
looked at, because the number lies in its own interval.  All comparisons are exact.

Powers are written `Nat.pow`, which is the same function wherever the module is read.
-/

namespace Lisp

/-- **The number `coefficient · 10^exponent`.** -/
structure Decimal where
  coefficient : Nat
  exponent : Int
deriving DecidableEq

/-- **The number `mantissa · 2^exponent`.** -/
structure Binary where
  mantissa : Nat
  exponent : Int
deriving DecidableEq

/-- **Compares `c · 10^p` with `m · 2^q`** after multiplying both by whatever makes them whole. -/
def compareDecimal (c : Nat) (p : Int) (m : Nat) (q : Int) : Ordering :=
  compare (c * Nat.pow 10 p.toNat * Nat.pow 2 (-q).toNat)
    (m * Nat.pow 2 q.toNat * Nat.pow 10 (-p).toNat)

namespace Binary

/-- **The largest `c` with `c · 10^p` not above the number.** -/
def floorAt (b : Binary) (p : Int) : Nat :=
  (b.mantissa * Nat.pow 2 b.exponent.toNat * Nat.pow 10 (-p).toNat) /
    (Nat.pow 10 p.toNat * Nat.pow 2 (-b.exponent).toNat)

/-- **The lower end of the rounding interval**, in quarter units of the last place.  Just above a
power of two the doubles below are half as far apart, except at the least exponent. -/
def low (b : Binary) : Nat :=
  if b.mantissa = Nat.pow 2 52 ∧ -1074 < b.exponent then 4 * b.mantissa - 1 else 4 * b.mantissa - 2

/-- **The upper end of the rounding interval**, in quarter units of the last place. -/
def high (b : Binary) : Nat :=
  4 * b.mantissa + 2

/-- **Whether `c · 10^p` rounds to the number.** -/
def admits (b : Binary) (c : Nat) (p : Int) : Bool :=
  let closed := b.mantissa % 2 == 0
  let fromLow := compareDecimal c p b.low (b.exponent - 2)
  let fromHigh := compareDecimal c p b.high (b.exponent - 2)
  (fromLow == .gt || closed && fromLow == .eq) && (fromHigh == .lt || closed && fromHigh == .eq)

/-- **The point of the grid `10^p` that rounds to the number**, the nearer one if both neighbours
do, and of two equally near ones the upper. -/
def onGrid? (b : Binary) (p : Int) : Option Nat :=
  let below := b.floorAt p
  match b.admits below p, b.admits (below + 1) p with
  | true, true =>
    if compareDecimal (2 * below + 1) p (2 * b.mantissa) b.exponent == .gt then some below
    else some (below + 1)
  | true, false => some below
  | false, true => some (below + 1)
  | false, false => none

/-- **The first grid from `10^p` downwards that has a point.** -/
def search (b : Binary) : Nat → Int → Decimal
  | 0, p => ⟨b.floorAt p, p⟩
  | fuel + 1, p =>
    match b.onGrid? p with
    | some c => ⟨c, p⟩
    | none => b.search fuel (p - 1)

/-- **A power of ten above the number**: `2^10 > 10^3` settles it below one, `10 > 2^3` above. -/
def startExponent (b : Binary) : Int :=
  let bits : Int := b.mantissa.log2 + 1 + b.exponent
  if 0 ≤ bits then bits / 3 + 1 else 3 * bits / 10 + 1

/-- **The shortest decimal that rounds to the number.**  Grids much finer than the interval always
have a point, so the search ends long before its bound. -/
def shortest (b : Binary) : Decimal :=
  b.search 1000 b.startExponent

end Binary

end Lisp
