/-
# The remainder of two doubles

The exact remainder of a division truncated towards zero: what is left of the first operand after
taking away the second as often as it fits.  It has the sign of the first operand, and it is always
a double, so nothing is rounded.
-/

namespace Lisp

open Float.Model (UnpackedFloat)

/-- **The double at `mantissa · 2^exponent`**, rounded to nearest if it is none. -/
def floatOfScaled (sign : UnpackedFloat.Sign) (mantissa : Nat) (exponent : Int) : Float :=
  Float.ofBits
    ⟨UnpackedFloat.pack .binary64 (UnpackedFloat.round .binary64 sign mantissa exponent)⟩

/-- **The remainder of `x` by `y`.**  No remainder is defined for an infinite `x` or a zero `y`;
every finite `x` is its own remainder by an infinity. -/
def floatRemainder (x y : Float) : Float :=
  match UnpackedFloat.unpack .binary64 x.toBits.toBitVec,
      UnpackedFloat.unpack .binary64 y.toBits.toBitVec with
  | .finite sign m e _, .finite _ m' e' _ =>
    let least := min e e'
    floatOfScaled sign
      (m * Nat.pow 2 (e - least).toNat % (m' * Nat.pow 2 (e' - least).toNat)) least
  | .notANumber, _ | _, .notANumber | .infinity _, _ | _, .zero _ => 0.0 / 0.0
  | .zero _, _ | .finite .., .infinity _ => x

end Lisp
