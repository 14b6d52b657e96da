/-
# The text of a double

A double is written with the fewest digits that read back as it: positionally, with at least one
digit after the point, when its first digit stands between `10^-4` and `10^15`, and otherwise with
an exponent.
-/
import Lisp.Decimal.Shortest

namespace Lisp

namespace Decimal

/-- **The digits of the coefficient**, most significant first. -/
def digits (d : Decimal) : List Char :=
  Nat.toDigits 10 d.coefficient

/-- **How many digits stand before the point**; zero or less when the first ones after it are
zeros. -/
def pointIndex (d : Decimal) : Int :=
  d.digits.length + d.exponent

/-- **Positional notation** without an exponent. -/
def positional (d : Decimal) : List Char :=
  let ds := d.digits
  let point := d.pointIndex
  if point ≤ 0 then
    '0' :: '.' :: (List.replicate (-point).toNat '0' ++ ds)
  else if point < ds.length then
    ds.take point.toNat ++ '.' :: ds.drop point.toNat
  else
    ds ++ List.replicate (point - ds.length).toNat '0' ++ ['.', '0']

/-- **One digit, the others after a point, and the power of ten.** -/
def scientific (d : Decimal) : List Char :=
  let exponent := 'e' :: (toString (d.pointIndex - 1)).toList
  match d.digits with
  | [] => exponent
  | [first] => first :: exponent
  | first :: rest => first :: '.' :: rest ++ exponent

/-- **The least and the greatest place of a first digit that is written positionally.** -/
def positionalRange : Int × Int := (-4, 15)

/-- **The notation that the size of the number asks for.** -/
def text (d : Decimal) : List Char :=
  let place := d.pointIndex - 1
  if positionalRange.1 ≤ place ∧ place ≤ positionalRange.2 then d.positional else d.scientific

end Decimal

/-- **A minus sign for a negative number.** -/
def signChars : Float.Model.UnpackedFloat.Sign → List Char
  | .negative => ['-']
  | .positive => []

/-- **The text of a double.** -/
def floatChars (x : Float) : List Char :=
  match Float.Model.UnpackedFloat.unpack .binary64 x.toBits.toBitVec with
  | .notANumber => "NaN".toList
  | .infinity sign => signChars sign ++ "inf".toList
  | .zero sign => signChars sign ++ "0.0".toList
  | .finite sign mantissa exponent _ =>
    signChars sign ++ (Binary.shortest ⟨mantissa, exponent⟩).text

end Lisp
