/-
# Numerals

The number grammar `[+-]?[0-9]+` and `[+-]?[0-9]*[.][0-9]+`, and what a text of it denotes: the
exact integer when it is written without a point and fits in 64 bits, the nearest double otherwise.
Every other token text is a boolean (`#t`, `#f`) or a symbol (`Atom.ofText`).
-/
import Lisp.Atom

namespace Lisp

/-- **The parts of a number as written.**  `fraction` is missing when there is no point. -/
structure Numeral where
  negative : Bool
  whole : List Char
  fraction : Option (List Char)

namespace Numeral

/-- **The sign is optional** and may be written for either direction. -/
def takeSign : List Char → Bool × List Char
  | '-' :: rest => (true, rest)
  | '+' :: rest => (false, rest)
  | text => (false, text)

/-- **Splits at the first point**, if there is one. -/
def splitPoint (text : List Char) : List Char × Option (List Char) :=
  match text.dropWhile (· ≠ '.') with
  | [] => (text, none)
  | _ :: fraction => (text.takeWhile (· ≠ '.'), some fraction)

/-- **A numeral has digits only, and at least one**: after the point when it is written, and in
the whole part when it is not. -/
def wellFormed (n : Numeral) : Bool :=
  n.whole.all Char.isDigit &&
    match n.fraction with
    | none => !n.whole.isEmpty
    | some fraction => !fraction.isEmpty && fraction.all Char.isDigit

/-- **The numeral that a text is**, if it is one. -/
def ofChars? (text : List Char) : Option Numeral :=
  let (negative, unsigned) := takeSign text
  let (whole, fraction) := splitPoint unsigned
  let numeral : Numeral := ⟨negative, whole, fraction⟩
  if numeral.wellFormed then some numeral else none

/-- **The number that a row of digits writes**, first digit most significant. -/
def digitsValue (digits : List Char) : Nat :=
  digits.foldl (fun value digit => 10 * value + (digit.toNat - '0'.toNat)) 0

/-- **The double nearest to `digits · 10^-places`**, with the numeral's sign; a zero keeps it. -/
def nearestFloat (negative : Bool) (digits places : Nat) : Float :=
  let magnitude := Float.ofScientific digits true places
  if negative then -magnitude else magnitude

/-- **The whole part as a signed integer.** -/
def wholeValue (n : Numeral) : Int :=
  let magnitude : Int := digitsValue n.whole
  if n.negative then -magnitude else magnitude

/-- **The atom a numeral denotes.** -/
def toAtom (n : Numeral) : Atom :=
  match n.fraction with
  | none =>
    if Int64.minValue.toInt ≤ n.wholeValue ∧ n.wholeValue ≤ Int64.maxValue.toInt then
      .integer (Int64.ofInt n.wholeValue)
    else
      .float (nearestFloat n.negative (digitsValue n.whole) 0)
  | some fraction =>
    .float (nearestFloat n.negative (digitsValue (n.whole ++ fraction)) fraction.length)

end Numeral

/-- **The atom that an undelimited token denotes**: a boolean, a number, or else a symbol. -/
def Atom.ofChars (text : List Char) : Atom :=
  if text = ['#', 't'] then .boolean true
  else if text = ['#', 'f'] then .boolean false
  else match Numeral.ofChars? text with
    | some numeral => numeral.toAtom
    | none => .symbol (String.ofList text)

end Lisp
