/-
# Values at the host boundary

Host functions see numbers, booleans and strings as they are, the empty list as no value at all,
and everything else as its printed text.
-/
import Lisp.Value.Text
import Lisp.Text.Literal

namespace Lisp

/-- **A value as host functions see it.** -/
inductive HostValue where
  | undefined
  | boolean (value : Bool)
  | integer (value : Int64)
  | float (value : Float)
  | string (text : String)
  /-- Anything else, printed. -/
  | datum (text : String)
deriving DecidableEq

namespace HostValue

/-- **What the host sees of a value.** -/
def ofValue : Value → HostValue
  | .nil => .undefined
  | .atom _ (.boolean b) => .boolean b
  | .atom _ (.integer n) => .integer n
  | .atom _ (.float x) => .float x
  | .atom _ (.string text _) => .string text
  | v => .datum v.text

/-- **What `display` writes**: nothing for no value, and texts as they are. -/
def text : HostValue → String
  | .undefined => ""
  | .boolean b => String.ofList (Atom.boolean b).chars
  | .integer n => String.ofList (integerChars n)
  | .float x => String.ofList (floatChars x)
  | .string text | .datum text => text

/-- **How the journal shows a host value**, its kind included. -/
def journalText : HostValue → String
  | .undefined => "Undefined"
  | .boolean true => "Bool(true)"
  | .boolean false => "Bool(false)"
  | .integer n => "Int(" ++ String.ofList (integerChars n) ++ ")"
  | .float x => "Float(" ++ String.ofList (floatChars x) ++ ")"
  | .string text => "Str(" ++ quotedLiteral text ++ ")"
  | .datum text => "Datum(" ++ quotedLiteral text ++ ")"

/-- **Whether the value is a number.** -/
def isNumber : HostValue → Bool
  | .integer _ | .float _ => true
  | _ => false

end HostValue

end Lisp
