/-
# The reader

Lexemes are turned into data by a push-down machine (`Reading.step`).  Its stack holds the lists
and quotes that were begun and not completed, innermost first.  A datum that is complete goes to
the innermost of them (`Reading.supply`), or is a form of the text when there is none.  The first
error ends the reading; the forms completed before it stay.
-/
import Lisp.Datum
import Lisp.Lexeme
import Lisp.Numeral

namespace Lisp

/-- **Why a text is not a sequence of data**, and where.  The place is the innermost open
parenthesis, the innermost quote, the dot or the token that cannot be accepted. -/
inductive SyntaxError where
  | unterminatedString (place : Position)
  | unclosedList (place : Position)
  | unexpectedClosing (place : Position)
  | unexpectedDot (place : Position)
  | notOneAfterDot (place : Position)
  | nothingToQuote (place : Position)
deriving DecidableEq

namespace SyntaxError

/-- **Where the error is reported.** -/
def place : SyntaxError → Position
  | .unterminatedString p | .unclosedList p | .unexpectedClosing p
  | .unexpectedDot p | .notOneAfterDot p | .nothingToQuote p => p

/-- **What is wrong**, without the place. -/
def description : SyntaxError → String
  | .unterminatedString _ => "unterminated string"
  | .unclosedList _ => "unbalanced parentheses: unclosed list"
  | .unexpectedClosing _ => "unbalanced parentheses: unexpected `)`"
  | .unexpectedDot _ => "unexpected `.`"
  | .notOneAfterDot _ => "expected exactly one datum after `.`"
  | .nothingToQuote _ => "nothing to quote after `'`"

/-- **What is wrong and where.** -/
def message (e : SyntaxError) : String :=
  e.description ++ " at " ++ e.place.text

end SyntaxError

/-- **Something begun and not completed.**  Items are kept last first. -/
inductive Pending where
  /-- After `(` and the items; no dot yet. -/
  | list (start : Position) (items : List Datum)
  /-- After the dot, which stands at `dot`; its datum has not been read. -/
  | dotted (start : Position) (items : List Datum) (dot : Position)
  /-- After the datum that follows the dot; only `)` can come. -/
  | ending (start : Position) (items : List Datum) (tail : Datum) (dot : Position)
  /-- After `'`. -/
  | quote (start stop : Position)
deriving DecidableEq

/-- **A form of the text and the place right after it.** -/
structure Form where
  datum : Datum
  stop : Position
deriving DecidableEq

/-- **The reader between two lexemes**: what is pending, innermost first, and the forms completed,
last first. -/
structure Reading where
  pending : List Pending
  forms : List Form
deriving DecidableEq

namespace Reading

/-- **Nothing read yet.** -/
def initial : Reading := ⟨[], []⟩

/-- **Hands a complete datum to what is pending.**  A quote is completed by it; it is marked with
the place of the `'` alone.  At the outermost level the datum, which ends at `stop`, is a form. -/
def supply (file : Nat) (forms : List Form) (stop : Position) : Datum → List Pending → Reading
  | datum, [] => ⟨[], ⟨datum, stop⟩ :: forms⟩
  | datum, .quote start after :: rest =>
    supply file forms stop (datum.quoted.withSpan (some ⟨file, start, after⟩)) rest
  | datum, .list start items :: rest => ⟨.list start (datum :: items) :: rest, forms⟩
  | datum, .dotted start items dot :: rest => ⟨.ending start items datum dot :: rest, forms⟩
  | _, .ending start items tail dot :: rest => ⟨.ending start items tail dot :: rest, forms⟩

/-- **Accepts one lexeme**, or says why it cannot stand here. -/
def step (file : Nat) (r : Reading) (lexeme : Lexeme) : Except SyntaxError Reading :=
  let span : Option Span := some ⟨file, lexeme.start, lexeme.stop⟩
  let whole (start : Position) : Option Span := some ⟨file, start, lexeme.stop⟩
  match r.pending, lexeme.token with
  | .ending start items tail _ :: rest, .closing =>
    .ok (supply file r.forms lexeme.stop
      ((Datum.listWithTail items.reverse tail).withSpan (whole start)) rest)
  | .ending _ _ _ dot :: _, _ => .error (.notOneAfterDot dot)
  | pending, .opening => .ok ⟨.list lexeme.start [] :: pending, r.forms⟩
  | .list start items :: rest, .closing =>
    .ok (supply file r.forms lexeme.stop
      ((Datum.listWithTail items.reverse .nil).withSpan (whole start)) rest)
  | _, .closing => .error (.unexpectedClosing lexeme.start)
  | .list start (item :: items) :: rest, .dot =>
    .ok ⟨.dotted start (item :: items) lexeme.start :: rest, r.forms⟩
  | _, .dot => .error (.unexpectedDot lexeme.start)
  | pending, .quote => .ok ⟨.quote lexeme.start lexeme.stop :: pending, r.forms⟩
  | pending, .atom text =>
    .ok (supply file r.forms lexeme.stop (.atom (.ofChars text) span) pending)
  | pending, .string text raw =>
    .ok (supply file r.forms lexeme.stop (.atom (.string (String.ofList text) raw) span) pending)
  | _, .unterminated => .error (.unterminatedString lexeme.start)

/-- **Accepts lexemes until one cannot stand where it does.** -/
def run (file : Nat) (r : Reading) : List Lexeme → Reading × Option SyntaxError
  | [] => (r, none)
  | lexeme :: rest =>
    match r.step file lexeme with
    | .ok next => next.run file rest
    | .error e => (r, some e)

/-- **What is missing when the text ends here.** -/
def missing (r : Reading) : Option SyntaxError :=
  match r.pending with
  | [] => none
  | .list start _ :: _ | .dotted start _ _ :: _ | .ending start _ _ _ :: _ =>
    some (.unclosedList start)
  | .quote start _ :: _ => some (.nothingToQuote start)

end Reading

/-- **The forms of a text up to its first error**, and that error. -/
structure Contents where
  forms : List Form
  error : Option SyntaxError
deriving DecidableEq

namespace Contents

/-- **Reads all of a text** of the file numbered `file`. -/
def ofChars (file : Nat) (text : List Char) : Contents :=
  let (reading, error) := Reading.initial.run file (lexemes text)
  ⟨reading.forms.reverse, error.or reading.missing⟩

/-- **The data of a text.** -/
def data (contents : Contents) : List Datum :=
  contents.forms.map Form.datum

end Contents

/-- **Reads a text that has to be data throughout.** -/
def readAll (file : Nat) (text : String) : Except SyntaxError (List Datum) :=
  let contents := Contents.ofChars file text.toList
  match contents.error with
  | none => .ok contents.data
  | some e => .error e

/-- **The source text of the first datum**, from its first character to its last; empty if the
text holds none.  What follows that datum does not matter, be it an error. -/
def firstDatumText (text : String) : Except SyntaxError String :=
  let contents := Contents.ofChars 0 text.toList
  match contents.forms, contents.error with
  | form :: _, _ =>
    let start := ((lexemes text.toList).head?.map (·.start.offset)).getD 0
    .ok (String.ofList ((text.toList.drop start).take (form.stop.offset - start)))
  | [], some e => .error e
  | [], none => .ok ""

end Lisp
