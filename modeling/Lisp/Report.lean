/-
# Reports of failures

A failure is reported with the forms it happened inside of, the innermost first: every pair on its
trace that was written somewhere, with the place and its printed form on one line.
-/
import Lisp.Context

namespace Lisp

/-- **The longest form, in bytes, that is shown whole**, and how many characters are shown of a
longer one. -/
def shownLength : Nat := 80

/-- **A printed form on one line**, cut off when it is long. -/
def shortForm (text : String) : String :=
  let line := String.ofList (text.toList.flatMap fun c => if c = '\n' then ['\\', 'n'] else [c])
  if line.utf8ByteSize > shownLength then
    String.ofList (line.toList.take shownLength) ++ "..."
  else line

/-- **The line for one form of a trace**, if it is shown. -/
def traceLine (c : Context) (s : Store) (form : Value) : Option String :=
  match s.span? form with
  | some span =>
    if form.isPair then
      some ("\n" ++ c.fileName span.file ++ ":" ++ span.start.text ++ "-" ++ span.stop.text ++
        ":  at " ++ shortForm form.text)
    else none
  | none => none

/-- **The report of a failure.** -/
def Failure.report (failure : Failure) (c : Context) (s : Store) : String :=
  "ERR " ++ failure.fault.text ++ String.join (failure.trace.reverse.filterMap (traceLine c s)) ++
    "\n"

/-- **The report of an evaluation without a value.** -/
def Stop.report (stop : Stop) (c : Context) (s : Store) : String :=
  match stop with
  | .failed failure => failure.report c s
  | .tooDeep => "ERR " ++ stop.text ++ "\n"

end Lisp
