/-
# The journal

What an evaluation reports of itself, as data.  The wording and the level of importance are
functions of the event.
-/
import Lisp.Host.Value
import Lisp.Value.Text

namespace Lisp

/-- **Levels of importance**, the least important last. -/
inductive Level where
  | warning
  | debug
  | trace
deriving DecidableEq

namespace Level

/-- **How far down the levels go.** -/
def rank : Level → Nat
  | .warning => 0
  | .debug => 1
  | .trace => 2

/-- **The name of a level.** -/
def name : Level → String
  | .warning => "WARN"
  | .debug => "DEBUG"
  | .trace => "TRACE"

/-- **Whether a journal kept at `threshold` shows events of this level.** -/
def shownAt (level threshold : Level) : Bool :=
  level.rank ≤ threshold.rank

end Level

/-- **Something worth reporting.** -/
inductive Event where
  | implicitGlobal (name : String)
  | loading (file : String)
  | defined (name : String) (value : Value)
  | definedTransformer (name : String)
  | ruleMade (pattern template : Value)
  | expanded (args result : Value)
  | evaluating (expr : Value)
  | applying (callable args : Value)
  | remainderBound (name : String) (values : Value)
  | symbolResolved (name : String) (value : Value)
  | repeated (template : Value) (count : Nat)
  | hostCalled (name : String) (args : List HostValue)

namespace Event

/-- **The level of an event.** -/
def level : Event → Level
  | .implicitGlobal _ => .warning
  | .loading _ | .defined .. | .definedTransformer _ | .ruleMade .. | .expanded .. => .debug
  | .evaluating _ | .applying .. | .remainderBound .. | .symbolResolved .. | .repeated ..
  | .hostCalled .. => .trace

/-- **The event in words.** -/
def message : Event → String
  | .implicitGlobal name => "set!: " ++ name ++ " is not bound, creating a global binding"
  | .loading file => "loading " ++ file
  | .defined name value => "define " ++ name ++ " = " ++ value.text
  | .definedTransformer name => "define-syntax " ++ name
  | .ruleMade pattern template => "creating rule: " ++ pattern.text ++ " -> " ++ template.text
  | .expanded args result => "expanded " ++ args.text ++ " into " ++ result.text
  | .evaluating expr => "eval: " ++ expr.text
  | .applying callable args => "apply: " ++ callable.text ++ " to " ++ args.text
  | .remainderBound name values => "binding rest parameter " ++ name ++ " to " ++ values.text
  | .symbolResolved name value => "template symbol " ++ name ++ " resolved to " ++ value.text
  | .repeated template count =>
    "repeating " ++ template.text ++ " " ++ toString count ++ " times"
  | .hostCalled name args =>
    "host call: " ++ name ++ " [" ++ ", ".intercalate (args.map HostValue.journalText) ++ "]"

/-- **Level and wording together.** -/
def text (e : Event) : String :=
  e.level.name ++ ": " ++ e.message

end Event

end Lisp
