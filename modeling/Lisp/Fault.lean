/-
# Faults

Everything that can go wrong, by cause.  The kind a fault belongs to (`Fault.kind`) and its wording
(`Fault.message`) are functions of the cause.
-/
import Lisp.Host.Arithmetic
import Lisp.Reader
import Lisp.Value.Text

namespace Lisp

/-- **The kinds that faults are sorted into.** -/
inductive FaultKind where
  | syntaxError
  | unboundVariable
  | arityError
  | notApplicable
  | macroMatch
  | foreignCall
  | typeMismatch
  | invalidForm
  | osError
deriving DecidableEq

/-- **The name of a kind.** -/
def FaultKind.name : FaultKind → String
  | .syntaxError => "SyntaxError"
  | .unboundVariable => "UnboundVariable"
  | .arityError => "ArityError"
  | .notApplicable => "NotApplicable"
  | .macroMatch => "MacroMatch"
  | .foreignCall => "ForeignCall"
  | .typeMismatch => "TypeMismatch"
  | .invalidForm => "InvalidForm"
  | .osError => "OSError"

/-- **What is wrong with the body of a `syntax-rules` form**, or with a template in use. -/
inductive RuleFault where
  | noRules
  | literalsNoList (literals : Value)
  | literalNoSymbol (literal : Value)
  | malformedRule (rule : Value)
  | patternNoList (pattern : Value)
  | leadingEllipsis
  | secondEllipsis (pattern : Value)
  | noEllipsisVariable (template : Value)

/-- **The fault in words.** -/
def RuleFault.message : RuleFault → String
  | .noRules => "syntax-rules: expected a literal list and rules"
  | .literalsNoList v => "syntax-rules: literals must be a list: " ++ v.text
  | .literalNoSymbol v => "syntax-rules: literal is not a symbol: " ++ v.text
  | .malformedRule v => "syntax-rules: a rule must be (pattern template): " ++ v.text
  | .patternNoList v => "syntax-rules: a pattern must be a list: " ++ v.text
  | .leadingEllipsis => "syntax-rules: ellipsis must follow a pattern"
  | .secondEllipsis v => "syntax-rules: more than one ellipsis in " ++ v.text
  | .noEllipsisVariable v =>
    "syntax-rules: no ellipsis variable in template " ++ v.text ++ " ..."

/-- **The kinds of value that an extractor may ask for.** -/
inductive Expectation where
  | symbol
  | string
  | integer
  | number
deriving DecidableEq

/-- **What is asked for, in words.** -/
def Expectation.name : Expectation → String
  | .symbol => "symbol"
  | .string => "string"
  | .integer => "integer"
  | .number => "number"

/-- **How many arguments a procedure takes**: exactly so many, or that many and more. -/
structure Arity where
  least : Nat
  more : Bool
deriving DecidableEq

/-- **The number in words.** -/
def Arity.text (a : Arity) : String :=
  (if a.more then "at least " else "") ++ toString a.least

/-- **Why an evaluation failed.** -/
inductive Fault where
  | unreadable (e : SyntaxError)
  | unbound (name : String)
  | wrongCount (parameters : Value) (expected : Arity) (given : Nat)
  | notApplicable (value : Value)
  | unregistered (name : String)
  | noRuleMatched (args : Value)
  | unequalRepetitions (template : Value)
  | noHostFunction (name : String)
  | hostRefused (name : String) (reason : HostFault)
  | noHead (value : Value)
  | noTail (value : Value)
  | unexpected (expected : Expectation) (value : Value)
  | noHostName (value : Value)
  | applyToNoList (value : Value)
  | argumentsNoList (args : Value)
  | missingArgument (name : String)
  | surplusArguments (rest : Value)
  | parameterNoSymbol (parameter : Value)
  | malformedParameters (ending : Value)
  | bodyNoList (body : Value)
  | emptyBody (parameters : Value)
  | defineNoSymbol (target : Value)
  | assignNoSymbol (target : Value)
  | keywordNoSymbol (name : Value)
  | noTransformer (rules : Value)
  | rules (fault : RuleFault)
  | fileUnreadable (name reason : String)

namespace Fault

/-- **The kind of a fault.** -/
def kind : Fault → FaultKind
  | .unreadable _ => .syntaxError
  | .unbound _ => .unboundVariable
  | .wrongCount .. => .arityError
  | .notApplicable _ | .unregistered _ => .notApplicable
  | .noRuleMatched _ | .unequalRepetitions _ => .macroMatch
  | .noHostFunction _ | .hostRefused .. => .foreignCall
  | .noHead _ | .noTail _ | .unexpected .. | .noHostName _ | .applyToNoList _ => .typeMismatch
  | .argumentsNoList _ | .missingArgument _ | .surplusArguments _ | .parameterNoSymbol _
  | .malformedParameters _ | .bodyNoList _ | .emptyBody _ | .defineNoSymbol _
  | .assignNoSymbol _ | .keywordNoSymbol _ | .noTransformer _ | .rules _ => .invalidForm
  | .fileUnreadable .. => .osError

/-- **The fault in words.** -/
def message : Fault → String
  | .unreadable e => e.message
  | .unbound name => "unbound variable: " ++ name
  | .wrongCount parameters expected given =>
    "procedure " ++ parameters.text ++ " expects " ++ expected.text ++ " arguments, got " ++
      toString given
  | .notApplicable v => "not applicable: " ++ v.text
  | .unregistered name => "special form " ++ name ++ " is not registered"
  | .noRuleMatched args => "no rule matched " ++ args.text
  | .unequalRepetitions template =>
    "syntax-rules: ellipsis variables in " ++ template.text ++ " captured different lengths"
  | .noHostFunction name => name ++ ": no such host function"
  | .hostRefused name reason => name ++ ": " ++ reason.message
  | .noHead v => "car: not a pair: " ++ v.text
  | .noTail v => "cdr: not a pair: " ++ v.text
  | .unexpected expected v => "expected " ++ expected.name ++ ": " ++ v.text
  | .noHostName v => "not a host function name: " ++ v.text
  | .applyToNoList v => "apply: not a proper list: " ++ v.text
  | .argumentsNoList args => "argument list is not a proper list: " ++ args.text
  | .missingArgument name => "missing argument: " ++ name
  | .surplusArguments rest => "too many arguments: " ++ rest.text
  | .parameterNoSymbol v => "lambda: parameter is not a symbol: " ++ v.text
  | .malformedParameters v => "lambda: malformed parameter list: " ++ v.text
  | .bodyNoList v => "lambda: body is not a proper list: " ++ v.text
  | .emptyBody parameters => "procedure " ++ parameters.text ++ " has an empty body"
  | .defineNoSymbol v => "define: not a symbol: " ++ v.text
  | .assignNoSymbol v => "set!: not a symbol: " ++ v.text
  | .keywordNoSymbol v => "define-syntax: not a symbol: " ++ v.text
  | .noTransformer v => "define-syntax: expected (syntax-rules ...), got " ++ v.text
  | .rules fault => fault.message
  | .fileUnreadable name reason => "Unable to read file: " ++ name ++ ". Error: " ++ reason

/-- **Kind and wording together.** -/
def text (f : Fault) : String :=
  if f.message.isEmpty then f.kind.name else f.kind.name ++ ": " ++ f.message

end Fault

/-! ## Extractors -/

namespace Value

/-- **The first of a pair.** -/
def head : Value → Except Fault Value
  | .pair _ head _ => .ok head
  | v => .error (.noHead v)

/-- **The second of a pair.** -/
def tail : Value → Except Fault Value
  | .pair _ _ tail => .ok tail
  | v => .error (.noTail v)

/-- **The name of a symbol.** -/
def toSymbol : Value → Except Fault String
  | .atom _ (.symbol name) => .ok name
  | v => .error (.unexpected .symbol v)

/-- **The contents of a string.** -/
def toText : Value → Except Fault String
  | .atom _ (.string text _) => .ok text
  | v => .error (.unexpected .string v)

/-- **The number in an integer.** -/
def toInteger : Value → Except Fault Int64
  | .atom _ (.integer n) => .ok n
  | v => .error (.unexpected .integer v)

/-- **A number as a double.** -/
def toFloat : Value → Except Fault Float
  | .atom _ (.integer n) => .ok (integerToFloat n)
  | .atom _ (.float x) => .ok x
  | v => .error (.unexpected .number v)

end Value

end Lisp
