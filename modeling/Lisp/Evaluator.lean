/-
# Evaluation

Evaluation is defined in two layers.  The first says what one form does, given how to evaluate and
apply one level further down (`Below`): `SpecialForm.perform`, `evaluateStep` and `applyStep` are
not recursive.  The second ties the knot by depth (`evaluate`, `apply`): a form nested more than
the given number of levels deep ends as `Stop.tooDeep`, and a form that ends otherwise ends the
same way at every greater depth.
-/
import Lisp.Arguments
import Lisp.Language
import Lisp.Macro.Transformer
import Lisp.Parameters

namespace Lisp

/-- **How to evaluate and to apply one level further down.** -/
structure Below where
  evaluate : Value → Scope → Effect Value
  apply : Value → Value → Scope → Effect Value

namespace Below

/-- **Evaluates values in order.** -/
def evaluateAll (b : Below) (scope : Scope) : List Value → Effect (List Value)
  | [] => pure []
  | expr :: rest => do
    let value ← b.evaluate expr scope
    let values ← b.evaluateAll scope rest
    pure (value :: values)

/-- **Evaluates forms in order and gives the value of the last**, `value` if there is none. -/
def sequenceFrom (b : Below) (scope : Scope) (value : Value) : List Value → Effect Value
  | [] => pure value
  | form :: rest => do
    let value ← b.evaluate form scope
    b.sequenceFrom scope value rest

/-- **Evaluates the forms of a body**; what ends the chain is ignored. -/
def sequence (b : Below) (body : Value) (scope : Scope) : Effect Value :=
  b.sequenceFrom scope .nil body.elements

end Below

/-! ## Calls of host functions -/

/-- **Calls a host function** with a list of values. -/
def callHost (l : Language) (name : String) (args : Value) : Effect Value :=
  match l.function? name with
  | none => Effect.fail (.noHostFunction name)
  | some f => do
    let args := args.elements.map HostValue.ofValue
    Effect.record (.hostCalled name args)
    let reply := f args
    modify (·.print reply.printed)
    match reply.result with
    | .error reason => Effect.fail (.hostRefused name reason)
    | .ok value => modifyGet (·.ofHost value)

/-- **The host function that a value names.** -/
def hostName : Value → Except Fault String
  | .atom _ (.string name _) | .atom _ (.symbol name) | .hostMarker _ name => .ok name
  | v => .error (.noHostName v)

/-! ## Special forms -/

namespace Perform

open Effect (ofExcept fail)

/-- **The name and the value expressions of a definition.**  A pair as the target defines a
procedure: its head is the name, or again such a target, and its tail the parameters. -/
def definition : Value → Value → Effect (String × Value)
  | .pair _ target parameters, rest => do
    let lambda ← Effect.newSymbol "lambda"
    let procedure ← Effect.newList (lambda :: parameters :: rest.elements)
    let rest ← Effect.newList [procedure]
    definition target rest
  | .atom _ (.symbol name), rest => pure (name, rest)
  | target, _ => fail (.defineNoSymbol target)

/-- **`(lambda parameters body ...)`** -/
def lambda (args : Value) (scope : Scope) : Effect Value := do
  let (parameters, body) ← ofExcept (Arguments.required "params" args)
  Effect.newProcedure parameters body scope

/-- **`(if test then else)`**; a missing `else` is the empty list. -/
def conditional (b : Below) (args : Value) (scope : Scope) : Effect Value := do
  let (condition, rest) ← ofExcept (Arguments.required "condition" args)
  let (consequent, rest) ← ofExcept (Arguments.required "then_branch" rest)
  let (alternative, rest) := Arguments.optional rest
  ofExcept (Arguments.finished rest)
  let value ← b.evaluate condition scope
  if value.isFalse then b.evaluate alternative scope else b.evaluate consequent scope

/-- **`(define name expr)`** and **`(define (name parameters ...) body ...)`** -/
def define (b : Below) (args : Value) (scope : Scope) : Effect Value := do
  let (target, rest) ← ofExcept (Arguments.required "target" args)
  let (name, rest) ← definition target rest
  let expr ← ofExcept (Arguments.single "expr" rest)
  let value ← b.evaluate expr scope
  Effect.record (.defined name value)
  Effect.bind scope.frame name value
  pure value

/-- **`(set! name expr)`** -/
def assign (b : Below) (args : Value) (scope : Scope) : Effect Value := do
  let (target, expr) ← ofExcept (Arguments.double "target" "expr" args)
  match target.symbol? with
  | none => fail (.assignNoSymbol target)
  | some name => do
    let value ← b.evaluate expr scope
    modify (·.assign scope name value)
    pure value

/-- **`(str-quote expr)`** -/
def textOf (b : Below) (args : Value) (scope : Scope) : Effect Value := do
  let expr ← ofExcept (Arguments.single "expr" args)
  let value ← b.evaluate expr scope
  Effect.newString value.text

/-- **`(define-syntax name (syntax-rules literals rule ...))`** -/
def defineSyntax (args : Value) (scope : Scope) : Effect Value := do
  let (name, rules) ← ofExcept (Arguments.double "name" "rules" args)
  match name.symbol? with
  | none => fail (.keywordNoSymbol name)
  | some keyword =>
    match rules with
    | .pair _ head body =>
      if head.isSymbolNamed "syntax-rules" then do
        let value ← Effect.newTransformer body scope
        Effect.record (.definedTransformer keyword)
        Effect.bind scope.frame keyword value
        pure value
      else fail (.noTransformer rules)
    | _ => fail (.noTransformer rules)

/-- **`(host-func name arg ...)`** -/
def hostCall (l : Language) (b : Below) (args : Value) (scope : Scope) :
    Effect Value := do
  let (nameExpr, rest) ← ofExcept (Arguments.required "name" args)
  let nameValue ← b.evaluate nameExpr scope
  let name ← ofExcept (hostName nameValue)
  let values ← b.evaluateAll scope rest.elements
  let values ← Effect.newList values
  callHost l name values

/-- **`(host-ref name)`** -/
def hostReference (b : Below) (args : Value) (scope : Scope) : Effect Value := do
  let nameExpr ← ofExcept (Arguments.single "name" args)
  let nameValue ← b.evaluate nameExpr scope
  let name ← ofExcept (hostName nameValue)
  modifyGet (·.allocate (.hostMarker · name) none)

/-- **`(cons a b)`** -/
def cons (b : Below) (args : Value) (scope : Scope) : Effect Value := do
  let (headExpr, tailExpr) ← ofExcept (Arguments.double "car" "cdr" args)
  let head ← b.evaluate headExpr scope
  let tail ← b.evaluate tailExpr scope
  Effect.newPair head tail

/-- **`(car pair)` and `(cdr pair)`**, by what they extract. -/
def extract (b : Below) (part : Value → Except Fault Value) (args : Value)
    (scope : Scope) : Effect Value := do
  let expr ← ofExcept (Arguments.single "list" args)
  let value ← b.evaluate expr scope
  Effect.inside value (ofExcept (part value))

/-- **`(null? x)`** -/
def isNil (b : Below) (args : Value) (scope : Scope) : Effect Value := do
  let expr ← ofExcept (Arguments.single "arg" args)
  let value ← b.evaluate expr scope
  Effect.newAtom (.boolean value.isNil)

/-- **`(apply f list)`** -/
def applyTo (b : Below) (args : Value) (scope : Scope) : Effect Value := do
  let (callableExpr, listExpr) ← ofExcept (Arguments.double "func" "list" args)
  let callable ← b.evaluate callableExpr scope
  let list ← b.evaluate listExpr scope
  if list.isList then b.apply callable list scope else fail (.applyToNoList list)

/-- **`(when test body ...)`** -/
def guarded (b : Below) (args : Value) (scope : Scope) : Effect Value := do
  let test ← Effect.inside args (ofExcept args.head)
  let value ← b.evaluate test scope
  if value.isFalse then pure .nil else do
    let body ← Effect.inside args (ofExcept args.tail)
    b.sequence body scope

end Perform

/-- **Performs a special form** on its unevaluated arguments. -/
def SpecialForm.perform (l : Language) (b : Below) : SpecialForm → Value → Scope → Effect Value
  | .lambda, args, scope => Perform.lambda args scope
  | .conditional, args, scope => Perform.conditional b args scope
  | .define, args, scope => Perform.define b args scope
  | .assign, args, scope => Perform.assign b args scope
  | .quote, args, _ => Effect.ofExcept (Arguments.single "datum" args)
  | .textOf, args, scope => Perform.textOf b args scope
  | .defineSyntax, args, scope => Perform.defineSyntax args scope
  | .callHost, args, scope => Perform.hostCall l b args scope
  | .hostReference, args, scope => Perform.hostReference b args scope
  | .cons, args, scope => Perform.cons b args scope
  | .head, args, scope => Perform.extract b Value.head args scope
  | .tail, args, scope => Perform.extract b Value.tail args scope
  | .isNil, args, scope => Perform.isNil b args scope
  | .apply, args, scope => Perform.applyTo b args scope
  | .guarded, args, scope => Perform.guarded b args scope

/-! ## Evaluating and applying -/

/-- **What can stand at the head of a form.** -/
inductive Callable where
  | special (form : SpecialForm)
  | transformer (rules : Value) (scope : Scope)
  | procedure (parameters body : Value) (scope : Scope)
  | host (name : String)

/-- **What a value is as the head of a form.** -/
def Callable.ofValue (l : Language) : Value → Except Fault Callable
  | .formMarker _ name =>
    match l.form? name with
    | some form => .ok (.special form)
    | none => .error (.unregistered name)
  | .transformer _ rules scope => .ok (.transformer rules scope)
  | .procedure _ parameters body scope => .ok (.procedure parameters body scope)
  | .hostMarker _ name => .ok (.host name)
  | v => .error (.notApplicable v)

/-- **Evaluates the arguments of a call.** -/
def evaluateArguments (b : Below) (args : Value) (scope : Scope) : Effect Value :=
  if args.isList then do
    let values ← b.evaluateAll scope args.elements
    Effect.newList values
  else Effect.fail (.argumentsNoList args)

/-- **Evaluates a form.**  Special forms and macros get their arguments unevaluated. -/
def evaluateForm (l : Language) (b : Below) (head args : Value) (scope : Scope) :
    Effect Value :=
  match l.reserved? head with
  | some form => form.perform l b args scope
  | none => do
    let value ← b.evaluate head scope
    match ← Effect.ofExcept (Callable.ofValue l value) with
    | .special form => form.perform l b args scope
    | .transformer rules home => do
      let expansion ← Effect.expand rules home args
      b.evaluate expansion scope
    | .procedure .. | .host _ => do
      let values ← evaluateArguments b args scope
      b.apply value values scope

/-- **Evaluates an expression.**  A symbol stands for its value and a pair is a form; everything
else is its own value. -/
def evaluateStep (l : Language) (b : Below) (expr : Value) (scope : Scope) : Effect Value := do
  Effect.record (.evaluating expr)
  match expr with
  | .atom _ (.symbol name) => Effect.inside expr (Effect.lookup scope name)
  | .pair _ head args => Effect.inside expr (evaluateForm l b head args scope)
  | _ => pure expr

/-- **Calls a procedure**: binds its parameters in a new frame and evaluates its body there. -/
def callProcedure (b : Below) (spec body : Value) (home : Scope) (args : Value) :
    Effect Value := do
  let parameters ← Effect.ofExcept (Parameters.ofSpec spec)
  let inner ← modifyGet (·.enter home)
  parameters.bindArguments spec inner.frame args
  if body.isNil then Effect.fail (.emptyBody spec) else b.sequence body inner

/-- **Applies a value to evaluated arguments.**  A special form gets them quoted, so that they are
not evaluated again. -/
def applyStep (l : Language) (b : Below) (callable args : Value) (scope : Scope) :
    Effect Value := do
  Effect.record (.applying callable args)
  match ← Effect.ofExcept (Callable.ofValue l callable) with
  | .procedure spec body home => callProcedure b spec body home args
  | .host name => callHost l name args
  | .special form => do
    let quotes ← modifyGet (·.newQuotes args.elements)
    let quoted ← Effect.newList quotes
    form.perform l b quoted scope
  | .transformer rules home => do
    let expansion ← Effect.expand rules home args
    b.evaluate expansion scope

mutual

/-- **Evaluates an expression** nested at most `depth` levels deep. -/
def evaluate (l : Language) : (depth : Nat) → Value → Scope → Effect Value
  | 0, _, _ => throw .tooDeep
  | depth + 1, expr, scope => evaluateStep l ⟨evaluate l depth, apply l depth⟩ expr scope

/-- **Applies a value to arguments**, nested at most `depth` levels deep. -/
def apply (l : Language) : (depth : Nat) → Value → Value → Scope → Effect Value
  | 0, _, _, _ => throw .tooDeep
  | depth + 1, callable, args, scope =>
    applyStep l ⟨evaluate l depth, apply l depth⟩ callable args scope

end

/-- **Evaluation and application at a depth**, together. -/
def belowAt (l : Language) (depth : Nat) : Below :=
  ⟨evaluate l depth, apply l depth⟩

end Lisp
