/-
# Transformers

A transformer is a list of rules, each a pattern and a template.  A use of it is matched with the
patterns in order, and the template of the first one that matches is instantiated.
-/
import Lisp.Macro.Template

namespace Lisp

/-- **A pattern and the template to instantiate when it matches.** -/
structure Rule where
  pattern : Pattern
  template : Value

/-- **Instantiates the template of a rule** with what its pattern captured from `args`.  `scope` is
the one that the macro was defined in. -/
def Rule.instantiate (rule : Rule) (scope : Scope) (args : Value) (captures : Captures) :
    Effect Value := do
  let bound ← modifyGet captures.toBindings
  let context : TemplateContext := ⟨bound, rule.pattern.depths 0, scope⟩
  let result ← Template.instantiate context rule.template
  Effect.record (.expanded args result)
  pure result

/-- **The meaning of a `syntax-rules` form**: symbols that stand for themselves, and rules. -/
structure Transformer where
  literals : List String
  rules : List Rule

namespace Transformer

/-- **The names in a list of literals.** -/
def literalNames : List Value → Except RuleFault (List String)
  | [] => .ok []
  | literal :: rest =>
    match literal.symbol? with
    | none => .error (.literalNoSymbol literal)
    | some name => do
      let names ← literalNames rest
      pure (name :: names)

/-- **The pattern and the template of a rule as written.** -/
def splitRule (rule : Value) : Except RuleFault (Value × Value) :=
  match rule with
  | .pair _ pattern (.pair _ template .nil) => .ok (pattern, template)
  | rule => .error (.malformedRule rule)

/-- **The pattern of a rule without its keyword**, which is never matched. -/
def patternArguments (pattern : Value) : Except RuleFault Value :=
  match pattern with
  | .pair _ _ args => .ok args
  | pattern => .error (.patternNoList pattern)

/-- **Compiles rules in order** up to the first fault.  Also returns the pattern and the template
of every rule that was well-formed enough to be looked into. -/
def compileRules (literals : List String) :
    List Value → List (Value × Value) × Except RuleFault (List Rule)
  | [] => ([], .ok [])
  | rule :: rest =>
    match splitRule rule with
    | .error fault => ([], .error fault)
    | .ok (pattern, template) =>
      match patternArguments pattern with
      | .error fault => ([], .error fault)
      | .ok args =>
        match Pattern.compile literals args with
        | .error fault => ([(pattern, template)], .error fault)
        | .ok compiled =>
          let (seen, rules) := compileRules literals rest
          ((pattern, template) :: seen, rules.map (⟨compiled, template⟩ :: ·))

/-- **The literals and the rules as written**, from what follows the word `syntax-rules`. -/
def splitBody (body : Value) : Except RuleFault (List String × List Value) :=
  match body with
  | .pair _ literals rules =>
    if literals.isList then do
      let names ← literalNames literals.elements
      pure (names, rules.elements)
    else .error (.literalsNoList literals)
  | _ => .error .noRules

/-- **Compiles the body of a `syntax-rules` form.**  Also returns the rules looked into. -/
def compileBody (body : Value) : List (Value × Value) × Except RuleFault Transformer :=
  match splitBody body with
  | .error fault => ([], .error fault)
  | .ok (literals, rules) =>
    let (seen, rules) := compileRules literals rules
    (seen, rules.map (⟨literals, ·⟩))

/-- **The transformer that a body describes.** -/
def ofBody (body : Value) : Except RuleFault Transformer :=
  (compileBody body).2

/-- **Expands a use**, given its arguments and the scope the macro was defined in.  The result is
not evaluated. -/
def expand (scope : Scope) (args : Value) : List Rule → Effect Value
  | [] => Effect.fail (.noRuleMatched args)
  | rule :: rest =>
    match rule.pattern.match? args with
    | none => expand scope args rest
    | some captures => rule.instantiate scope args captures

end Transformer

namespace Effect

/-- **Makes a transformer** from its body as written. -/
def newTransformer (body : Value) (scope : Scope) : Effect Value := do
  let (seen, outcome) := Transformer.compileBody body
  for (pattern, template) in seen do
    record (.ruleMade pattern template)
  match outcome with
  | .error fault => fail (.rules fault)
  | .ok _ => modifyGet (·.allocate (.transformer · body scope) none)

/-- **Expands a use of the transformer with the given body.** -/
def expand (body : Value) (scope : Scope) (args : Value) : Effect Value :=
  match Transformer.ofBody body with
  | .error fault => fail (.rules fault)
  | .ok transformer => Transformer.expand scope args transformer.rules

end Effect

end Lisp
