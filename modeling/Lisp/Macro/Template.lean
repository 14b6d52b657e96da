/-
# Templates

Instantiating a template replaces the pattern variables in it by what they captured.  The captures
are values by now, and a variable under ellipses is a list of what it captured each time, nested
as deep as the table of depths says; `sub ...` makes one copy of `sub` for each element of the
lists that its variables stand for, with each variable standing for one element and one ellipsis
less to go.

A symbol that is no pattern variable is replaced by its value if a scope inside the global one
binds it where the macro was defined, and left alone otherwise.
-/
import Lisp.Effect
import Lisp.Macro.Capture

namespace Lisp

/-- **Where a template is instantiated**: the values of the pattern variables, the nearest first,
how many ellipses each has to go, and the scope the macro was defined in. -/
structure TemplateContext where
  bound : Bindings
  depths : Pattern.Depths
  scope : Scope

namespace TemplateContext

/-- **The value of a pattern variable.** -/
def lookup (c : TemplateContext) (name : String) : Effect Value :=
  match c.bound.find? name with
  | some value => pure value
  | none => Effect.lookup c.scope name

/-- **The value of another symbol**, if a scope inside the global one binds it. -/
def lookupLocal? (c : TemplateContext) (s : Store) (name : String) : Option Value :=
  (c.bound.find? name).or (s.lookupLocal? c.scope name)

/-- **The context of one repetition**, in which the variables of `names` stand for `values`. -/
def repetition (c : TemplateContext) (names : List String) (values : List Value) :
    TemplateContext :=
  { c with
    bound := names.zip values ++ c.bound
    depths := c.depths.map fun (name, depth) =>
      (name, if names.contains name then depth - 1 else depth) }

/-- **The contexts of `count` repetitions**, when `columns` holds what each of `names` stands for in
turn. -/
def repetitions (c : TemplateContext) (names : List String) :
    (count : Nat) → (columns : List (List Value)) → List TemplateContext
  | 0, _ => []
  | count + 1, columns =>
    c.repetition names (columns.filterMap List.head?) ::
      c.repetitions names count (columns.map List.tail)

end TemplateContext

namespace Template

/-- **The symbols of a value**, each once, in the order they first occur. -/
def symbols (found : List String) : Value → List String
  | .atom _ (.symbol name) => if found.contains name then found else found ++ [name]
  | .pair _ head tail => symbols (symbols found head) tail
  | _ => found

/-- **Keeps a value from being evaluated** where that would not give the value itself. -/
def embed (value : Value) : Effect Value :=
  if value.isSymbol || value.isPair then modifyGet (·.newQuote value) else pure value

/-- **Instantiates a template that is no pair.** -/
def instantiateLeaf (c : TemplateContext) (template : Value) : Effect Value :=
  match template.symbol? with
  | none => pure template
  | some name =>
    if (c.depths.lookup name).isSome then c.lookup name else do
      match c.lookupLocal? (← get) name with
      | none => pure template
      | some value => do
        Effect.record (.symbolResolved name value)
        embed value

/-- **The variables that drive the repetition of `sub`**: those with an ellipsis to go. -/
def driving (c : TemplateContext) (sub : Value) : List String :=
  (symbols [] sub).filter fun name => (c.depths.lookup name).any (0 < ·)

/-- **What the driving variables stand for**, as lists that have to be of one length. -/
def columns (c : TemplateContext) (sub : Value) (length : Option Nat) :
    List String → Effect (List (List Value))
  | [] => pure []
  | name :: names => do
    let value ← c.lookup name
    let column := value.elements
    if length.any (· ≠ column.length) then Effect.fail (.unequalRepetitions sub)
    else do
      let others ← columns c sub (some column.length) names
      pure (column :: others)

/-- **The contexts in which `sub ...` instantiates `sub`.** -/
def expandRepetition (c : TemplateContext) (sub : Value) : Effect (List TemplateContext) := do
  let names := driving c sub
  if names.isEmpty then Effect.fail (.rules (.noEllipsisVariable sub)) else
  let columns ← columns c sub none names
  let count := (columns.head?.map List.length).getD 0
  Effect.record (.repeated sub count)
  pure (c.repetitions names count columns)

/-- **Makes the list that a template list becomes.**  It is said to stand where the template
stands; where no element came before the dot, that is the value after the dot. -/
def finish (template : Value) (items : List Value) (ending : Value) : Effect Value :=
  modifyGet fun s =>
    let (value, s) := s.newListWithTail items ending
    (value, s.place value (s.span? template))

/-- **Instantiates a template that stands as an element**, given its instance as a list.  The list
`(... x)` stands for `x` as it is. -/
def instantiateElement (c : TemplateContext) (template : Value)
    (asList : Effect (List Value × Value)) : Effect Value :=
  match template with
  | .pair _ head tail =>
    match head.isSymbolNamed ellipsis, tail with
    | true, .pair _ escaped _ => pure escaped
    | _, _ => do
      let (items, ending) ← asList
      finish template items ending
  | template => instantiateLeaf c template

/-- **Instantiates the elements of a template list** and what ends it. -/
def instantiateList : Value → TemplateContext → Effect (List Value × Value)
  | .nil, _ => pure ([], .nil)
  | .pair _ head tail, c =>
    match tail with
    | .pair id next after =>
      if next.isSymbolNamed ellipsis then do
        let contexts ← expandRepetition c head
        let items ← contexts.mapM fun c => instantiateElement c head (instantiateList head c)
        let (others, ending) ← instantiateList after c
        pure (items ++ others, ending)
      else do
        let item ← instantiateElement c head (instantiateList head c)
        let (others, ending) ← instantiateList (.pair id next after) c
        pure (item :: others, ending)
    | tail => do
      let item ← instantiateElement c head (instantiateList head c)
      let (others, ending) ← instantiateList tail c
      pure (item :: others, ending)
  | ending, c => do
    let value ← instantiateLeaf c ending
    pure ([], value)

/-- **Instantiates a template.** -/
def instantiate (c : TemplateContext) (template : Value) : Effect Value :=
  instantiateElement c template (instantiateList template c)

end Template

end Lisp
