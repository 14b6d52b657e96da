/-
# Languages

Which names are special forms and which are host functions.  A special form has its name reserved
at the head of a form; a host function is reached through a marker bound to its name.
-/
import Lisp.Host.Function

namespace Lisp

/-- **What a special form does.** -/
inductive SpecialForm where
  | lambda
  | conditional
  | define
  | assign
  | quote
  | textOf
  | defineSyntax
  | callHost
  | hostReference
  | cons
  | head
  | tail
  | isNil
  | apply
  /-- Evaluates a body where a test holds; not among the standard forms. -/
  | guarded
deriving DecidableEq

namespace SpecialForm

/-- **The standard special forms**, by name. -/
def standard : List (String × SpecialForm) :=
  [("apply", .apply),
   ("car", .head),
   ("cdr", .tail),
   ("cons", .cons),
   ("define", .define),
   ("define-syntax", .defineSyntax),
   ("host-func", .callHost),
   ("host-ref", .hostReference),
   ("if", .conditional),
   ("lambda", .lambda),
   ("null?", .isNil),
   ("quote", .quote),
   ("set!", .assign),
   ("str-quote", .textOf)]

end SpecialForm

/-- **Enters a name in a table**, in place of an earlier entry of it. -/
def register {α : Type} (name : String) (entry : α) : List (String × α) → List (String × α)
  | [] => [(name, entry)]
  | (other, old) :: rest =>
    if other = name then (name, entry) :: rest else (other, old) :: register name entry rest

/-- **The special forms and the host functions of a language.** -/
structure Language where
  forms : List (String × SpecialForm)
  host : List (String × HostFunction)

namespace Language

/-- **The language with all standard forms and functions.** -/
def standard : Language := ⟨SpecialForm.standard, HostFunction.standard⟩

/-- **The language without forms and functions.** -/
def empty : Language := ⟨[], []⟩

/-- **The special form of a name.** -/
def form? (l : Language) (name : String) : Option SpecialForm :=
  l.forms.lookup name

/-- **The special form that a head reserves.** -/
def reserved? (l : Language) (head : Value) : Option SpecialForm :=
  head.symbol?.bind l.form?

/-- **The host function of a name.** -/
def function? (l : Language) (name : String) : Option HostFunction :=
  l.host.lookup name

/-- **The language with one more host function.** -/
def addFunction (l : Language) (name : String) (f : HostFunction) : Language :=
  { l with host := register name f l.host }

end Language

end Lisp
