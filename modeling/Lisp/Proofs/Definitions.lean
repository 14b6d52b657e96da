/-
# Definitions of procedures

`(define (name . parameters) . body)` is short for `(define name (lambda parameters . body))`, and
the name may be such a target again.  Both forms come to a name and one `lambda` expression for it
(`definition_alike`), and that expression to a procedure, or to the fault in its parameters
(`evaluate_lambda`).  Hence both define the same, or fail with the same fault and define nothing
(`define_shorthand`).

The short form writes the expression anew, with the forms of the body in a new list.  What ends the
chain of the body is lost in this.  So the long form that it stands for has the forms of the body as
a proper list, whatever the short form was written with; where the chain does not end in the empty
list the two differ (`define_shorthand_ignores_ending`).
-/
import Lisp.Proofs.Application
import Lisp.Proofs.Trees

namespace Lisp

open Effect (ofExcept bind_of_ok bind_of_error)
open Perform (definition)

variable {l : Language} {s s' s₁ s₂ : Store} {scope : Scope}

/-! ## 1. What is alike -/

/-- **Procedures of one scope with the same parameters and the same body**, as they are written. -/
inductive Value.SameProcedure : Value → Value → Prop where
  | mk {i i' parameters body body' home} (h : body.bare = body'.bare) :
    SameProcedure (.procedure i parameters body home) (.procedure i' parameters body' home)

/-- **Two definitions in a frame ended alike**: one name was bound in it to the same procedure, and
all else is as it was in `s`; or they failed with one fault, and everything is as it was. -/
inductive DefinedAlike (s : Store) (frame : Nat) : Conclusion → Conclusion → Prop where
  | ok {name p p' s₁ s₂} (hp : Value.SameProcedure p p') (h₁ : (s.bind frame name p).Extends s₁)
    (h₂ : (s.bind frame name p').Extends s₂) : DefinedAlike s frame (.ok p s₁) (.ok p' s₂)
  | failed {failure failure' s₁ s₂} (h : failure.fault = failure'.fault) (h₁ : s.Extends s₁)
    (h₂ : s.Extends s₂) :
    DefinedAlike s frame (.error (.failed failure) s₁) (.error (.failed failure') s₂)

/-- It does not matter what the failures are noted to have happened in. -/
theorem DefinedAlike.inside {frame : Nat} {effect effect' : Effect Value} {t t' : Store}
    (h : DefinedAlike s frame (effect t) (effect' t')) (form form' : Value) :
    DefinedAlike s frame (Effect.inside form effect t) (Effect.inside form' effect' t') := by
  simp only [Effect.inside, EStateM.adaptExcept]
  generalize effect t = e, effect' t' = e' at h
  cases h with
  | ok hp h₁ h₂ => exact .ok hp h₁ h₂
  | failed h h₁ h₂ =>
    refine .failed ?_ h₁ h₂
    rw [Effect.fault_inside, Effect.fault_inside, h]

theorem DefinedAlike.faultKind?_eq {frame : Nat} {e e' : Conclusion}
    (h : DefinedAlike s frame e e') : Conclusion.faultKind? e = Conclusion.faultKind? e' := by
  cases h with
  | ok => rfl
  | failed h => simp only [Conclusion.faultKind?, h]

/-- **The rest of a definition that is one `lambda` expression**, on both sides with the same
parameters and the same body. -/
inductive LambdasAlike : Value → Value → Prop where
  | mk {i j k m i' j' k' m' parameters body body'} (hbody : body.isList = true)
    (hbody' : body'.isList = true) (h : body.bare = body'.bare) :
    LambdasAlike (.pair i (.pair j (.atom k (.symbol "lambda")) (.pair m parameters body)) .nil)
      (.pair i' (.pair j' (.atom k' (.symbol "lambda")) (.pair m' parameters body')) .nil)

/-- Proper lists of the same elements are written alike. -/
theorem Value.bare_eq_of_isList {v w : Value} (hv : v.isList = true) (hw : w.isList = true)
    (h : v.elements.map bare = w.elements.map bare) : v.bare = w.bare := by
  have hnil : ∀ {u : Value}, u.isList = true → u.ending.bare = .nil := by
    intro u hu
    rw [isList] at hu
    cases hend : u.ending <;> simp_all [isNil, bare]
  rw [← chain_elements_ending v, ← chain_elements_ending w, hnil hv, hnil hw, h]

/-! ## 2. The name and the expression -/

/-- **A pair as the target** becomes a `lambda` expression with the forms of the body. -/
theorem definition_pair (i : Nat) (target parameters rest : Value) (s : Store) :
    ∃ j k m n body s₁, definition (.pair i target parameters) rest s =
        definition target
          (.pair j (.pair k (.atom m (.symbol "lambda")) (.pair n parameters body)) .nil) s₁ ∧
      body.elements = rest.elements ∧ body.isList = true ∧ s.Extends s₁ := by
  let lambda := s.newAtom (.symbol "lambda")
  let procedure := lambda.2.newList (lambda.1 :: parameters :: rest.elements)
  let whole := procedure.2.newList [procedure.1]
  have hextends : s.Extends whole.2 :=
    (s.extends_allocate (.atom · (.symbol "lambda")) none).trans
      ((lambda.2.extends_newList _).trans (procedure.2.extends_newList _))
  obtain ⟨helements, hlist⟩ := Store.elements_newList lambda.2 rest.elements
  exact ⟨_, _, _, _, _, whole.2, rfl, helements, hlist, hextends⟩

/-- **One target gives one name**, and `lambda` expressions alike.  The recursion is on the
target. -/
theorem definition_alike (target : Value) {rest rest' : Value} (h : LambdasAlike rest rest')
    (s s' : Store) :
    (∃ name rest₁ rest₁' s₁ s₁', definition target rest s = .ok (name, rest₁) s₁ ∧
      definition target rest' s' = .ok (name, rest₁') s₁' ∧ LambdasAlike rest₁ rest₁' ∧
      s.Extends s₁ ∧ s'.Extends s₁') ∨
    ∃ fault s₁ s₁', definition target rest s = .error (.failed ⟨fault, []⟩) s₁ ∧
      definition target rest' s' = .error (.failed ⟨fault, []⟩) s₁' ∧
      s.Extends s₁ ∧ s'.Extends s₁' := by
  induction target generalizing rest rest' s s' with
  | pair i target parameters ih _ =>
    obtain ⟨_, _, _, _, body, s₁, hleft, helements, hlist, h₁⟩ :=
      definition_pair i target parameters rest s
    obtain ⟨_, _, _, _, body', s₁', hright, helements', hlist', h₁'⟩ :=
      definition_pair i target parameters rest' s'
    have hbodies : body.bare = body'.bare := by
      refine Value.bare_eq_of_isList hlist hlist' ?_
      rw [helements, helements']
      cases h with
      | mk _ _ h => simp [Value.elements, Value.bare, h]
    rw [hleft, hright]
    rcases ih (.mk hlist hlist' hbodies) s₁ s₁' with
      ⟨name, rest₁, rest₁', s₂, s₂', hok, hok', halike, h₂, h₂'⟩ |
        ⟨fault, s₂, s₂', herror, herror', h₂, h₂'⟩
    · exact .inl ⟨name, rest₁, rest₁', s₂, s₂', hok, hok', halike, h₁.trans h₂, h₁'.trans h₂'⟩
    · exact .inr ⟨fault, s₂, s₂', herror, herror', h₁.trans h₂, h₁'.trans h₂'⟩
  | atom i value =>
    cases value with
    | symbol name => exact .inl ⟨name, rest, rest', s, s', rfl, rfl, h, .refl s, .refl s'⟩
    | _ => exact .inr ⟨_, s, s', rfl, rfl, .refl s, .refl s'⟩
  | _ => exact .inr ⟨_, s, s', rfl, rfl, .refl s, .refl s'⟩

/-! ## 3. The procedure -/

/-- **A form with a reserved head** is performed. -/
theorem evaluate_reserved {head : Value} {form : SpecialForm} (h : l.reserved? head = some form)
    (i depth : Nat) (args : Value) (scope : Scope) (s : Store) :
    evaluate l (depth + 1) (.pair i head args) scope s =
      Effect.inside (.pair i head args) (form.perform l (belowAt l depth) args scope)
        (s.record (.evaluating (.pair i head args))) := by
  simp only [evaluate, evaluateStep, evaluateForm, h]
  rfl

/-- **A `lambda` expression with a proper list as its body** fails for its parameters or not at
all. -/
theorem evaluate_lambda (hlambda : l.form? "lambda" = some .lambda) {body : Value}
    (hbody : body.isList = true) (i j k depth : Nat) (parameters : Value) (scope : Scope)
    (s : Store) :
    let form : Value := .pair i (.atom j (.symbol "lambda")) (.pair k parameters body)
    match Parameters.ofSpec parameters with
    | .ok _ => ∃ id s₁, evaluate l (depth + 1) form scope s =
        .ok (.procedure id parameters body scope) s₁ ∧ s.Extends s₁
    | .error fault => ∃ failure s₁, evaluate l (depth + 1) form scope s =
        .error (.failed failure) s₁ ∧ failure.fault = fault ∧ s.Extends s₁ := by
  intro form
  have hreserved : l.reserved? (.atom j (.symbol "lambda")) = some .lambda := hlambda
  have hperform : SpecialForm.perform l (belowAt l depth) .lambda (.pair k parameters body) scope =
      (ofExcept (checkProcedure parameters body) >>= fun _ =>
        modifyGet (·.allocate (.procedure · parameters body scope) none)) := rfl
  have hrun := evaluate_reserved hreserved i depth (.pair k parameters body) scope s
  have hrecord := s.extends_record (.evaluating form)
  rw [hperform] at hrun
  cases hspec : Parameters.ofSpec parameters with
  | ok names =>
    have hcheck : checkProcedure parameters body = .ok names := by
      simp [checkProcedure, hspec, hbody]
    rw [hcheck] at hrun
    have hmade := (s.record (.evaluating form)).extends_allocate
      (.procedure · parameters body scope) none
    exact ⟨_, _, hrun, hrecord.trans hmade⟩
  | error fault =>
    have hcheck : checkProcedure parameters body = .error fault := by
      simp only [checkProcedure, hspec]
      rfl
    rw [hcheck] at hrun
    exact ⟨_, _, hrun, Effect.fault_inside _ _, hrecord⟩

/-- **What a definition does with its name and its expression.** -/
def finishDefinition (b : Below) (scope : Scope) (name : String) (rest : Value) : Effect Value := do
  let expr ← ofExcept (Arguments.single "expr" rest)
  let value ← b.evaluate expr scope
  Effect.record (.defined name value)
  Effect.bind scope.frame name value
  pure value

theorem define_eq (b : Below) (i : Nat) (target rest : Value) (scope : Scope) :
    Perform.define b (.pair i target rest) scope =
      (definition target rest >>= fun result => finishDefinition b scope result.1 result.2) :=
  rfl

section Finish

variable {b : Below} {form v : Value} {name : String} {i : Nat}

theorem finishDefinition_of_ok (h : b.evaluate form scope s = .ok v s₁) :
    finishDefinition b scope name (.pair i form .nil) s =
      .ok v ((s₁.record (.defined name v)).bind scope.frame name v) :=
  bind_of_ok h _

theorem finishDefinition_of_error {stop : Stop} (h : b.evaluate form scope s = .error stop s₁) :
    finishDefinition b scope name (.pair i form .nil) s = .error stop s₁ :=
  bind_of_error h _

end Finish

theorem Store.Extends.bind (h : s.Extends s₁) (e : Event) (frame : Nat) (name : String)
    (v : Value) : (s.bind frame name v).Extends ((s₁.record e).bind frame name v) := by
  refine ⟨h.spans, ?_, h.output⟩
  simp only [Store.bind, Store.record, h.frames]

/-- **Expressions alike define the same**, from stores that hold the same. -/
theorem finishDefinition_alike (hlambda : l.form? "lambda" = some .lambda) {rest rest' : Value}
    (h : LambdasAlike rest rest') (h₁ : s.Extends s₁) (h₂ : s.Extends s₂) (depth : Nat)
    (name : String) :
    DefinedAlike s scope.frame (finishDefinition (belowAt l (depth + 1)) scope name rest s₁)
      (finishDefinition (belowAt l (depth + 1)) scope name rest' s₂) := by
  cases h with
  | @mk i j k m i' j' k' m' parameters body body' hbody hbody' h =>
    have hleft := evaluate_lambda hlambda hbody j k m depth parameters scope s₁
    have hright := evaluate_lambda hlambda hbody' j' k' m' depth parameters scope s₂
    cases hspec : Parameters.ofSpec parameters with
    | ok names =>
      simp only [hspec] at hleft hright
      obtain ⟨id, t₁, hleft, ht₁⟩ := hleft
      obtain ⟨id', t₂, hright, ht₂⟩ := hright
      rw [finishDefinition_of_ok hleft, finishDefinition_of_ok hright]
      exact .ok (.mk h) ((h₁.trans ht₁).bind _ _ _ _) ((h₂.trans ht₂).bind _ _ _ _)
    | error fault =>
      simp only [hspec] at hleft hright
      obtain ⟨failure, t₁, hleft, hfault, ht₁⟩ := hleft
      obtain ⟨failure', t₂, hright, hfault', ht₂⟩ := hright
      rw [finishDefinition_of_error hleft, finishDefinition_of_error hright]
      exact .failed (hfault.trans hfault'.symm) (h₁.trans ht₁) (h₂.trans ht₂)

theorem bind_congr_run {α β : Type} {effect effect' : Effect α} (h : effect s = effect' s')
    (next : α → Effect β) : (effect >>= next) s = (effect' >>= next) s' := by
  change EStateM.bind effect next s = EStateM.bind effect' next s'
  simp only [EStateM.bind, h]

/-- **One target and expressions alike define the same.** -/
theorem define_alike (hlambda : l.form? "lambda" = some .lambda) (target : Value)
    {rest rest' : Value} (h : LambdasAlike rest rest') (h₁ : s.Extends s₁) (h₂ : s.Extends s₂)
    (depth : Nat) :
    DefinedAlike s scope.frame
      ((definition target rest >>= fun result =>
        finishDefinition (belowAt l (depth + 1)) scope result.1 result.2) s₁)
      ((definition target rest' >>= fun result =>
        finishDefinition (belowAt l (depth + 1)) scope result.1 result.2) s₂) := by
  rcases definition_alike target h s₁ s₂ with
    ⟨name, rest₁, rest₂, t₁, t₂, hok, hok', halike, ht₁, ht₂⟩ |
      ⟨fault, t₁, t₂, herror, herror', ht₁, ht₂⟩
  · rw [bind_of_ok hok, bind_of_ok hok']
    exact finishDefinition_alike hlambda halike (h₁.trans ht₁) (h₂.trans ht₂) depth name
  · rw [bind_of_error herror, bind_of_error herror']
    exact .failed rfl (h₁.trans ht₁) (h₂.trans ht₂)

/-- **A pair as the target, against the expression that it becomes.** -/
theorem define_pair_alike (hlambda : l.form? "lambda" = some .lambda)
    {target parameters body body' : Value} (hlist : body'.isList = true)
    (hforms : body'.elements = body.elements) (i j k m n : Nat) (h₁ : s.Extends s₁)
    (h₂ : s.Extends s₂) (depth : Nat) :
    DefinedAlike s scope.frame
      ((definition (.pair i target parameters) body >>= fun result =>
        finishDefinition (belowAt l (depth + 1)) scope result.1 result.2) s₁)
      ((definition target
          (.pair j (.pair k (.atom m (.symbol "lambda")) (.pair n parameters body')) .nil) >>=
        fun result => finishDefinition (belowAt l (depth + 1)) scope result.1 result.2) s₂) := by
  obtain ⟨_, _, _, _, written, s₃, hdefinition, helements, hwritten, h₃⟩ :=
    definition_pair i target parameters body s₁
  have hbodies : written.bare = body'.bare :=
    Value.bare_eq_of_isList hwritten hlist (by rw [helements, hforms])
  rw [bind_congr_run hdefinition]
  exact define_alike hlambda target (.mk hwritten hlist hbodies) (h₁.trans h₃) h₂ depth

/-! ## 4. The short form and the long one -/

namespace Value

/-- **The form `(define (name . parameters) . body)`.** -/
def IsShorthand (form name parameters body : Value) : Prop :=
  ∃ i j k m, form = .pair i (.atom j (.symbol "define")) (.pair k (.pair m name parameters) body)

/-- **The form `(define name (lambda parameters . body))`.** -/
def IsLonghand (form name parameters body : Value) : Prop :=
  ∃ i j k m n p q, form = .pair i (.atom j (.symbol "define")) (.pair k name
    (.pair m (.pair n (.atom p (.symbol "lambda")) (.pair q parameters body)) .nil))

end Value

/-- **The short form of a definition means what the long one means** that has the forms of its body
as a proper list: both bind one name to the same procedure and change nothing else, or both fail
with the same fault and change nothing.  The name can be a target again, to any depth.  If the
body is a proper list, both forms can have this same body. -/
theorem define_shorthand {name parameters body body' short long : Value}
    (hdefine : l.form? "define" = some .define) (hlambda : l.form? "lambda" = some .lambda)
    (hshort : short.IsShorthand name parameters body)
    (hlong : long.IsLonghand name parameters body') (hlist : body'.isList = true)
    (hforms : body'.elements = body.elements) (depth : Nat) (s : Store) :
    DefinedAlike s scope.frame (evaluate l (depth + 2) short scope s)
      (evaluate l (depth + 2) long scope s) := by
  obtain ⟨i, j, k, m, rfl⟩ := hshort
  obtain ⟨i', j', k', m', n', p', q', rfl⟩ := hlong
  have hreserved (j : Nat) : l.reserved? (.atom j (.symbol "define")) = some .define := hdefine
  rw [evaluate_reserved (hreserved j), evaluate_reserved (hreserved j')]
  refine DefinedAlike.inside ?_ _ _
  simp only [SpecialForm.perform, define_eq]
  exact define_pair_alike hlambda hlist hforms m m' n' p' q' (s.extends_record _)
    (s.extends_record _) depth

/-- The form `(define (f x) . body)`. -/
def shortDefinition (body : Value) : Value :=
  .pair 0 (.atom 1 (.symbol "define")) (.pair 2
    (.pair 3 (.atom 4 (.symbol "f")) (.pair 5 (.atom 6 (.symbol "x")) .nil)) body)

/-- The form `(define f (lambda (x) . body))`. -/
def longDefinition (body : Value) : Value :=
  .pair 0 (.atom 1 (.symbol "define")) (.pair 2 (.atom 4 (.symbol "f")) (.pair 7
    (.pair 8 (.atom 9 (.symbol "lambda")) (.pair 3 (.pair 5 (.atom 6 (.symbol "x")) .nil) body))
    .nil))

/-- A store with one frame, in which nothing is bound. -/
def emptyFrame : Store :=
  ⟨Array.replicate 16 none, #[[]], "", []⟩

/-- With the body `(1)` both forms define a procedure of `x`. -/
theorem define_shorthand_proper :
    let body : Value := .pair 10 (.atom 11 (.integer 1)) .nil
    DefinedAlike emptyFrame (Scope.ofRoot 0).frame
        (evaluate .standard 2 (shortDefinition body) (.ofRoot 0) emptyFrame)
        (evaluate .standard 2 (longDefinition body) (.ofRoot 0) emptyFrame) ∧
      ((evaluate .standard 2 (shortDefinition body) (.ofRoot 0)).run' emptyFrame).map Value.text =
        some "#<procedure (x)>" := by
  intro body
  have hshort : (shortDefinition body).IsShorthand _ _ body := ⟨0, 1, 2, 3, rfl⟩
  have hlong : (longDefinition body).IsLonghand _ _ body := ⟨0, 1, 2, 7, 8, 9, 3, rfl⟩
  have hdefine : Language.standard.form? "define" = some .define := rfl
  have hlambda : Language.standard.form? "lambda" = some .lambda := rfl
  exact ⟨define_shorthand hdefine hlambda hshort hlong rfl rfl 0 emptyFrame, by decide +kernel⟩

/-- **The short form does not look at what ends its body.**  With `(1 . 2)` as the body it defines a
procedure; the long form fails, since that is not a proper list. -/
theorem define_shorthand_ignores_ending :
    let body : Value := .pair 10 (.atom 11 (.integer 1)) (.atom 12 (.integer 2))
    ((evaluate .standard 2 (shortDefinition body) (.ofRoot 0)).run' emptyFrame).map Value.text =
        some "#<procedure (x)>" ∧
      Conclusion.faultKind? (evaluate .standard 2 (longDefinition body) (.ofRoot 0) emptyFrame) =
        some .invalidForm ∧
      ¬ DefinedAlike emptyFrame (Scope.ofRoot 0).frame
        (evaluate .standard 2 (shortDefinition body) (.ofRoot 0) emptyFrame)
        (evaluate .standard 2 (longDefinition body) (.ofRoot 0) emptyFrame) := by
  intro body
  have hshort : Conclusion.faultKind?
      (evaluate .standard 2 (shortDefinition body) (.ofRoot 0) emptyFrame) = none := by
    decide +kernel
  have hlong : Conclusion.faultKind?
      (evaluate .standard 2 (longDefinition body) (.ofRoot 0) emptyFrame) = some .invalidForm := by
    decide +kernel
  refine ⟨by decide +kernel, hlong, fun h => ?_⟩
  have hsame := hshort.symm.trans (h.faultKind?_eq.trans hlong)
  cases hsame

end Lisp
