/-
# The evaluator that takes back its reports

The evaluator has a companion that differs in its reports alone: what an evaluation reported is
taken back when it has succeeded (`evaluateRetracting`).  Both are made of the same steps, so of each
special form, of evaluating a form and of applying a value it is proved once that they retrace one
another where evaluating and applying one level further down does (`Below.Retraces`); the depth is
all that the induction is on.

A failure is noted inside of what is no form in three places only: where a symbol is not bound,
where `car` or `cdr` finds no pair, and where the arguments of a guarded body are none.
-/
import Lisp.Proofs.MacroObjects

namespace Lisp

open Value (AllAmong)
open Effect

variable {objects : List Value} {v : Value} {b b' : Below}

/-! ## 1. The evaluator that takes back its reports -/

mutual

/-- **Evaluates an expression** like `evaluate`.  What the evaluation reported is taken back when it
has succeeded. -/
def evaluateRetracting (l : Language) : (depth : Nat) → Value → Scope → Effect Value
  | 0, _, _ => throw .tooDeep
  | depth + 1, expr, scope =>
    retracting (evaluateStep l ⟨evaluateRetracting l depth, applyRetracting l depth⟩ expr scope)

/-- **Applies a value to arguments** like `apply`, within the evaluation in progress. -/
def applyRetracting (l : Language) : (depth : Nat) → Value → Value → Scope → Effect Value
  | 0, _, _, _ => throw .tooDeep
  | depth + 1, callable, args, scope =>
    applyStep l ⟨evaluateRetracting l depth, applyRetracting l depth⟩ callable args scope

end

/-- **One level further down** the second way of evaluating and applying retraces the first. -/
structure Below.Retraces (b b' : Below) : Prop where
  evaluate : ∀ {objects : List Value} {x : Value} (scope : Scope), x.Among objects →
    Effect.Retraces objects Value.Among (b.evaluate x scope) (b'.evaluate x scope)
  apply : ∀ {objects : List Value} {f args : Value} (scope : Scope), f.Among objects →
    args.Among objects →
      Effect.Retraces objects Value.Among (b.apply f args scope) (b'.apply f args scope)

namespace Below.Retraces

theorem evaluateAll (h : b.Retraces b') (scope : Scope) {xs : List Value}
    (hxs : AllAmong objects xs) :
    Effect.Retraces objects AllAmong (b.evaluateAll scope xs) (b'.evaluateAll scope xs) := by
  induction xs generalizing objects with
  | nil => exact conserves_pure (List.forall_mem_nil _)
  | cons x xs ih =>
    obtain ⟨hx, hxs⟩ := List.forall_mem_cons.mp hxs
    refine (h.evaluate scope hx).bind fun objects₁ hle₁ v hv => ?_
    refine (ih (AllAmong.mono hxs hle₁)).bind fun objects₂ hle₂ vs hvs => ?_
    exact conserves_pure (List.forall_mem_cons.mpr ⟨hv.mono hle₂, hvs⟩)

theorem sequenceFrom (h : b.Retraces b') (scope : Scope) {value : Value}
    (hvalue : value.Among objects) {forms : List Value} (hforms : AllAmong objects forms) :
    Effect.Retraces objects Value.Among (b.sequenceFrom scope value forms)
      (b'.sequenceFrom scope value forms) := by
  induction forms generalizing objects value with
  | nil => exact conserves_pure hvalue
  | cons form forms ih =>
    obtain ⟨hform, hforms⟩ := List.forall_mem_cons.mp hforms
    exact (h.evaluate scope hform).bind fun objects₁ hle₁ v hv =>
      ih hv (AllAmong.mono hforms hle₁)

theorem sequence (h : b.Retraces b') (scope : Scope) {body : Value} (hbody : body.Among objects) :
    Effect.Retraces objects Value.Among (b.sequence body scope) (b'.sequence body scope) :=
  h.sequenceFrom scope (show Value.nil.Among objects from trivial) hbody.elements

end Below.Retraces

/-! ## 2. Parts of argument lists -/

namespace Value.Among

variable {p : Value × Value}

theorem head (h : v.Among objects) {w : Value} (hw : v.head = .ok w) : w.Among objects := by
  cases v with
  | pair =>
    cases hw
    exact h.2.1
  | _ => cases hw

theorem tail (h : v.Among objects) {w : Value} (hw : v.tail = .ok w) : w.Among objects := by
  cases v with
  | pair =>
    cases hw
    exact h.2.2
  | _ => cases hw

theorem required (h : v.Among objects) {name : String} (hp : Arguments.required name v = .ok p) :
    p.1.Among objects ∧ p.2.Among objects := by
  cases v with
  | pair =>
    cases hp
    exact h.2
  | _ => cases hp

theorem optional (h : v.Among objects) : (Arguments.optional v).1.Among objects := by
  cases v with
  | pair => exact h.2.1
  | _ => trivial

theorem single (h : v.Among objects) {name : String} {w : Value}
    (hw : Arguments.single name v = .ok w) : w.Among objects := by
  obtain ⟨p, hp, hrest⟩ := bind_eq_ok_iff.mp hw
  obtain ⟨_, -, ⟨⟩⟩ := bind_eq_ok_iff.mp hrest
  exact (h.required hp).1

theorem double (h : v.Among objects) {first second : String}
    (hp : Arguments.double first second v = .ok p) : p.1.Among objects ∧ p.2.Among objects := by
  obtain ⟨q, hq, hrest⟩ := bind_eq_ok_iff.mp hp
  obtain ⟨r, hr, hrest⟩ := bind_eq_ok_iff.mp hrest
  obtain ⟨_, -, ⟨⟩⟩ := bind_eq_ok_iff.mp hrest
  obtain ⟨hfirst, hothers⟩ := h.required hq
  exact ⟨hfirst, (hothers.required hr).1⟩

end Value.Among

theorem Value.isPair_of_head_error {fault : Fault} (h : v.head = .error fault) :
    v.isPair = false := by
  cases v with
  | pair => cases h
  | _ => rfl

theorem Value.isPair_of_tail_error {fault : Fault} (h : v.tail = .error fault) :
    v.isPair = false := by
  cases v with
  | pair => cases h
  | _ => rfl

/-- **What a callable holds** is among the objects. -/
def Callable.Among (objects : List Value) : Callable → Prop
  | .transformer rules _ => rules.Among objects
  | .procedure parameters body _ => parameters.Among objects ∧ body.Among objects
  | .special _ | .host _ => True

theorem Value.Among.callable (h : v.Among objects) {l : Language} {callable : Callable}
    (hcallable : Callable.ofValue l v = .ok callable) : callable.Among objects := by
  unfold Callable.ofValue at hcallable
  split at hcallable
  · split at hcallable <;> cases hcallable
    trivial
  · cases hcallable
    exact h.2
  · cases hcallable
    exact h.2
  · cases hcallable
    trivial
  · cases hcallable

/-! ## 3. What evaluates nothing -/

theorem conserves_callHost (l : Language) (name : String) (args : Value) :
    Conserves objects Value.Among (callHost l name args) := by
  unfold callHost
  split
  · exact conserves_fail _
  · refine (conserves_record rfl).bind fun objects₁ _ _ _ => ?_
    refine (conserves_print _).bind fun objects₂ _ _ _ => ?_
    split
    · exact conserves_fail _
    · exact conserves_ofHost _

theorem conserves_newProcedure {spec body : Value} (hspec : spec.Among objects)
    (hbody : body.Among objects) (scope : Scope) :
    Conserves objects Value.Among (newProcedure spec body scope) :=
  retraces_ofExcept_bind fun _ _ => conserves_allocate fun _ hle _ hi =>
    ⟨hi, hspec.mono hle, hbody.mono hle⟩

namespace Parameters

/-- **What is left of the arguments** is among the objects. -/
def LeftAmong (objects : List Value) : Except Nat (List Value) → Prop
  | .ok remaining => AllAmong objects remaining
  | .error _ => True

theorem conserves_bindFixed (frame : Nat) (names : List String) {args : List Value}
    (hargs : AllAmong objects args) (given : Nat) :
    Conserves objects LeftAmong (bindFixed frame names args given) := by
  induction names generalizing objects args given with
  | nil => exact conserves_pure hargs
  | cons name names ih =>
    cases args with
    | nil => exact conserves_pure trivial
    | cons arg args =>
      obtain ⟨harg, hargs⟩ := List.forall_mem_cons.mp hargs
      exact (conserves_bind harg frame name).bind fun objects₁ hle₁ _ _ =>
        ih (AllAmong.mono hargs hle₁) _

theorem conserves_bindArguments (p : Parameters) (spec : Value) (frame : Nat) {args : Value}
    (hargs : args.Among objects) :
    Conserves objects (fun _ _ => True) (p.bindArguments spec frame args) := by
  refine (conserves_bindFixed frame p.fixed hargs.elements 0).bind
    fun objects₁ hle₁ left hleft => ?_
  cases left with
  | error given => exact conserves_fail _
  | ok remaining =>
    dsimp only
    split
    · next name remaining =>
      refine (conserves_newList hleft).bind fun objects₂ hle₂ values hvalues => ?_
      refine (conserves_record rfl).bind fun objects₃ hle₃ _ _ => ?_
      exact conserves_bind (hvalues.mono hle₃) frame name
    · exact conserves_pure trivial
    · exact conserves_fail _

end Parameters

/-! ## 4. Special forms -/

namespace Perform

variable {args : Value}

theorem conserves_definition (target : Value) {rest : Value} (htarget : target.Among objects)
    (hrest : rest.Among objects) :
    Conserves objects (fun objects p => p.2.Among objects) (definition target rest) := by
  induction target generalizing objects rest with
  | pair id inner parameters ih =>
    unfold definition
    refine (conserves_newAtom (.symbol "lambda")).bind fun objects₁ hle₁ lambda hlambda => ?_
    have hitems : AllAmong objects₁ (lambda :: parameters :: rest.elements) :=
      List.forall_mem_cons.mpr ⟨hlambda, List.forall_mem_cons.mpr
        ⟨htarget.2.2.mono hle₁, AllAmong.mono hrest.elements hle₁⟩⟩
    refine (conserves_newList hitems).bind fun objects₂ hle₂ procedure hprocedure => ?_
    refine (conserves_newList (List.forall_mem_singleton.mpr hprocedure)).bind
      fun objects₃ hle₃ rest hrest => ?_
    exact ih (htarget.2.1.mono ((hle₁.trans hle₂).trans hle₃)) hrest
  | atom id value =>
    cases value with
    | symbol name => exact conserves_pure hrest
    | _ => exact conserves_fail _
  | _ => exact conserves_fail _

section

variable (hargs : args.Among objects) (scope : Scope)

include hargs

theorem conserves_lambda : Conserves objects Value.Among (lambda args scope) :=
  retraces_ofExcept_bind fun _ hp =>
    conserves_newProcedure (hargs.required hp).1 (hargs.required hp).2 scope

theorem retraces_conditional (hb : b.Retraces b') :
    Retraces objects Value.Among (conditional b args scope) (conditional b' args scope) := by
  refine retraces_ofExcept_bind fun p hp => ?_
  obtain ⟨hcondition, hrest⟩ := hargs.required hp
  refine retraces_ofExcept_bind fun q hq => ?_
  obtain ⟨hconsequent, hrest⟩ := hrest.required hq
  refine retraces_ofExcept_bind fun _ _ => ?_
  refine (hb.evaluate scope hcondition).bind fun objects₁ hle₁ value _ => ?_
  split
  · exact hb.evaluate scope (hrest.optional.mono hle₁)
  · exact hb.evaluate scope (hconsequent.mono hle₁)

theorem retraces_define (hb : b.Retraces b') :
    Retraces objects Value.Among (define b args scope) (define b' args scope) := by
  refine retraces_ofExcept_bind fun p hp => ?_
  obtain ⟨htarget, hrest⟩ := hargs.required hp
  refine (conserves_definition p.1 htarget hrest).bind fun objects₁ hle₁ definition hmade => ?_
  refine retraces_ofExcept_bind fun expr hexpr => ?_
  refine (hb.evaluate scope (hmade.single hexpr)).bind fun objects₂ hle₂ value hvalue => ?_
  refine (conserves_record rfl).bind fun objects₃ hle₃ _ _ => ?_
  refine (conserves_bind (hvalue.mono hle₃) _ _).bind fun objects₄ hle₄ _ _ => ?_
  exact conserves_pure (hvalue.mono (hle₃.trans hle₄))

theorem retraces_assign (hb : b.Retraces b') :
    Retraces objects Value.Among (assign b args scope) (assign b' args scope) := by
  refine retraces_ofExcept_bind fun p hp => ?_
  obtain ⟨_, hexpr⟩ := hargs.double hp
  dsimp only
  split
  · exact conserves_fail _
  · refine (hb.evaluate scope hexpr).bind fun objects₁ hle₁ value hvalue => ?_
    refine (Effect.conserves_assign hvalue scope _).bind fun objects₂ hle₂ _ _ => ?_
    exact conserves_pure (hvalue.mono hle₂)

theorem retraces_textOf (hb : b.Retraces b') :
    Retraces objects Value.Among (textOf b args scope) (textOf b' args scope) := by
  refine retraces_ofExcept_bind fun expr hexpr => ?_
  exact (hb.evaluate scope (hargs.single hexpr)).bind fun objects₁ hle₁ value _ =>
    conserves_newAtom _

theorem conserves_defineSyntax : Conserves objects Value.Among (defineSyntax args scope) := by
  refine retraces_ofExcept_bind fun p hp => ?_
  obtain ⟨_, hrules⟩ := hargs.double hp
  dsimp only
  split
  · exact conserves_fail _
  · split
    · next hpair =>
      split
      · rw [hpair] at hrules
        refine (conserves_newTransformer hrules.2.2 scope).bind fun objects₁ hle₁ value hvalue => ?_
        refine (conserves_record rfl).bind fun objects₂ hle₂ _ _ => ?_
        refine (conserves_bind (hvalue.mono hle₂) _ _).bind fun objects₃ hle₃ _ _ => ?_
        exact conserves_pure (hvalue.mono (hle₂.trans hle₃))
      · exact conserves_fail _
    · exact conserves_fail _

theorem retraces_hostCall (l : Language) (hb : b.Retraces b') :
    Retraces objects Value.Among (hostCall l b args scope) (hostCall l b' args scope) := by
  refine retraces_ofExcept_bind fun p hp => ?_
  obtain ⟨hname, hrest⟩ := hargs.required hp
  refine (hb.evaluate scope hname).bind fun objects₁ hle₁ nameValue _ => ?_
  refine retraces_ofExcept_bind fun name _ => ?_
  refine (hb.evaluateAll scope (AllAmong.mono hrest.elements hle₁)).bind
    fun objects₂ hle₂ values hvalues => ?_
  exact (conserves_newList hvalues).bind fun objects₃ hle₃ list _ => conserves_callHost l name list

theorem retraces_hostReference (hb : b.Retraces b') :
    Retraces objects Value.Among (hostReference b args scope) (hostReference b' args scope) := by
  refine retraces_ofExcept_bind fun nameExpr hexpr => ?_
  refine (hb.evaluate scope (hargs.single hexpr)).bind fun objects₁ hle₁ nameValue _ => ?_
  exact retraces_ofExcept_bind fun name _ => conserves_allocate fun _ _ _ hi => hi

theorem retraces_cons (hb : b.Retraces b') :
    Retraces objects Value.Among (cons b args scope) (cons b' args scope) := by
  refine retraces_ofExcept_bind fun p hp => ?_
  obtain ⟨hhead, htail⟩ := hargs.double hp
  refine (hb.evaluate scope hhead).bind fun objects₁ hle₁ head hhead => ?_
  refine (hb.evaluate scope (htail.mono hle₁)).bind fun objects₂ hle₂ tail htail => ?_
  exact conserves_newPair (hhead.mono hle₂) htail

/-- **A part is taken of a pair**, or the failure is noted inside of what is no pair. -/
theorem retraces_extract (hb : b.Retraces b') {part : Value → Except Fault Value}
    (hpart : ∀ {objects : List Value} {v w : Value}, v.Among objects → part v = .ok w →
      w.Among objects)
    (hpair : ∀ {v : Value} {fault : Fault}, part v = .error fault → v.isPair = false) :
    Retraces objects Value.Among (extract b part args scope) (extract b' part args scope) := by
  refine retraces_ofExcept_bind fun expr hexpr => ?_
  refine (hb.evaluate scope (hargs.single hexpr)).bind fun objects₁ hle₁ value hvalue => ?_
  exact conserves_inside_ofExcept (fun _ => hpart hvalue) hvalue fun _ => hpair

theorem retraces_isNil (hb : b.Retraces b') :
    Retraces objects Value.Among (isNil b args scope) (isNil b' args scope) := by
  refine retraces_ofExcept_bind fun expr hexpr => ?_
  exact (hb.evaluate scope (hargs.single hexpr)).bind fun objects₁ hle₁ value _ =>
    conserves_newAtom _

theorem retraces_applyTo (hb : b.Retraces b') :
    Retraces objects Value.Among (applyTo b args scope) (applyTo b' args scope) := by
  refine retraces_ofExcept_bind fun p hp => ?_
  obtain ⟨hcallable, hlist⟩ := hargs.double hp
  refine (hb.evaluate scope hcallable).bind fun objects₁ hle₁ callable hcallable => ?_
  refine (hb.evaluate scope (hlist.mono hle₁)).bind fun objects₂ hle₂ list hlist => ?_
  split
  · exact hb.apply scope (hcallable.mono hle₂) hlist
  · exact conserves_fail _

theorem retraces_guarded (hb : b.Retraces b') :
    Retraces objects Value.Among (guarded b args scope) (guarded b' args scope) := by
  have htest := conserves_inside_ofExcept (x := args.head) (fun _ => hargs.head) hargs
    fun _ => Value.isPair_of_head_error
  refine htest.bind fun objects₁ hle₁ test htest => ?_
  refine (hb.evaluate scope htest).bind fun objects₂ hle₂ value _ => ?_
  split
  · exact conserves_pure trivial
  · have hargs₂ := hargs.mono (hle₁.trans hle₂)
    have hbody := conserves_inside_ofExcept (x := args.tail) (fun _ => hargs₂.tail) hargs₂
      fun _ => Value.isPair_of_tail_error
    exact hbody.bind fun objects₃ hle₃ body hbody => hb.sequence scope hbody

end

end Perform

/-- **Every special form** is retraced. -/
theorem retraces_perform (l : Language) (hb : b.Retraces b') (form : SpecialForm) {args : Value}
    (hargs : args.Among objects) (scope : Scope) :
    Retraces objects Value.Among (form.perform l b args scope) (form.perform l b' args scope) := by
  cases form with
  | lambda => exact Perform.conserves_lambda hargs scope
  | conditional => exact Perform.retraces_conditional hargs scope hb
  | define => exact Perform.retraces_define hargs scope hb
  | assign => exact Perform.retraces_assign hargs scope hb
  | quote => exact conserves_ofExcept fun _ => hargs.single
  | textOf => exact Perform.retraces_textOf hargs scope hb
  | defineSyntax => exact Perform.conserves_defineSyntax hargs scope
  | callHost => exact Perform.retraces_hostCall hargs scope l hb
  | hostReference => exact Perform.retraces_hostReference hargs scope hb
  | cons => exact Perform.retraces_cons hargs scope hb
  | head =>
    exact Perform.retraces_extract hargs scope hb (fun hv => hv.head) Value.isPair_of_head_error
  | tail =>
    exact Perform.retraces_extract hargs scope hb (fun hv => hv.tail) Value.isPair_of_tail_error
  | isNil => exact Perform.retraces_isNil hargs scope hb
  | apply => exact Perform.retraces_applyTo hargs scope hb
  | guarded => exact Perform.retraces_guarded hargs scope hb

/-! ## 5. Evaluating and applying -/

theorem retraces_evaluateArguments (hb : b.Retraces b') {args : Value}
    (hargs : args.Among objects) (scope : Scope) :
    Retraces objects Value.Among (evaluateArguments b args scope)
      (evaluateArguments b' args scope) := by
  unfold evaluateArguments
  split
  · exact (hb.evaluateAll scope hargs.elements).bind fun _ _ _ hvalues => conserves_newList hvalues
  · exact conserves_fail _

theorem retraces_evaluateForm (l : Language) (hb : b.Retraces b') {head args : Value}
    (hhead : head.Among objects) (hargs : args.Among objects) (scope : Scope) :
    Retraces objects Value.Among (evaluateForm l b head args scope)
      (evaluateForm l b' head args scope) := by
  unfold evaluateForm
  split
  · exact retraces_perform l hb _ hargs scope
  · refine (hb.evaluate scope hhead).bind fun objects₁ hle₁ value hvalue => ?_
    have hargs₁ := hargs.mono hle₁
    refine retraces_ofExcept_bind fun callable hcallable => ?_
    have hparts := hvalue.callable hcallable
    have hcall : Retraces objects₁ Value.Among
        (evaluateArguments b args scope >>= fun values => b.apply value values scope)
        (evaluateArguments b' args scope >>= fun values => b'.apply value values scope) :=
      (retraces_evaluateArguments hb hargs₁ scope).bind fun objects₂ hle₂ values hvalues =>
        hb.apply scope (hvalue.mono hle₂) hvalues
    cases callable with
    | special form => exact retraces_perform l hb form hargs₁ scope
    | transformer rules home =>
      exact (conserves_expand hparts home hargs₁).bind fun objects₂ hle₂ expansion hexpansion =>
        hb.evaluate scope hexpansion
    | procedure => exact hcall
    | host => exact hcall

/-- **The evaluation of an expression** is retraced by one that takes its reports back. -/
theorem retraces_evaluateStep (l : Language) (hb : b.Retraces b') {x : Value}
    (hx : x.Among objects) (scope : Scope) :
    Retraces objects Value.Among (evaluateStep l b x scope)
      (retracting (evaluateStep l b' x scope)) := by
  have hself : ∀ {next next' : Effect Value}, Event.form? (.evaluating x) = none →
      (∀ {objects}, x.Among objects → Retraces objects Value.Among next next') →
      Retraces objects Value.Among (record (.evaluating x) >>= fun _ => next)
        (retracting (record (.evaluating x) >>= fun _ => next')) := fun hquiet hnext =>
    ((conserves_record hquiet).bind fun _ hle _ _ => hnext (hx.mono hle)).retracting
  cases x with
  | pair id head args =>
    exact (retraces_evaluateForm l hb hx.2.1 hx.2.2 scope).evaluating rfl hx
  | atom id value =>
    cases value with
    | symbol name => exact hself rfl fun hx => conserves_inside_lookup hx rfl scope name
    | _ => exact hself rfl conserves_pure
  | _ => exact hself rfl conserves_pure

theorem retraces_callProcedure (hb : b.Retraces b') {spec body args : Value}
    (hbody : body.Among objects) (home : Scope) (hargs : args.Among objects) :
    Retraces objects Value.Among (callProcedure b spec body home args)
      (callProcedure b' spec body home args) := by
  refine retraces_ofExcept_bind fun parameters _ => ?_
  refine (conserves_enter home).bind fun objects₁ hle₁ inner _ => ?_
  refine (parameters.conserves_bindArguments spec _ (hargs.mono hle₁)).bind
    fun objects₂ hle₂ _ _ => ?_
  split
  · exact conserves_fail _
  · exact hb.sequence inner (hbody.mono (hle₁.trans hle₂))

theorem retraces_applyStep (l : Language) (hb : b.Retraces b') {f args : Value}
    (hf : f.Among objects) (hargs : args.Among objects) (scope : Scope) :
    Retraces objects Value.Among (applyStep l b f args scope) (applyStep l b' f args scope) := by
  refine (conserves_record rfl).bind fun objects₁ hle₁ _ _ => ?_
  have hargs₁ := hargs.mono hle₁
  refine retraces_ofExcept_bind fun callable hcallable => ?_
  have hparts := (hf.mono hle₁).callable hcallable
  cases callable with
  | procedure spec body home => exact retraces_callProcedure hb hparts.2 home hargs₁
  | host name => exact conserves_callHost l name args
  | special form =>
    refine (conserves_newQuotes hargs₁.elements).bind fun objects₂ hle₂ quotes hquotes => ?_
    refine (conserves_newList hquotes).bind fun objects₃ hle₃ quoted hquoted => ?_
    exact retraces_perform l hb form hquoted scope
  | transformer rules home =>
    exact (conserves_expand hparts home hargs₁).bind fun objects₂ hle₂ expansion hexpansion =>
      hb.evaluate scope hexpansion

/-- **At every depth** the evaluator is retraced by the one that takes its reports back. -/
theorem retraces_belowAt (l : Language) (depth : Nat) :
    (belowAt l depth).Retraces ⟨evaluateRetracting l depth, applyRetracting l depth⟩ := by
  induction depth with
  | zero =>
    have htooDeep : ∀ {objects : List Value}, Retraces objects Value.Among (throw .tooDeep)
        (throw .tooDeep) := fun _ _ hs => .of_error hs trivial
    exact ⟨fun _ _ => htooDeep, fun _ _ _ => htooDeep⟩
  | succ depth ih =>
    exact ⟨fun scope hx => retraces_evaluateStep l ih hx scope,
      fun scope hf hargs => retraces_applyStep l ih hf hargs scope⟩

end Lisp
