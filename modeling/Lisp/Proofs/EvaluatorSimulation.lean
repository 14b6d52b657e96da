/-
# Evaluations that correspond

The evaluator treats values that correspond alike (`simulates_belowAt`): from stores that correspond
it ends with results that correspond, or with faults of one kind in the same words, and it prints
the same.  The second run may be nested more deeply than the first.  So a run that ended ends in
the same way at every greater depth; and a run that is compared with itself changes no frame but
those that it was given and those that it made.

The evaluator is not recursive but in its depth.  Each special form, evaluating a form and applying
a value are looked at once, for any way of evaluating and applying one level further down that
treats values alike (`Below.Simulates`); the depth is all that the induction is on.
-/
import Lisp.Proofs.MacroSimulation

namespace Lisp

open Effect

variable {c : Correspondence} {scope : Scope}

/-! ## 1. Calls of host functions -/

/-- **A host function sees the same of arguments that correspond**, and so does the same. -/
theorem simulates_callHost (l : Language) (name : String) {args args' : Value}
    (hargs : List.Forall₂ (Value.Corresponds c) args.elements args'.elements) :
    Simulates c Value.Corresponds (callHost l name args) (callHost l name args') := by
  have hsame : args.elements.map HostValue.ofValue = args'.elements.map HostValue.ofValue := by
    rw [← List.forall₂_eq_eq_eq, List.forall₂_map_left_iff, List.forall₂_map_right_iff]
    exact hargs.imp fun _ _ h => h.ofValue_eq
  unfold callHost
  split
  · exact simulates_fail (.refl _)
  · next f _ =>
    rw [hsame]
    refine (simulates_record _ _).bind fun c₁ hc₁ _ _ _ => ?_
    refine (simulates_print _).bind fun c₂ hc₂ _ _ _ => ?_
    split
    · exact simulates_fail (.refl _)
    · exact simulates_ofHost _

/-! ## 2. Procedures -/

theorem simulates_newProcedure {spec spec' body body' : Value} (hspec : spec.Corresponds c spec')
    (hbody : body.Corresponds c body') (hscope : scope.Within c.frames) :
    Simulates c Value.Corresponds (newProcedure spec body scope)
      (newProcedure spec' body' scope) := by
  refine simulates_ofExcept_bind (hspec.checkProcedure hbody) fun _ _ _ => ?_
  exact simulates_allocate fun c₁ hc₁ _ _ hij =>
    .procedure hij (hspec.mono hc₁) (hbody.mono hc₁) (hscope.mono hc₁)

namespace Parameters

/-- **What is left of the arguments** corresponds, or as many were missing. -/
abbrev LeftCorresponds (c : Correspondence) :
    Except Nat (List Value) → Except Nat (List Value) → Prop :=
  ResultsCorrespond (· = ·) (List.Forall₂ (Value.Corresponds c))

theorem simulates_bindFixed {frame : Nat} (hframe : frame ∈ c.frames) (names : List String)
    {args args' : List Value} (hargs : List.Forall₂ (Value.Corresponds c) args args')
    (given : Nat) :
    Simulates c LeftCorresponds (bindFixed frame names args given)
      (bindFixed frame names args' given) := by
  induction names generalizing c args args' given with
  | nil => exact simulates_pure (.ok hargs)
  | cons name names ih =>
    cases hargs with
    | nil => exact simulates_pure (.error rfl)
    | cons harg hargs =>
      refine (simulates_bind hframe harg name).bind fun c₁ hc₁ _ _ _ => ?_
      exact ih (Correspondence.frames_mono hc₁ hframe) (Value.Corresponds.mono_all hargs hc₁) _

/-- **Parameters are bound to arguments that correspond**, or their number is wrong on both
sides. -/
theorem simulates_bindArguments (p : Parameters) {spec spec' : Value}
    (hspec : spec.Corresponds c spec') {frame : Nat} (hframe : frame ∈ c.frames)
    {args args' : Value}
    (hargs : List.Forall₂ (Value.Corresponds c) args.elements args'.elements)
    (hlength : args.length? = args'.length?) :
    Simulates c (fun _ _ _ => True) (p.bindArguments spec frame args)
      (p.bindArguments spec' frame args') := by
  have wrongCount : ∀ given, (Fault.wrongCount spec p.arity given).Alike
      (.wrongCount spec' p.arity given) := fun given =>
    ⟨rfl, congrArg (_ ++ · ++ _ ++ _ ++ _ ++ _) hspec.text_eq⟩
  refine (simulates_bindFixed hframe p.fixed hargs 0).bind fun c₁ hc₁ left left' hleft => ?_
  cases hleft with
  | error hgiven =>
    subst hgiven
    exact simulates_fail (wrongCount _)
  | @ok remaining remaining' hremaining =>
    dsimp only
    cases p.rest with
    | some name =>
      refine (simulates_newList hremaining).bind fun c₂ hc₂ values values' hvalues => ?_
      refine (simulates_record _ _).bind fun c₃ hc₃ _ _ _ => ?_
      exact simulates_bind (Correspondence.frames_mono ((hc₁.trans hc₂).trans hc₃) hframe)
        (hvalues.mono hc₃) name
    | none =>
      cases hremaining with
      | nil => exact simulates_pure trivial
      | cons =>
        rw [hlength]
        exact simulates_fail (wrongCount _)

end Parameters

/-! ## 3. One level further down -/

/-- **Two ways of evaluating and applying one level further down** treat values alike. -/
structure Below.Simulates (b b' : Below) : Prop where
  evaluate : ∀ {c : Correspondence} {scope : Scope} {x x' : Value}, x.Corresponds c x' →
    scope.Within c.frames →
      Effect.Simulates c Value.Corresponds (b.evaluate x scope) (b'.evaluate x' scope)
  apply : ∀ {c : Correspondence} {scope : Scope} {f f' args args' : Value}, f.Corresponds c f' →
    args.Corresponds c args' → scope.Within c.frames →
      Effect.Simulates c Value.Corresponds (b.apply f args scope) (b'.apply f' args' scope)

variable {b b' : Below}

namespace Below.Simulates

theorem evaluateAll (h : b.Simulates b') (hscope : scope.Within c.frames) {xs xs' : List Value}
    (hxs : List.Forall₂ (Value.Corresponds c) xs xs') :
    Effect.Simulates c (fun c => List.Forall₂ (Value.Corresponds c)) (b.evaluateAll scope xs)
      (b'.evaluateAll scope xs') := by
  induction xs generalizing c xs' with
  | nil =>
    cases hxs
    exact simulates_pure .nil
  | cons x xs ih =>
    cases hxs with
    | cons hx hxs =>
      refine (h.evaluate hx hscope).bind fun c₁ hc₁ v v' hv => ?_
      refine (ih (hscope.mono hc₁) (Value.Corresponds.mono_all hxs hc₁)).bind
        fun c₂ hc₂ vs vs' hvs => ?_
      exact simulates_pure (.cons (hv.mono hc₂) hvs)

theorem sequenceFrom (h : b.Simulates b') (hscope : scope.Within c.frames) {value value' : Value}
    (hvalue : value.Corresponds c value') {forms forms' : List Value}
    (hforms : List.Forall₂ (Value.Corresponds c) forms forms') :
    Effect.Simulates c Value.Corresponds (b.sequenceFrom scope value forms)
      (b'.sequenceFrom scope value' forms') := by
  induction forms generalizing c value value' forms' with
  | nil =>
    cases hforms
    exact simulates_pure hvalue
  | cons form forms ih =>
    cases hforms with
    | cons hform hforms =>
      refine (h.evaluate hform hscope).bind fun c₁ hc₁ v v' hv => ?_
      exact ih (hscope.mono hc₁) hv (Value.Corresponds.mono_all hforms hc₁)

theorem sequence (h : b.Simulates b') (hscope : scope.Within c.frames) {body body' : Value}
    (hbody : body.Corresponds c body') :
    Effect.Simulates c Value.Corresponds (b.sequence body scope) (b'.sequence body' scope) :=
  h.sequenceFrom hscope .nil hbody.elements

end Below.Simulates

/-! ## 4. Special forms -/

namespace Perform

variable {args args' : Value}

/-- **A definition desugars alike.** -/
theorem simulates_definition (target : Value) {target' rest rest' : Value}
    (htarget : target.Corresponds c target') (hrest : rest.Corresponds c rest') :
    Simulates c (fun c => PairsCorrespond (· = ·) (Value.Corresponds c)) (definition target rest)
      (definition target' rest') := by
  induction target generalizing c target' rest rest' with
  | pair id inner parameters ih =>
    cases htarget with
    | pair _ hinner hparameters =>
      unfold definition
      refine (simulates_newAtom (c.made .lambda)).bind fun c₁ hc₁ lambda lambda' hlambda => ?_
      have hitems := List.Forall₂.cons hlambda
        (.cons (hparameters.mono hc₁) (Value.Corresponds.mono_all hrest.elements hc₁))
      refine (simulates_newList hitems).bind fun c₂ hc₂ procedure procedure' hprocedure => ?_
      refine (simulates_newList (.cons hprocedure .nil)).bind fun c₃ hc₃ rest rest' hrest => ?_
      exact ih (((hinner.mono hc₁).mono hc₂).mono hc₃) hrest
  | atom id value =>
    cases htarget with
    | atom h hatom =>
      cases value with
      | symbol name => exact simulates_pure ⟨rfl, hrest⟩
      | _ => exact simulates_fail ⟨rfl, congrArg (_ ++ ·) (Value.Corresponds.atom h hatom).text_eq⟩
  | _ =>
    have htext := htarget.text_eq
    cases htarget
    exact simulates_fail ⟨rfl, congrArg (_ ++ ·) htext⟩

section

variable (hargs : args.Corresponds c args') (hscope : scope.Within c.frames)

include hargs hscope

theorem simulates_lambda : Simulates c Value.Corresponds (lambda args scope) (lambda args' scope) :=
  simulates_ofExcept_bind (hargs.required "params") fun _ _ h =>
    simulates_newProcedure h.1 h.2 hscope

theorem simulates_conditional (hb : b.Simulates b') :
    Simulates c Value.Corresponds (conditional b args scope) (conditional b' args' scope) := by
  refine simulates_ofExcept_bind (hargs.required "condition") fun _ _ hcondition => ?_
  refine simulates_ofExcept_bind (hcondition.2.required "then_branch") fun _ _ hconsequent => ?_
  have halternative := hconsequent.2.optional
  refine simulates_ofExcept_bind halternative.2.finished fun _ _ _ => ?_
  refine (hb.evaluate hcondition.1 hscope).bind fun c₁ hc₁ value value' hvalue => ?_
  rw [hvalue.isFalse_eq]
  split
  · exact hb.evaluate (halternative.1.mono hc₁) (hscope.mono hc₁)
  · exact hb.evaluate (hconsequent.1.mono hc₁) (hscope.mono hc₁)

theorem simulates_define (hb : b.Simulates b') :
    Simulates c Value.Corresponds (define b args scope) (define b' args' scope) := by
  refine simulates_ofExcept_bind (hargs.required "target") fun p p' htarget => ?_
  refine (simulates_definition p.1 htarget.1 htarget.2).bind ?_
  rintro c₁ hc₁ ⟨name, rest⟩ ⟨_, rest'⟩ ⟨rfl, hrest⟩
  refine simulates_ofExcept_bind (hrest.single "expr") fun expr expr' hexpr => ?_
  refine (hb.evaluate hexpr (hscope.mono hc₁)).bind fun c₂ hc₂ value value' hvalue => ?_
  refine (simulates_record _ _).bind fun c₃ hc₃ _ _ _ => ?_
  have hframe := (((hscope.mono hc₁).mono hc₂).mono hc₃).frame
  refine (simulates_bind hframe (hvalue.mono hc₃) name).bind fun c₄ hc₄ _ _ _ => ?_
  exact simulates_pure ((hvalue.mono hc₃).mono hc₄)

theorem simulates_assign (hb : b.Simulates b') :
    Simulates c Value.Corresponds (assign b args scope) (assign b' args' scope) := by
  refine simulates_ofExcept_bind (hargs.double "target" "expr") ?_
  rintro ⟨target, expr⟩ ⟨target', expr'⟩ hp
  obtain ⟨htarget, hexpr⟩ : target.Corresponds c target' ∧ expr.Corresponds c expr' := hp
  dsimp only
  rw [htarget.symbol?_eq]
  split
  · exact simulates_fail ⟨rfl, congrArg (_ ++ ·) htarget.text_eq⟩
  · next name _ =>
    refine (hb.evaluate hexpr hscope).bind fun c₁ hc₁ value value' hvalue => ?_
    refine (Effect.simulates_assign (hscope.mono hc₁) hvalue name).bind fun c₂ hc₂ _ _ _ => ?_
    exact simulates_pure (hvalue.mono hc₂)

theorem simulates_textOf (hb : b.Simulates b') :
    Simulates c Value.Corresponds (textOf b args scope) (textOf b' args' scope) := by
  refine simulates_ofExcept_bind (hargs.single "expr") fun expr expr' hexpr => ?_
  refine (hb.evaluate hexpr hscope).bind fun c₁ hc₁ value value' hvalue => ?_
  rw [hvalue.text_eq]
  exact simulates_newAtom (c₁.made (.string _))

theorem simulates_defineSyntax :
    Simulates c Value.Corresponds (defineSyntax args scope) (defineSyntax args' scope) := by
  refine simulates_ofExcept_bind (hargs.double "name" "rules") ?_
  rintro ⟨name, rules⟩ ⟨name', rules'⟩ hp
  obtain ⟨hname, hrules⟩ : name.Corresponds c name' ∧ rules.Corresponds c rules' := hp
  have noTransformer : (Fault.noTransformer rules).Alike (.noTransformer rules') :=
    ⟨rfl, congrArg (_ ++ ·) hrules.text_eq⟩
  dsimp only
  rw [hname.symbol?_eq]
  split
  · exact simulates_fail ⟨rfl, congrArg (_ ++ ·) hname.text_eq⟩
  · next keyword _ =>
    cases hrules with
    | pair _ hhead hbody =>
      dsimp only
      rw [hhead.isSymbolNamed_eq]
      split
      · refine (simulates_newTransformer hbody hscope).bind fun c₁ hc₁ value value' hvalue => ?_
        refine (simulates_record _ _).bind fun c₂ hc₂ _ _ _ => ?_
        have hframe := ((hscope.mono hc₁).mono hc₂).frame
        refine (simulates_bind hframe (hvalue.mono hc₂) keyword).bind fun c₃ hc₃ _ _ _ => ?_
        exact simulates_pure ((hvalue.mono hc₂).mono hc₃)
      · exact simulates_fail noTransformer
    | _ => exact simulates_fail noTransformer

theorem simulates_hostCall (l : Language) (hb : b.Simulates b') :
    Simulates c Value.Corresponds (hostCall l b args scope) (hostCall l b' args' scope) := by
  refine simulates_ofExcept_bind (hargs.required "name") fun p p' hp => ?_
  refine (hb.evaluate hp.1 hscope).bind fun c₁ hc₁ nameValue nameValue' hname => ?_
  refine simulates_ofExcept_bind hname.hostName ?_
  rintro name _ rfl
  have hrest := Value.Corresponds.mono_all hp.2.elements hc₁
  refine (hb.evaluateAll (hscope.mono hc₁) hrest).bind fun c₂ hc₂ values values' hvalues => ?_
  refine (simulates_newList hvalues).bind fun c₃ hc₃ list list' hlist => ?_
  exact simulates_callHost l name hlist.elements

theorem simulates_hostReference (hb : b.Simulates b') :
    Simulates c Value.Corresponds (hostReference b args scope) (hostReference b' args' scope) := by
  refine simulates_ofExcept_bind (hargs.single "name") fun nameExpr nameExpr' hexpr => ?_
  refine (hb.evaluate hexpr hscope).bind fun c₁ hc₁ nameValue nameValue' hname => ?_
  refine simulates_ofExcept_bind hname.hostName ?_
  rintro name _ rfl
  exact simulates_allocate fun _ _ _ _ hij => .hostMarker hij

theorem simulates_cons (hb : b.Simulates b') :
    Simulates c Value.Corresponds (cons b args scope) (cons b' args' scope) := by
  refine simulates_ofExcept_bind (hargs.double "car" "cdr") fun p p' hp => ?_
  refine (hb.evaluate hp.1 hscope).bind fun c₁ hc₁ head head' hhead => ?_
  refine (hb.evaluate (hp.2.mono hc₁) (hscope.mono hc₁)).bind fun c₂ hc₂ tail tail' htail => ?_
  exact simulates_newPair (hhead.mono hc₂) htail

theorem simulates_extract (hb : b.Simulates b') {part : Value → Except Fault Value}
    (hpart : ∀ {c : Correspondence} {v w : Value}, v.Corresponds c w →
      ResultsCorrespond Fault.Alike (Value.Corresponds c) (part v) (part w)) :
    Simulates c Value.Corresponds (extract b part args scope) (extract b' part args' scope) := by
  refine simulates_ofExcept_bind (hargs.single "list") fun expr expr' hexpr => ?_
  refine (hb.evaluate hexpr hscope).bind fun c₁ hc₁ value value' hvalue => ?_
  exact (simulates_ofExcept (hpart hvalue)).inside value value'

theorem simulates_isNil (hb : b.Simulates b') :
    Simulates c Value.Corresponds (isNil b args scope) (isNil b' args' scope) := by
  refine simulates_ofExcept_bind (hargs.single "arg") fun expr expr' hexpr => ?_
  refine (hb.evaluate hexpr hscope).bind fun c₁ hc₁ value value' hvalue => ?_
  rw [hvalue.isNil_eq]
  exact simulates_newAtom (c₁.made (.boolean _))

theorem simulates_applyTo (hb : b.Simulates b') :
    Simulates c Value.Corresponds (applyTo b args scope) (applyTo b' args' scope) := by
  refine simulates_ofExcept_bind (hargs.double "func" "list") fun p p' hp => ?_
  refine (hb.evaluate hp.1 hscope).bind fun c₁ hc₁ callable callable' hcallable => ?_
  refine (hb.evaluate (hp.2.mono hc₁) (hscope.mono hc₁)).bind fun c₂ hc₂ list list' hlist => ?_
  rw [hlist.isList_eq]
  split
  · exact hb.apply (hcallable.mono hc₂) hlist ((hscope.mono hc₁).mono hc₂)
  · exact simulates_fail ⟨rfl, congrArg (_ ++ ·) hlist.text_eq⟩

theorem simulates_guarded (hb : b.Simulates b') :
    Simulates c Value.Corresponds (guarded b args scope) (guarded b' args' scope) := by
  refine ((simulates_ofExcept hargs.head).inside args args').bind fun c₁ hc₁ test test' htest => ?_
  refine (hb.evaluate htest (hscope.mono hc₁)).bind fun c₂ hc₂ value value' hvalue => ?_
  rw [hvalue.isFalse_eq]
  split
  · exact simulates_pure .nil
  · refine ((simulates_ofExcept (hargs.mono (hc₁.trans hc₂)).tail).inside args args').bind
      fun c₃ hc₃ body body' hbody => ?_
    exact hb.sequence (((hscope.mono hc₁).mono hc₂).mono hc₃) hbody

end

end Perform

/-- **Every special form treats values that correspond alike.** -/
theorem simulates_perform (l : Language) (hb : b.Simulates b') (form : SpecialForm)
    {args args' : Value} (hargs : args.Corresponds c args') (hscope : scope.Within c.frames) :
    Simulates c Value.Corresponds (form.perform l b args scope)
      (form.perform l b' args' scope) := by
  cases form with
  | lambda => exact Perform.simulates_lambda hargs hscope
  | conditional => exact Perform.simulates_conditional hargs hscope hb
  | define => exact Perform.simulates_define hargs hscope hb
  | assign => exact Perform.simulates_assign hargs hscope hb
  | quote => exact simulates_ofExcept (hargs.single "datum")
  | textOf => exact Perform.simulates_textOf hargs hscope hb
  | defineSyntax => exact Perform.simulates_defineSyntax hargs hscope
  | callHost => exact Perform.simulates_hostCall hargs hscope l hb
  | hostReference => exact Perform.simulates_hostReference hargs hscope hb
  | cons => exact Perform.simulates_cons hargs hscope hb
  | head => exact Perform.simulates_extract hargs hscope hb Value.Corresponds.head
  | tail => exact Perform.simulates_extract hargs hscope hb Value.Corresponds.tail
  | isNil => exact Perform.simulates_isNil hargs hscope hb
  | apply => exact Perform.simulates_applyTo hargs hscope hb
  | guarded => exact Perform.simulates_guarded hargs hscope hb

/-! ## 5. Evaluating and applying -/

theorem simulates_evaluateArguments (hb : b.Simulates b') {args args' : Value}
    (hargs : args.Corresponds c args') (hscope : scope.Within c.frames) :
    Simulates c Value.Corresponds (evaluateArguments b args scope)
      (evaluateArguments b' args' scope) := by
  unfold evaluateArguments
  rw [hargs.isList_eq]
  split
  · refine (hb.evaluateAll hscope hargs.elements).bind fun c₁ hc₁ values values' hvalues => ?_
    exact simulates_newList hvalues
  · exact simulates_fail ⟨rfl, congrArg (_ ++ ·) hargs.text_eq⟩

theorem simulates_evaluateForm (l : Language) (hb : b.Simulates b') {head head' args args' : Value}
    (hhead : head.Corresponds c head') (hargs : args.Corresponds c args')
    (hscope : scope.Within c.frames) :
    Simulates c Value.Corresponds (evaluateForm l b head args scope)
      (evaluateForm l b' head' args' scope) := by
  unfold evaluateForm Language.reserved?
  rw [hhead.symbol?_eq]
  split
  · exact simulates_perform l hb _ hargs hscope
  · refine (hb.evaluate hhead hscope).bind fun c₁ hc₁ value value' hvalue => ?_
    refine simulates_ofExcept_bind (hvalue.callable l) fun callable callable' hcallable => ?_
    cases hcallable with
    | special form => exact simulates_perform l hb form (hargs.mono hc₁) (hscope.mono hc₁)
    | transformer hrules hhome =>
      refine (simulates_expand hrules hhome (hargs.mono hc₁)).bind
        fun c₂ hc₂ expansion expansion' hexpansion => ?_
      exact hb.evaluate hexpansion ((hscope.mono hc₁).mono hc₂)
    | procedure | host =>
      refine (simulates_evaluateArguments hb (hargs.mono hc₁) (hscope.mono hc₁)).bind
        fun c₂ hc₂ values values' hvalues => ?_
      exact hb.apply (hvalue.mono hc₂) hvalues ((hscope.mono hc₁).mono hc₂)

theorem simulates_evaluateStep (l : Language) (hb : b.Simulates b') {x x' : Value}
    (hx : x.Corresponds c x') (hscope : scope.Within c.frames) :
    Simulates c Value.Corresponds (evaluateStep l b x scope) (evaluateStep l b' x' scope) := by
  refine (simulates_record _ _).bind fun c₁ hc₁ _ _ _ => ?_
  have hx₁ := hx.mono hc₁
  have hscope₁ := hscope.mono hc₁
  cases hx₁ with
  | @atom i j value h hatom =>
    cases value with
    | symbol name => exact (simulates_lookup hscope₁ name).inside _ _
    | _ => exact simulates_pure (.atom h hatom)
  | pair _ hhead hargs => exact (simulates_evaluateForm l hb hhead hargs hscope₁).inside _ _
  | _ => exact simulates_pure (hx.mono hc₁)

/-- **A procedure is called alike** with arguments whose elements correspond. -/
theorem simulates_callProcedure (hb : b.Simulates b') {spec spec' body body' args args' : Value}
    (hspec : spec.Corresponds c spec') (hbody : body.Corresponds c body')
    (hscope : scope.Within c.frames)
    (hargs : List.Forall₂ (Value.Corresponds c) args.elements args'.elements)
    (hlength : args.length? = args'.length?) :
    Simulates c Value.Corresponds (callProcedure b spec body scope args)
      (callProcedure b' spec' body' scope args') := by
  refine simulates_ofExcept_bind hspec.ofSpec ?_
  rintro parameters _ rfl
  refine (simulates_enter hscope).bind ?_
  rintro c₁ hc₁ inner _ ⟨rfl, hinner⟩
  have hargs₁ := Value.Corresponds.mono_all hargs hc₁
  refine (parameters.simulates_bindArguments (hspec.mono hc₁) hinner.frame hargs₁ hlength).bind
    fun c₂ hc₂ _ _ _ => ?_
  rw [hbody.isNil_eq]
  split
  · exact simulates_fail ⟨rfl, congrArg (_ ++ · ++ _) hspec.text_eq⟩
  · exact hb.sequence (hinner.mono hc₂) ((hbody.mono hc₁).mono hc₂)

theorem Callable.exists_of_transformer {l : Language} {v rules : Value} {home : Scope}
    (h : Callable.ofValue l v = .ok (.transformer rules home)) :
    ∃ id, v = .transformer id rules home := by
  unfold Callable.ofValue at h
  split at h
  · split at h <;> cases h
  · cases h
    exact ⟨_, rfl⟩
  all_goals cases h

/-- **A value is applied alike to lists whose elements correspond**, unless it is a macro, which
is given the list itself. -/
theorem simulates_applyStep_elements (l : Language) (hb : b.Simulates b')
    {f f' args args' : Value} (hf : f.Corresponds c f')
    (hno : ∀ id rules home, f ≠ .transformer id rules home)
    (hargs : List.Forall₂ (Value.Corresponds c) args.elements args'.elements)
    (hlength : args.length? = args'.length?) (hscope : scope.Within c.frames) :
    Simulates c Value.Corresponds (applyStep l b f args scope) (applyStep l b' f' args' scope) := by
  refine (simulates_record _ _).bind fun c₁ hc₁ _ _ _ => ?_
  have hargs₁ := Value.Corresponds.mono_all hargs hc₁
  rcases ((hf.mono hc₁).callable l).cases with
    ⟨callable, callable', heq, heq', hcallable⟩ | ⟨fault, fault', heq, heq', hfault⟩
  · rw [heq, heq']
    change Simulates c₁ Value.Corresponds (pure callable >>= _) (pure callable' >>= _)
    rw [pure_bind, pure_bind]
    cases hcallable with
    | procedure hspec hbody hhome =>
      exact simulates_callProcedure hb hspec hbody hhome hargs₁ hlength
    | host name => exact simulates_callHost l name hargs₁
    | special form =>
      refine (simulates_newQuotes hargs₁).bind fun c₂ hc₂ quotes quotes' hquotes => ?_
      refine (simulates_newList hquotes).bind fun c₃ hc₃ quoted quoted' hquoted => ?_
      exact simulates_perform l hb form hquoted (((hscope.mono hc₁).mono hc₂).mono hc₃)
    | transformer =>
      obtain ⟨id, htransformer⟩ := Callable.exists_of_transformer heq
      exact absurd htransformer (hno _ _ _)
  · rw [heq, heq']
    exact simulates_fail hfault

theorem simulates_applyStep (l : Language) (hb : b.Simulates b') {f f' args args' : Value}
    (hf : f.Corresponds c f') (hargs : args.Corresponds c args') (hscope : scope.Within c.frames) :
    Simulates c Value.Corresponds (applyStep l b f args scope) (applyStep l b' f' args' scope) := by
  by_cases htransformer : ∃ id rules home, f = .transformer id rules home
  · obtain ⟨id, rules, home, rfl⟩ := htransformer
    cases hf with
    | transformer _ hrules hhome =>
      refine (simulates_record _ _).bind fun c₁ hc₁ _ _ _ => ?_
      refine (simulates_expand (hrules.mono hc₁) (hhome.mono hc₁) (hargs.mono hc₁)).bind
        fun c₂ hc₂ expansion expansion' hexpansion => ?_
      exact hb.evaluate hexpansion ((hscope.mono hc₁).mono hc₂)
  · have hno : ∀ id rules home, f ≠ .transformer id rules home := fun id rules home heq =>
      htransformer ⟨id, rules, home, heq⟩
    exact simulates_applyStep_elements l hb hf hno hargs.elements hargs.length?_eq hscope

/-- **Evaluation and application treat values that correspond alike**, at a depth and at every
greater one. -/
theorem simulates_belowAt (l : Language) {depth depth' : Nat} (h : depth ≤ depth') :
    (belowAt l depth).Simulates (belowAt l depth') := by
  induction depth generalizing depth' with
  | zero => exact ⟨fun _ _ _ _ _ => .tooDeep, fun _ _ _ _ _ _ => .tooDeep⟩
  | succ depth ih =>
    cases depth' with
    | zero => omega
    | succ depth' =>
      have hbelow := ih (Nat.le_of_succ_le_succ h)
      exact ⟨fun hx hscope => simulates_evaluateStep l hbelow hx hscope,
        fun hf hargs hscope => simulates_applyStep l hbelow hf hargs hscope⟩

end Lisp
