/-
# Calls of host functions

A host function can be called by its name, `(host-func expr . args)`, or by a reference to it,
`((host-ref expr) . args)`.  The first does everything in one special form; the second comes to a
marker, which is applied as any value is, with the checks and the report that go with this.  Both
read the name (`readName`), evaluate the arguments and call the function (`callReported`), and all
that the second does besides is to make one object and to note the application.  So they end alike
(`host_call_runsAlike_reference`) where the arguments are a proper list.

Only the second looks at what ends the chain of its arguments, and refuses all but a proper list
(`referenceCall_refused`).  A call by name acts, whatever ends the chain, as the call by reference
on the proper list of the same arguments; with another end the two differ
(`host_call_ignores_ending`).
-/
import Lisp.Proofs.Definitions
import Lisp.Proofs.References

namespace Lisp

open Correspondence (below)
open Effect

variable {l : Language} {c : Correspondence} {s s₁ s₂ t t' : Store} {scope : Scope}
  {b b' : Below} {name : String} {expr args args' : Value}

/-! ## 1. The name, and the call -/

/-- **The name that an expression gives.** -/
def readName (b : Below) (expr : Value) (scope : Scope) : Effect String := do
  let value ← b.evaluate expr scope
  ofExcept (hostName value)

/-- **Evaluates arguments and calls a host function**, after a report on its arguments. -/
def callReported (l : Language) (b : Below) (report : Value → Effect Unit) (name : String)
    (args : Value) (scope : Scope) : Effect Value := do
  let values ← b.evaluateAll scope args.elements
  let values ← newList values
  report values
  callHost l name values

/-- **Evaluates arguments and calls a host function** without a report. -/
def callNamed (l : Language) (b : Below) (name : String) (args : Value) (scope : Scope) :
    Effect Value :=
  callReported l b (fun _ => pure ()) name args scope

/-- **Makes a marker, evaluates arguments and applies the marker to them.** -/
def callMarked (l : Language) (b : Below) (name : String) (args : Value) (scope : Scope) :
    Effect Value := do
  let marker ← modifyGet (·.allocate (.hostMarker · name) none)
  callReported l b (fun values => record (.applying marker values)) name args scope

theorem hostCall_eq (b : Below) (i : Nat) (expr args : Value) (scope : Scope) :
    Perform.hostCall l b (.pair i expr args) scope =
      (readName b expr scope >>= fun name => callNamed l b name args scope) := by
  simp only [readName, callNamed, callReported, bind_assoc, pure_bind]
  rfl

theorem hostReference_eq (b : Below) (i : Nat) (expr : Value) (scope : Scope) :
    Perform.hostReference b (.pair i expr .nil) scope =
      (readName b expr scope >>= fun name =>
        modifyGet (·.allocate (.hostMarker · name) none)) := by
  simp only [readName, bind_assoc]
  rfl

/-! ## 2. What the two forms do -/

/-- What cannot fail may as well be done afterwards. -/
theorem inside_modifyGet {α β : Type} (form : Value) (effect : Effect α)
    (f : α → Store → β × Store) :
    Effect.inside form (effect >>= fun a => modifyGet (f a)) =
      (Effect.inside form effect >>= fun a => modifyGet (f a)) := by
  funext s
  cases h : effect s with
  | ok a t =>
    have hinside : Effect.inside form effect s = .ok a t := by
      simp only [Effect.inside, EStateM.adaptExcept, h]
    rw [bind_of_ok hinside]
    simp only [Effect.inside, EStateM.adaptExcept, bind_of_ok h]
    rfl
  | error stop t =>
    have hinside : Effect.inside form effect s = .error (stop.inside form) t := by
      simp only [Effect.inside, EStateM.adaptExcept, h]
    rw [bind_of_error hinside]
    simp only [Effect.inside, EStateM.adaptExcept, bind_of_error h]

namespace Value

/-- **The form `(host-func expr . args)`.** -/
def IsHostCall (form expr args : Value) : Prop :=
  ∃ i j k, form = .pair i (.atom j (.symbol "host-func")) (.pair k expr args)

/-- **The form `(host-ref expr)`.** -/
def IsReference (form expr : Value) : Prop :=
  ∃ i j k, form = .pair i (.atom j (.symbol "host-ref")) (.pair k expr .nil)

/-- **The form `((host-ref expr) . args)`.** -/
def IsReferenceCall (form expr args : Value) : Prop :=
  ∃ i reference, reference.IsReference expr ∧ form = .pair i reference args

end Value

/-- **A call by name** reads the name and calls the function. -/
theorem evaluate_hostCall {form : Value} (hcall : l.form? "host-func" = some .callHost)
    (hform : form.IsHostCall expr args) (depth : Nat) (scope : Scope) (s : Store) :
    evaluate l (depth + 1) form scope s =
      Effect.inside form (readName (belowAt l depth) expr scope >>= fun name =>
        callNamed l (belowAt l depth) name args scope) (s.record (.evaluating form)) := by
  obtain ⟨i, j, k, rfl⟩ := hform
  have hreserved : l.reserved? (.atom j (.symbol "host-func")) = some .callHost := hcall
  rw [evaluate_reserved hreserved]
  exact inside_congr (congrFun (hostCall_eq _ k expr args scope) _) _

/-- **A reference** reads the name and makes a marker for it. -/
theorem evaluate_reference {form : Value} (href : l.form? "host-ref" = some .hostReference)
    (hform : form.IsReference expr) (depth : Nat) (scope : Scope) (s : Store) :
    evaluate l (depth + 1) form scope s =
      (Effect.inside form (readName (belowAt l depth) expr scope) >>= fun name =>
        modifyGet (·.allocate (.hostMarker · name) none)) (s.record (.evaluating form)) := by
  obtain ⟨i, j, k, rfl⟩ := hform
  have hreserved : l.reserved? (.atom j (.symbol "host-ref")) = some .hostReference := href
  rw [evaluate_reserved hreserved, ← inside_modifyGet]
  exact inside_congr (congrFun (hostReference_eq _ k expr scope) _) _

/-- **A call by reference** reads the name, makes a marker, evaluates the arguments and applies the
marker to them. -/
theorem evaluate_referenceCall {form reference : Value} {i : Nat}
    (href : l.form? "host-ref" = some .hostReference) (hreference : reference.IsReference expr)
    (hform : form = .pair i reference args) (depth : Nat) (scope : Scope) (s : Store) :
    evaluate l (depth + 2) form scope s =
      Effect.inside form
        (Effect.inside reference (readName (belowAt l depth) expr scope) >>= fun name => do
          let marker ← modifyGet (·.allocate (.hostMarker · name) none)
          let values ← evaluateArguments (belowAt l (depth + 1)) args scope
          apply l (depth + 1) marker values scope)
        ((s.record (.evaluating form)).record (.evaluating reference)) := by
  have hhead := evaluate_reference href hreference depth scope (s.record (.evaluating form))
  have hrun : evaluate l (depth + 2) form scope s =
      Effect.inside form (evaluate l (depth + 1) reference scope >>= fun value =>
        evaluateCalled l (belowAt l (depth + 1)) value args scope)
        (s.record (.evaluating form)) := by
    obtain ⟨j, k, m, rfl⟩ := hreference
    rw [hform]
    rfl
  rw [hrun]
  refine inside_congr ?_ form
  rw [bind_congr_run hhead, bind_assoc]
  rfl

/-- **With a proper list of arguments** it evaluates them all and calls the function. -/
theorem evaluate_referenceCall_of_isList {form reference : Value} {i : Nat}
    (href : l.form? "host-ref" = some .hostReference) (hreference : reference.IsReference expr)
    (hform : form = .pair i reference args) (hlist : args.isList = true) (depth : Nat)
    (scope : Scope) (s : Store) :
    evaluate l (depth + 2) form scope s =
      Effect.inside form
        (Effect.inside reference (readName (belowAt l depth) expr scope) >>= fun name =>
          callMarked l (belowAt l (depth + 1)) name args scope)
        ((s.record (.evaluating form)).record (.evaluating reference)) := by
  rw [evaluate_referenceCall href hreference hform]
  simp only [evaluateArguments, if_pos hlist, callMarked, callReported, bind_assoc]
  rfl

/-- **With any other arguments** it evaluates none of them: once it has read the name, it fails. -/
theorem referenceCall_refused {form reference : Value} {i : Nat}
    (href : l.form? "host-ref" = some .hostReference) (hreference : reference.IsReference expr)
    (hform : form = .pair i reference args) (hlist : args.isList = false) {depth : Nat}
    (hread : readName (belowAt l depth) expr scope
      ((s.record (.evaluating form)).record (.evaluating reference)) = .ok name t) :
    ∃ failure t₁, evaluate l (depth + 2) form scope s = .error (.failed failure) t₁ ∧
      failure.fault = .argumentsNoList args ∧ t.Extends t₁ := by
  let made := t.allocate (.hostMarker · name) none
  have hinside : Effect.inside reference (readName (belowAt l depth) expr scope)
      ((s.record (.evaluating form)).record (.evaluating reference)) = .ok name t := by
    simp only [Effect.inside, EStateM.adaptExcept, hread]
  have hrefused : evaluateArguments (belowAt l (depth + 1)) args scope made.2 =
      .error (.failed ⟨.argumentsNoList args, []⟩) made.2 := by
    simp only [evaluateArguments, hlist]
    rfl
  have hrun : evaluate l (depth + 2) form scope s =
      Effect.inside form (evaluateArguments (belowAt l (depth + 1)) args scope >>= fun values =>
        apply l (depth + 1) made.1 values scope) made.2 := by
    rw [evaluate_referenceCall href hreference hform]
    exact inside_congr (bind_of_ok hinside _) form
  rw [hrun]
  simp only [Effect.inside, EStateM.adaptExcept, bind_of_error hrefused]
  exact ⟨_, made.2, rfl, fault_inside _ form, t.extends_allocate _ none⟩

/-! ## 3. Runs of both -/

theorem quiet_pure : Quiet (pure () : Effect Unit) :=
  fun s => ⟨(), s, rfl, ⟨rfl, rfl, rfl⟩⟩

theorem simulates_readName (hb : b.Simulates b') (hexpr : expr.Corresponds c expr)
    (hscope : scope.Within c.frames) :
    Simulates c (fun _ => (· = ·)) (readName b expr scope) (readName b' expr scope) :=
  (hb.evaluate hexpr hscope).bind fun _ _ _ _ hvalue => simulates_ofExcept hvalue.hostName

/-- **Calls of one host function** simulate one another, whatever is reported. -/
theorem simulates_callReported (hb : b.Simulates b') (hscope : scope.Within c.frames)
    (hargs : List.Forall₂ (Value.Corresponds c) args.elements args'.elements)
    {report report' : Value → Effect Unit} (hreport : ∀ v, Quiet (report v))
    (hreport' : ∀ v, Quiet (report' v)) :
    Simulates c Value.Corresponds (callReported l b report name args scope)
      (callReported l b' report' name args' scope) := by
  refine (hb.evaluateAll hscope hargs).bind fun c₁ hc₁ values values' hvalues => ?_
  refine (simulates_newList hvalues).bind fun c₂ hc₂ list list' hlist => ?_
  refine (simulates_quiet (hreport list) (hreport' list')).bind fun c₃ hc₃ _ _ _ => ?_
  exact simulates_callHost l name (Value.Corresponds.mono_all hlist.elements hc₃)

/-- **Two runs that ended with the same go on with it.** -/
theorem Store.CorrespondsIn.outcome_bind {α β γ : Type} {R : Correspondence → β → γ → Prop}
    {effect effect' : Effect α} {next : α → Effect β} {next' : α → Effect γ}
    (ht : t.CorrespondsIn (fun _ => True) c t')
    (h : Outcome c (fun _ => (· = ·)) t (effect t) (effect' t'))
    (hnext : ∀ {c₁ a t₁ t₁'}, c ≤ c₁ → t₁.CorrespondsIn (fun _ => True) c₁ t₁' →
      Outcome c₁ R t₁ (next a t₁) (next' a t₁')) :
    Outcome c R t ((effect >>= next) t) ((effect' >>= next') t') := by
  refine h.bind fun {c₁ a a' t₁ t₁'} _ _ hgrows hstores hsame => ?_
  cases hsame
  exact hnext hgrows.le (ht.after hgrows hstores trivial trivial)

section Call

variable (hb : b.Simulates b') (hexpr : expr.Corresponds c expr) (hscope : scope.Within c.frames)
  (hargs : List.Forall₂ (Value.Corresponds c) args.elements args'.elements)
  (ht : t.CorrespondsIn (fun _ => True) c t') (reference : Value)

include hb hexpr hscope hargs ht

/-- **A call by name and one by reference**: the marker is made on the right only. -/
theorem outcome_callMarked_right {b₁ : Below} (hb₁ : b.Simulates b₁) :
    Outcome c Value.Corresponds t
      ((readName b expr scope >>= fun name => callNamed l b name args scope) t)
      ((Effect.inside reference (readName b' expr scope) >>= fun name =>
        callMarked l b₁ name args' scope) t') := by
  have hread := simulates_readName hb hexpr hscope t t' ht.stores
  refine ht.outcome_bind (hread.inside_right reference) fun {c₁ name t₁ t₁'} hc ht₁ => ?_
  have hmade := t₁'.extends_allocate (.hostMarker · name) none
  exact simulates_callReported hb₁ (hscope.mono hc) (Value.Corresponds.mono_all hargs hc)
    (fun _ => quiet_pure) (fun _ => quiet_record _) t₁ _ (ht₁.symm.extends_left hmade).2.symm

/-- **A call by reference and one by name**: the marker is made on the left only. -/
theorem outcome_callMarked_left {b₁ : Below} (hb₁ : b₁.Simulates b') :
    Outcome c Value.Corresponds t
      ((Effect.inside reference (readName b expr scope) >>= fun name =>
        callMarked l b₁ name args scope) t)
      ((readName b' expr scope >>= fun name => callNamed l b' name args' scope) t') := by
  have hread := simulates_readName hb hexpr hscope t t' ht.stores
  refine ht.outcome_bind (hread.inside_left reference) fun {c₁ name t₁ t₁'} hc ht₁ => ?_
  have hmade := t₁.extends_allocate (.hostMarker · name) none
  obtain ⟨hgrows, hstores⟩ := ht₁.extends_left hmade
  exact .after hgrows (simulates_callReported hb₁ (hscope.mono hc)
    (Value.Corresponds.mono_all hargs hc) (fun _ => quiet_record _) (fun _ => quiet_pure) _ t₁'
    hstores)

end Call

/-! ## 4. Calls by name and by reference -/

/-- **A call by name ends as the call by reference does** that has the same arguments as a proper
list: with the same value or with faults of one kind in the same words, with the same in all frames
and the same output.  The name can be any expression.  If the arguments are a proper list, both
calls can have this same list. -/
theorem host_call_runsAlike_reference {call byReference : Value}
    (hcall : l.form? "host-func" = some .callHost) (href : l.form? "host-ref" = some .hostReference)
    (hform : call.IsHostCall expr args) (hform' : byReference.IsReferenceCall expr args')
    (hlist : args'.isList = true) (hsame : args'.elements = args.elements) (hs : s.Sound)
    (hexpr : expr.ExistsIn s) (hargs : args.ExistsIn s) :
    RunsAlike s (fun depth => evaluate l depth call scope s)
      fun depth => evaluate l depth byReference scope s := by
  obtain ⟨i, reference, hreference, hwhole⟩ := hform'
  have hleft := fun depth => evaluate_hostCall hcall hform depth scope s
  have hright := fun depth =>
    evaluate_referenceCall_of_isList href hreference hwhole hlist depth scope s
  let s₁ := s.record (.evaluating call)
  let s₂ := (s.record (.evaluating byReference)).record (.evaluating reference)
  have h₁ : s.Extends s₁ := s.extends_record _
  have h₂ : s.Extends s₂ := (s.extends_record _).trans (Store.extends_record _ _)
  have hlasting : Store.Lasting fun _ => True := fun _ _ _ _ => trivial
  have hboth : List.Forall₂ (Value.Corresponds (below s.spans.size Set.univ)) args.elements
      args.elements := hargs.corresponds.elements
  have hforth {depth depth' : Nat} (hle : depth ≤ depth') :
      Outcome (below s.spans.size Set.univ) Value.Corresponds s₁
        (evaluate l (depth + 1) call scope s) (evaluate l (depth' + 2) byReference scope s) := by
    rw [hleft, hright]
    refine (Outcome.inside_left ?_ call).inside_right byReference
    exact outcome_callMarked_right (simulates_belowAt l hle) hexpr.corresponds scope.within_univ
      (hsame ▸ hboth) (hs.correspondsIn_both hlasting trivial h₁ h₂) reference
      (simulates_belowAt l (hle.trans (Nat.le_succ _)))
  have hback {depth depth' : Nat} (hlt : depth' < depth) :
      Outcome (below s.spans.size Set.univ) Value.Corresponds s₂
        (evaluate l (depth' + 2) byReference scope s) (evaluate l (depth + 1) call scope s) := by
    rw [hleft, hright]
    refine (Outcome.inside_left ?_ byReference).inside_right call
    exact outcome_callMarked_left (simulates_belowAt l hlt.le) hexpr.corresponds
      scope.within_univ (hsame ▸ hboth) (hs.correspondsIn_both hlasting trivial h₂ h₁) reference
      (simulates_belowAt l hlt)
  have hzero : ¬ Ended (evaluate l 0 call scope s) := id
  have hzero' : ¬ Ended (evaluate l 0 byReference scope s) := id
  -- one level is not enough to evaluate the reference
  have hone' : ¬ Ended (evaluate l 1 byReference scope s) := by
    obtain ⟨j, k, m, rfl⟩ := hreference
    rw [hwhole]
    exact id
  exact .of_outcomes (le_refl _) hzero hzero' hone' hforth hback

/-- The expression `'+`. -/
def plusName : Value :=
  .pair 0 (.atom 1 (.symbol "quote")) (.pair 2 (.atom 3 (.symbol "+")) .nil)

/-- The form `(host-func '+ . args)`. -/
def plusCall (args : Value) : Value :=
  .pair 4 (.atom 5 (.symbol "host-func")) (.pair 6 plusName args)

/-- The form `((host-ref '+) . args)`. -/
def plusReferenceCall (args : Value) : Value :=
  .pair 7 (.pair 8 (.atom 9 (.symbol "host-ref")) (.pair 10 plusName .nil)) args

theorem isHostCall_plusCall (args : Value) : (plusCall args).IsHostCall plusName args :=
  ⟨4, 5, 6, rfl⟩

theorem isReferenceCall_plusReferenceCall (args : Value) :
    (plusReferenceCall args).IsReferenceCall plusName args :=
  ⟨7, _, ⟨8, 9, 10, rfl⟩, rfl⟩

theorem sound_emptyFrame : emptyFrame.Sound := by
  intro f entry hentry
  rcases f with _ | f <;> simp [Store.bindings, emptyFrame] at hentry

theorem existsIn_plusName : plusName.ExistsIn emptyFrame := by
  refine ⟨fun i hi => ?_, fun f hf => ?_⟩
  · simp [plusName, Value.HasObject] at hi
    simp [emptyFrame]
    omega
  · simp [plusName, Value.HasFrame] at hf

/-- Called on `(1 2)`, both give `3`. -/
theorem host_call_runsAlike_reference_plus :
    let args : Value := .pair 11 (.atom 12 (.integer 1)) (.pair 13 (.atom 14 (.integer 2)) .nil)
    RunsAlike emptyFrame
        (fun depth => evaluate .standard depth (plusCall args) (.ofRoot 0) emptyFrame)
        (fun depth => evaluate .standard depth (plusReferenceCall args) (.ofRoot 0) emptyFrame) ∧
      ((evaluate .standard 3 (plusCall args) (.ofRoot 0)).run' emptyFrame).map Value.text =
        some "3" := by
  intro args
  have hargs : args.ExistsIn emptyFrame := by
    refine ⟨fun i hi => ?_, fun f hf => ?_⟩
    · simp [args, Value.HasObject] at hi
      simp [emptyFrame]
      omega
    · simp [args, Value.HasFrame] at hf
  exact ⟨host_call_runsAlike_reference rfl rfl (isHostCall_plusCall args)
    (isReferenceCall_plusReferenceCall args) rfl rfl sound_emptyFrame existsIn_plusName hargs,
    by decide +kernel⟩

/-- **A call by name does not look at what ends its arguments.**  Called on `(1 . 2)` it gives `1`;
the call by reference fails, since that is not a proper list. -/
theorem host_call_ignores_ending :
    let args : Value := .pair 11 (.atom 12 (.integer 1)) (.atom 13 (.integer 2))
    ((evaluate .standard 3 (plusCall args) (.ofRoot 0)).run' emptyFrame).map Value.text =
        some "1" ∧
      Conclusion.faultKind?
          (evaluate .standard 4 (plusReferenceCall args) (.ofRoot 0) emptyFrame) =
        some .invalidForm ∧
      ¬ RunsAlike emptyFrame
        (fun depth => evaluate .standard depth (plusCall args) (.ofRoot 0) emptyFrame) fun depth =>
          evaluate .standard depth (plusReferenceCall args) (.ofRoot 0) emptyFrame := by
  intro args
  have hcall : Conclusion.faultKind?
      (evaluate .standard 4 (plusCall args) (.ofRoot 0) emptyFrame) = none := by decide +kernel
  have href : Conclusion.faultKind?
      (evaluate .standard 4 (plusReferenceCall args) (.ofRoot 0) emptyFrame) =
        some .invalidForm := by decide +kernel
  refine ⟨by decide +kernel, href, fun h => ?_⟩
  have hback := h.back (le_refl 4) (Conclusion.ended_of_faultKind? href)
  have hsame := hcall.symm.trans (hback.faultKind?_eq.trans href)
  cases hsame

end Lisp
