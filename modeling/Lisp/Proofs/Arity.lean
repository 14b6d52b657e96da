/-
# How many arguments a failed call reports

A call whose number of arguments is not accepted fails before the body is looked at, and says how
many there were.  It counts them in one of two ways.

* **Too few.**  The names are served until the arguments run out, and as many as were served are
  reported.  These are the elements of the chain, whatever ends it.
* **Too many.**  The length of the list is reported.  A chain that is no proper list has none, and
  then the report is 0 (`Parameters.reported`).

So the number is right but for a chain with too many elements that is no proper list, and where no
argument is expected at all, `(1 . 2)` is refused with the words that 0 were expected and 0 given
(`arity_failure_reports_zero`).

Failures of arity may also come from calls in the body.  Those can be told apart: every failure of
an evaluation is noted inside of a form, while that of the call itself is noted inside of none.
-/
import Lisp.Proofs.ParameterBinding

namespace Lisp

variable {b : Below} {spec body args : Value} {p : Parameters} {s s₁ : Store} {failure : Failure}

/-! ## 1. Failures inside of forms -/

theorem Failure.trace_inside_ne_nil (failure : Failure) (form : Value) :
    (failure.inside form).trace ≠ [] := by
  obtain ⟨fault, trace⟩ := failure
  cases trace with
  | nil => simp [Failure.inside]
  | cons last trace =>
    simp only [Failure.inside]
    split <;> simp

theorem Effect.trace_ne_nil_of_inside {α : Type} {effect : Effect α} {form : Value}
    (h : Effect.inside form effect s = .error (.failed failure) s₁) : failure.trace ≠ [] := by
  simp only [Effect.inside, EStateM.adaptExcept] at h
  split at h
  · next stop _ _ =>
    cases stop with
    | failed inner =>
      cases h
      exact inner.trace_inside_ne_nil form
    | tooDeep => cases h
  · cases h

/-- **Every failure of an evaluation was noted inside of a form.** -/
theorem trace_ne_nil_of_evaluate {l : Language} {depth : Nat} {x : Value} {scope : Scope}
    (h : evaluate l depth x scope s = .error (.failed failure) s₁) : failure.trace ≠ [] := by
  cases depth with
  | zero => cases h
  | succ depth =>
    cases x with
    | atom i value =>
      cases value with
      | symbol name => exact Effect.trace_ne_nil_of_inside h
      | _ => cases h
    | pair i head tail => exact Effect.trace_ne_nil_of_inside h
    | _ => cases h

/-- A failure of a sequence is that of one of its forms. -/
theorem Below.trace_ne_nil_of_sequenceFrom
    (hb : ∀ {x scope s failure s₁}, b.evaluate x scope s = .error (.failed failure) s₁ →
      failure.trace ≠ [])
    {forms : List Value} {value : Value} {scope : Scope}
    (h : b.sequenceFrom scope value forms s = .error (.failed failure) s₁) :
    failure.trace ≠ [] := by
  induction forms generalizing value s with
  | nil => cases h
  | cons form forms ih =>
    cases hform : b.evaluate form scope s with
    | ok w s₂ =>
      rw [sequenceFrom, Effect.bind_of_ok hform] at h
      exact ih h
    | error stop s₂ =>
      rw [sequenceFrom, Effect.bind_of_error hform] at h
      cases h
      exact hb hform

/-! ## 2. Calls -/

theorem callProcedure_eq (b : Below) (hp : Parameters.ofSpec spec = .ok p) (body : Value)
    (home : Scope) (args : Value) (s : Store) :
    callProcedure b spec body home args s =
      (p.bindArguments spec (s.enter home).1.frame args >>= fun _ =>
        if body.isNil then Effect.fail (.emptyBody spec)
        else b.sequence body (s.enter home).1) (s.enter home).2 := by
  rw [callProcedure, hp]
  rfl

/-- **A call whose number of arguments is not accepted** fails before the body is looked at. -/
theorem callProcedure_of_not_accepts (b : Below) (hp : Parameters.ofSpec spec = .ok p)
    (h : ¬ p.arity.Accepts args.elements.length) (body : Value) (home : Scope) (s : Store) :
    ∃ s₁, callProcedure b spec body home args s =
      .error (.failed ⟨.wrongCount spec p.arity (p.reported args), []⟩) s₁ := by
  rw [callProcedure_eq b hp]
  exact ⟨_, Effect.bind_of_error (p.bindArguments_of_not_accepts h spec _ _) _⟩

/-- **A call whose number of arguments is accepted** can only fail for its arity inside of a form
of the body. -/
theorem trace_ne_nil_of_callProcedure
    (hb : ∀ {x scope s failure s₁}, b.evaluate x scope s = .error (.failed failure) s₁ →
      failure.trace ≠ [])
    (hp : Parameters.ofSpec spec = .ok p) (haccepts : p.arity.Accepts args.elements.length)
    {home : Scope} (h : callProcedure b spec body home args s = .error (.failed failure) s₁)
    (hkind : failure.fault.kind = .arityError) : failure.trace ≠ [] := by
  obtain ⟨_, s₂, _, _, hrun, _⟩ :=
    p.bindArguments_of_accepts haccepts spec (s.enter home).1.frame (s.enter home).2
  rw [callProcedure_eq b hp, Effect.bind_of_ok hrun] at h
  split at h
  · cases h
    cases hkind
  · exact Below.trace_ne_nil_of_sequenceFrom hb h

namespace Parameters

theorem reported_eq (h : args.isList = true ∨ args.elements.length ≤ p.fixed.length) :
    p.reported args = args.elements.length :=
  if_pos h

/-- **What is reported is accepted in one case only**: that 0 are given where 0 are expected. -/
theorem accepts_reported_iff (h : ¬ p.arity.Accepts args.elements.length) :
    p.arity.Accepts (p.reported args) ↔ args.isList = false ∧ p.fixed = [] := by
  by_cases hright : args.isList = true ∨ args.elements.length ≤ p.fixed.length
  · rw [reported_eq hright]
    refine iff_of_false h fun hzero => h ?_
    have hnone : args.elements.length = 0 := by simpa [hzero] using hright
    simp [Arity.Accepts, arity, hnone, hzero.2]
  · have hlist : args.isList = false := Bool.eq_false_iff.mpr fun hlist => hright (.inl hlist)
    have hmore : p.rest.isSome = false := by
      by_contra hmore
      have hge : p.fixed.length ≤ args.elements.length := by
        simp only [not_or, not_le] at hright
        exact Nat.le_of_lt hright.2
      exact h (by simpa [Arity.Accepts, arity, hmore] using hge)
    rw [reported, if_neg hright]
    simp [Arity.Accepts, arity, hmore, hlist, eq_comm]

end Parameters

/-- **What a failure of arity reports.**  A call fails with one exactly if the number of its
arguments is not accepted, be it that they are bound or that the procedure is applied; any other
failure of arity under an application was noted inside of a form.  The number that is reported is
that of the elements of the chain, unless these are too many and the chain is no proper list, and
it is not accepted, unless moreover no argument is expected. -/
theorem arity_failure_reports (hp : Parameters.ofSpec spec = .ok p) (args : Value) :
    (∀ (frame : Nat) (s : Store),
      p.arity.Accepts args.elements.length ∧
          (∃ s₁, p.bindArguments spec frame args s = .ok () s₁) ∨
        ¬ p.arity.Accepts args.elements.length ∧
          ∃ s₁, p.bindArguments spec frame args s =
            .error (.failed ⟨.wrongCount spec p.arity (p.reported args), []⟩) s₁) ∧
    (∀ (l : Language) (depth id : Nat) (body : Value) (home scope : Scope) (s : Store),
      (¬ p.arity.Accepts args.elements.length →
        ∃ s₁, apply l (depth + 1) (.procedure id spec body home) args scope s =
          .error (.failed ⟨.wrongCount spec p.arity (p.reported args), []⟩) s₁) ∧
      (p.arity.Accepts args.elements.length → ∀ failure s₁,
        apply l (depth + 1) (.procedure id spec body home) args scope s =
            .error (.failed failure) s₁ →
          failure.fault.kind = .arityError → failure.trace ≠ [])) ∧
    (args.isList = true ∨ args.elements.length ≤ p.fixed.length →
      p.reported args = args.elements.length) ∧
    (¬ p.arity.Accepts args.elements.length →
      (p.arity.Accepts (p.reported args) ↔ args.isList = false ∧ p.fixed = [])) := by
  refine ⟨fun frame s => ?_, fun l depth id body home scope s => ⟨fun h => ?_, fun h => ?_⟩,
    Parameters.reported_eq, Parameters.accepts_reported_iff⟩
  · by_cases h : p.arity.Accepts args.elements.length
    · obtain ⟨_, s₁, _, _, hrun, _⟩ := p.bindArguments_of_accepts h spec frame s
      exact .inl ⟨h, s₁, hrun⟩
    · exact .inr ⟨h, _, p.bindArguments_of_not_accepts h spec frame s⟩
  · exact callProcedure_of_not_accepts _ hp h body home _
  · intro failure s₁ hrun hkind
    exact trace_ne_nil_of_callProcedure (b := ⟨evaluate l depth, Lisp.apply l depth⟩)
      trace_ne_nil_of_evaluate hp h hrun hkind

/-- Three arguments for `(a b)` are reported as 3. -/
theorem arity_failure_reports_three :
    let spec : Value := .pair 0 (.atom 1 (.symbol "a")) (.pair 2 (.atom 3 (.symbol "b")) .nil)
    let args : Value := .pair 4 .nil (.pair 5 .nil (.pair 6 .nil .nil))
    let s : Store := ⟨#[], #[[]], "", []⟩
    Parameters.ofSpec spec = .ok ⟨["a", "b"], none⟩ ∧ ¬ Arity.Accepts ⟨2, false⟩ 3 ∧
      ∃ s₁, apply .standard 1 (.procedure 7 spec .nil (.ofRoot 0)) args (.ofRoot 0) s =
        .error (.failed ⟨.wrongCount spec ⟨2, false⟩ 3, []⟩) s₁ := by
  intro spec args s
  have hp : Parameters.ofSpec spec = .ok ⟨["a", "b"], none⟩ := rfl
  have hrefused : ¬ Arity.Accepts ⟨2, false⟩ 3 := by decide
  obtain ⟨_, happly, _, _⟩ := arity_failure_reports hp args
  exact ⟨hp, hrefused, (happly .standard 0 7 .nil (.ofRoot 0) (.ofRoot 0) s).1 hrefused⟩

/-- **A procedure without parameters refuses `(1 . 2)` for 0 arguments**, although there is one and
0 is what it expects. -/
theorem arity_failure_reports_zero :
    let args : Value := .pair 0 (.atom 1 (.integer 1)) (.atom 2 (.integer 2))
    let s : Store := ⟨#[none, none, none], #[[]], "", []⟩
    args.elements.length = 1 ∧ Arity.Accepts ⟨0, false⟩ 0 ∧
      ∃ fault s₁, apply .standard 1 (.procedure 3 .nil .nil (.ofRoot 0)) args (.ofRoot 0) s =
          .error (.failed ⟨fault, []⟩) s₁ ∧ fault = .wrongCount .nil ⟨0, false⟩ 0 ∧
        fault.message = "procedure () expects 0 arguments, got 0" := by
  intro args s
  exact ⟨rfl, by decide, _, _, rfl, rfl, by decide +kernel⟩

end Lisp
