/-
# Texts as batches and as lines

A context evaluates the forms of a text as a batch (`Context.evaluateText`, `Context.loadText`) or
as an interactive line (`Context.replLine`).  What the forms come to, each in the store that the
form before it left, be it by a failure, is the trace of the text (`Context.trace`).  Both ways are
views of this one trace.

* A line goes through all of it and writes one record for each form (`Context.replForms_eq`).
* A batch ends with the first failure in it, and with its last value if there is none
  (`Context.endsBatch_evaluateData`).  But first it reads the whole text, and a text with a syntax
  error leaves the store as it was.
-/
import Lisp.Proofs.Endings

namespace Lisp

/-! ## 1. Traces -/

namespace Conclusion

/-- **Whether the run gave a value.** -/
def succeeded : Conclusion → Bool
  | .ok .. => true
  | .error .. => false

theorem exists_of_succeeded {e : Conclusion} (h : succeeded e = true) : ∃ w s, e = .ok w s := by
  cases e with
  | ok w s => exact ⟨w, s, rfl⟩
  | error => cases h

/-- **The record of a run** on an interactive line. -/
def record : Conclusion → ReplRecord
  | .ok value _ => ⟨value.text, false⟩
  | .error stop _ => ⟨stop.text, true⟩

theorem isError_record {e : Conclusion} (h : succeeded e = true) : (record e).isError = false := by
  obtain ⟨w, s, rfl⟩ := exists_of_succeeded h
  rfl

/-- **The store after a trace** that started in `s`. -/
def storeAfter (s : Store) (trace : List Conclusion) : Store :=
  (trace.getLast?.map store).getD s

theorem storeAfter_cons (s : Store) (e : Conclusion) (trace : List Conclusion) :
    storeAfter s (e :: trace) = storeAfter (store e) trace := by
  cases trace with
  | nil => rfl
  | cons next rest => simp [storeAfter, List.getLast?_cons]

/-- **How a batch ends whose forms have this trace**: with the last value where each form gave one,
`value` if there is no form, and with the first failure otherwise. -/
def EndsBatch (s : Store) (value : Value) (trace : List Conclusion) (result : Conclusion) : Prop :=
  (∀ e ∈ trace, succeeded e = true) ∧ result = trace.getLast?.getD (.ok value s) ∨
    ∃ done stop s₁ rest, trace = done ++ .error stop s₁ :: rest ∧ (∀ e ∈ done, succeeded e = true) ∧
      result = .error stop s₁

variable {s s₁ : Store} {value w : Value} {trace : List Conclusion} {result : Conclusion}

/-- **A form that gives a value** goes in front of a batch. -/
theorem EndsBatch.cons (h : EndsBatch s₁ w trace result) :
    EndsBatch s value (.ok w s₁ :: trace) result := by
  have hcons : ∀ done : List Conclusion, (∀ e ∈ done, succeeded e = true) →
      ∀ e ∈ (.ok w s₁ : Conclusion) :: done, succeeded e = true := by
    intro done hdone e he
    rcases List.mem_cons.mp he with rfl | he
    · rfl
    · exact hdone e he
  rcases h with ⟨hall, rfl⟩ | ⟨done, stop, s₂, rest, rfl, hdone, rfl⟩
  · exact .inl ⟨hcons trace hall, by simp [List.getLast?_cons]⟩
  · exact .inr ⟨.ok w s₁ :: done, stop, s₂, rest, rfl, hcons done hdone, rfl⟩

/-- **A batch ends in the store** in which one of its forms ended, or in which it started. -/
theorem EndsBatch.store_eq (h : EndsBatch s value trace result) :
    result.store = s ∨ ∃ e ∈ trace, result.store = store e := by
  rcases h with ⟨-, rfl⟩ | ⟨done, stop, s₁, rest, rfl, -, rfl⟩
  · cases hlast : trace.getLast? with
    | none => exact .inl rfl
    | some e => exact .inr ⟨e, List.mem_of_getLast? hlast, rfl⟩
  · exact .inr ⟨.error stop s₁, by simp, rfl⟩

/-- **A batch that gives a value** met no failure. -/
theorem EndsBatch.of_ok (h : EndsBatch s value trace (.ok w s₁)) :
    (∀ e ∈ trace, succeeded e = true) ∧ trace.getLast?.getD (.ok value s) = .ok w s₁ := by
  rcases h with ⟨hall, hlast⟩ | ⟨_, _, _, _, _, _, herror⟩
  · exact ⟨hall, hlast.symm⟩
  · cases herror

end Conclusion

/-! ## 2. The two ways to evaluate a text -/

namespace Context

open Conclusion (EndsBatch storeAfter succeeded)

variable (c : Context)

/-- **What one form of a text comes to.** -/
def conclude (c : Context) (s : Store) (datum : Datum) : Conclusion :=
  c.evaluateValue (s.load datum).1 (s.load datum).2

/-- **What forms come to**, each in the store that the one before it left, be it by a failure. -/
def trace (c : Context) (s : Store) : List Datum → List Conclusion
  | [] => []
  | datum :: rest => c.conclude s datum :: c.trace (c.conclude s datum).store rest

theorem length_trace (s : Store) (data : List Datum) : (c.trace s data).length = data.length := by
  induction data generalizing s with
  | nil => rfl
  | cons datum rest ih => simp [trace, ih]

/-- **A line goes through the whole trace**, one record for each form. -/
theorem replForms_eq (s : Store) (data : List Datum) :
    c.replForms s data =
      ((c.trace s data).map Conclusion.record, storeAfter s (c.trace s data)) := by
  induction data generalizing s with
  | nil => rfl
  | cons datum rest ih =>
    have hform : c.replForm s datum =
        ((c.conclude s datum).record, (c.conclude s datum).store) := by
      simp only [replForm, conclude]
      split
      · next h => rw [h]; rfl
      · next h => rw [h]; rfl
    simp only [replForms, hform, ih, trace, List.map_cons, Conclusion.storeAfter_cons]

/-- **A batch ends with the first failure**, and with the last value if there is none. -/
theorem endsBatch_evaluateData (s : Store) (value : Value) (data : List Datum) :
    EndsBatch s value (c.trace s data) (c.evaluateData value data s) := by
  induction data generalizing s value with
  | nil => exact .inl ⟨fun _ he => absurd he List.not_mem_nil, rfl⟩
  | cons datum rest ih =>
    have hrun : c.evaluateData value (datum :: rest) s =
        (c.evaluateValue (s.load datum).1 >>= fun value => c.evaluateData value rest)
          (s.load datum).2 := rfl
    rw [hrun, trace]
    cases hform : c.conclude s datum with
    | ok w s₁ =>
      rw [Effect.bind_of_ok hform]
      exact (ih s₁ w).cons
    | error stop s₁ =>
      rw [Effect.bind_of_error hform]
      exact .inr ⟨[], stop, s₁, c.trace s₁ rest, rfl, fun _ he => absurd he List.not_mem_nil, rfl⟩

theorem evaluateText_of_error {text : String} {e : SyntaxError}
    (h : (Contents.ofChars 0 text.toList).error = some e) (s : Store) :
    c.evaluateText text s = .error (.failed ⟨.unreadable e, []⟩) s := by
  simp only [evaluateText, evaluateSource, readAll, h]
  rfl

theorem evaluateText_of_no_error {text : String}
    (h : (Contents.ofChars 0 text.toList).error = none) (s : Store) :
    c.evaluateText text s = c.evaluateData .nil (Contents.ofChars 0 text.toList).data s := by
  simp only [evaluateText, evaluateSource, readAll, h]

/-- **The same run without its value.** -/
def withoutValue : Conclusion → EStateM.Result Stop Store Unit
  | .ok _ s => .ok () s
  | .error stop s => .error stop s

theorem loadText_eq (text : String) (s : Store) :
    c.loadText text s = withoutValue (c.evaluateText text s) := by
  cases h : c.evaluateText text s with
  | ok w s₁ => exact Effect.bind_of_ok h _
  | error stop s₁ => exact Effect.bind_of_error h _

theorem replLine_eq (text : String) (s : Store) :
    c.replLine text s =
      ((c.trace s (Contents.ofChars 0 text.toList).data).map Conclusion.record ++
        (Contents.ofChars 0 text.toList).error.toList.map
          fun e => ⟨(Fault.unreadable e).text, true⟩,
        storeAfter s (c.trace s (Contents.ofChars 0 text.toList).data)) := by
  simp only [replLine, replForms_eq]
  cases (Contents.ofChars 0 text.toList).error with
  | none => simp
  | some e => rfl

/-! ## 3. A batch and a line -/

/-- **A batch and a line have one trace.**  A batch with a syntax error fails with it and leaves
the store as it was.  Any other batch ends with the first failure of its forms, in the store that
this left, or with the last value.  A line records all forms, each evaluated in the store that the
one before it left, and then the syntax error.  So where a batch of at least one form succeeds, the
line leaves the same store and no record of an error, and its last record is the value printed. -/
theorem evaluateText_replLine (text : String) (s : Store) :
    let contents := Contents.ofChars 0 text.toList
    let trace := c.trace s contents.data
    (match contents.error with
      | some e =>
        c.evaluateText text s = .error (.failed ⟨.unreadable e, []⟩) s ∧
          c.loadText text s = .error (.failed ⟨.unreadable e, []⟩) s
      | none =>
        EndsBatch s .nil trace (c.evaluateText text s) ∧
          c.loadText text s = withoutValue (c.evaluateText text s)) ∧
    trace.length = contents.data.length ∧
    c.replLine text s =
      (trace.map Conclusion.record ++
        contents.error.toList.map fun e => ⟨(Fault.unreadable e).text, true⟩,
        storeAfter s trace) ∧
    ∀ w s₁, c.evaluateText text s = .ok w s₁ → contents.data ≠ [] →
      ∃ records, c.replLine text s = (records ++ [⟨w.text, false⟩], s₁) ∧
        ∀ r ∈ records, r.isError = false := by
  intro contents trace
  refine ⟨?_, c.length_trace s contents.data, c.replLine_eq text s, fun w s₁ hbatch hforms => ?_⟩
  · split
    · next e he =>
      have hfails := c.evaluateText_of_error he s
      exact ⟨hfails, by rw [loadText_eq, hfails]; rfl⟩
    · next he =>
      refine ⟨?_, c.loadText_eq text s⟩
      rw [c.evaluateText_of_no_error he]
      exact c.endsBatch_evaluateData s .nil contents.data
  · have herror : contents.error = none := by
      cases he : contents.error with
      | none => rfl
      | some e =>
        rw [c.evaluateText_of_error he] at hbatch
        cases hbatch
    rw [c.evaluateText_of_no_error herror] at hbatch
    have hends := c.endsBatch_evaluateData s .nil contents.data
    rw [hbatch] at hends
    obtain ⟨hall, hlast⟩ := hends.of_ok
    -- there is a form, so the last value is that of the trace and not the empty list
    obtain ⟨done, e, htrace⟩ : ∃ done e, trace = done ++ [e] := by
      obtain ⟨first, rest, hdata⟩ := List.exists_cons_of_ne_nil hforms
      exact (List.eq_nil_or_concat' trace).resolve_left (by simp [trace, hdata, Context.trace])
    have he : e = .ok w s₁ := by
      change trace.getLast?.getD _ = _ at hlast
      simpa [htrace] using hlast
    refine ⟨done.map Conclusion.record, ?_, fun r hr => ?_⟩
    · rw [replLine_eq]
      change (trace.map Conclusion.record ++ contents.error.toList.map _, storeAfter s trace) = _
      simp [htrace, he, herror, storeAfter, Conclusion.record, Conclusion.store]
    · obtain ⟨e', he', rfl⟩ := List.mem_map.mp hr
      refine Conclusion.isError_record (hall e' ?_)
      change e' ∈ trace
      rw [htrace]
      exact List.mem_append_left _ he'

/-- A definition and a use of it: the batch gives `#f` and leaves `x` bound to it, and the line ends
like the batch. -/
theorem evaluateText_replLine_define :
    ∃ c s w s₁ records, standard .empty = (c, s) ∧
      c.evaluateText "(define x #f) x" s = .ok w s₁ ∧ w.isFalse = true ∧
      s₁.lookup? c.globals "x" = some w ∧
      c.replLine "(define x #f) x" s = (records ++ [⟨w.text, false⟩], s₁) ∧
        ∀ r ∈ records, r.isError = false := by
  have hforms : (Contents.ofChars 0 "(define x #f) x".toList).data ≠ [] := by decide +kernel
  have hvalue : (((standard .empty).1.evaluateText "(define x #f) x").run'
      (standard .empty).2).map Value.isFalse = some true := by decide +kernel
  have hbound : (Conclusion.store ((standard .empty).1.evaluateText "(define x #f) x"
      (standard .empty).2)).lookup? (standard .empty).1.globals "x" =
        ((standard .empty).1.evaluateText "(define x #f) x").run' (standard .empty).2 := by
    decide +kernel
  generalize standard .empty = made at hvalue hbound ⊢
  obtain ⟨c, s⟩ := made
  cases hbatch : c.evaluateText "(define x #f) x" s with
  | error stop s₁ =>
    rw [Effect.run'_of_error hbatch] at hvalue
    cases hvalue
  | ok w s₁ =>
    rw [Effect.run'_of_ok hbatch] at hvalue hbound
    rw [hbatch] at hbound
    obtain ⟨records, hline⟩ :=
      (c.evaluateText_replLine "(define x #f) x" s).2.2.2 w s₁ hbatch hforms
    exact ⟨c, s, w, s₁, records, rfl, hbatch, Option.some.inj hvalue, hbound, hline⟩

end Context

end Lisp
