/-
# Back-traces are evaluation stacks

A failure carries what it was noted inside of.  This list is put together piece by piece while the
failure passes outward: by symbols, by what takes values apart, and by every form on the way.  What
comes out is compared here with the second evaluator, which takes its reports back: at a failure its
journal shows the evaluations in progress, those of procedure bodies, expansions and desugared forms
included, and none that had ended.

The pairs on the trace are exactly these forms, the innermost first, where a run of evaluations of
one object counts once (`backTrace_eq_stack`).  This takes that numbers stand for one object each: a
value that is no form could else be taken for the form around it, and the form be left out.  They do
in every store that a context reaches.
-/
import Lisp.Proofs.EvaluatorRetracing
import Lisp.Proofs.Legibility

namespace Lisp

open Effect

variable {objects : List Value} {v : Value} {s s₁ : Store}

/-! ## 1. Stores that contexts reach -/

namespace Effect.Retraces

variable {effect effect' : Effect Value} (h : Retraces objects Value.Among effect effect')
  (hs : s.HasObjects objects)

include h hs

theorem holds_of_ok (hrun : effect s = .ok v s₁) : s₁.Holds v := by
  have hend := h s s.journal hs
  rw [hrun] at hend
  generalize effect' (s.withJournal s.journal) = e' at hend
  cases hend with
  | ok _ hs₁ hv => exact ⟨_, hs₁, hv⟩

theorem numbered_of_error {stop : Stop} (hrun : effect s = .error stop s₁) : s₁.Numbered := by
  have hend := h s s.journal hs
  rw [hrun] at hend
  generalize effect' (s.withJournal s.journal) = e' at hend
  cases hend with
  | error _ hs₁ => exact ⟨_, hs₁⟩

theorem numbered : (Conclusion.store (effect s)).Numbered := by
  cases hrun : effect s with
  | ok v s₁ =>
    obtain ⟨objects₁, hs₁, -⟩ := h.holds_of_ok hs hrun
    exact ⟨objects₁, hs₁⟩
  | error stop s₁ => exact h.numbered_of_error hs hrun

end Effect.Retraces

namespace Store.Numbered

/-- **The objects of a datum** get numbers of their own. -/
theorem load (hs : s.Numbered) (datum : Datum) : (s.load datum).2.Holds (s.load datum).1 := by
  obtain ⟨objects, hs⟩ := hs
  exact (conserves_load datum).holds_of_ok hs rfl

theorem newFrame (hs : s.Numbered) : s.newFrame.2.Numbered := by
  obtain ⟨objects, hs⟩ := hs
  exact ⟨objects, hs.newFrame⟩

end Store.Numbered

namespace Context

open Conclusion (EndsBatch storeAfter)

variable (c : Context)

theorem numbered_conclude (hs : s.Numbered) (datum : Datum) :
    (Conclusion.store (c.conclude s datum)).Numbered := by
  obtain ⟨objects, hs₁, hform⟩ := hs.load datum
  exact ((retraces_belowAt c.language depthLimit).evaluate c.globals hform).numbered hs₁

theorem numbered_trace (hs : s.Numbered) (data : List Datum) :
    ∀ e ∈ c.trace s data, (Conclusion.store e).Numbered := by
  induction data generalizing s with
  | nil => exact nofun
  | cons datum rest ih =>
    have hfirst := c.numbered_conclude hs datum
    exact List.forall_mem_cons.mpr ⟨hfirst, ih hfirst⟩

theorem numbered_storeAfter (hs : s.Numbered) (data : List Datum) :
    (storeAfter s (c.trace s data)).Numbered := by
  unfold storeAfter
  cases hlast : (c.trace s data).getLast? with
  | none => exact hs
  | some e => exact c.numbered_trace hs data e (List.mem_of_getLast? hlast)

theorem numbered_evaluateText (hs : s.Numbered) (text : String) :
    (Conclusion.store (c.evaluateText text s)).Numbered := by
  cases herror : (Contents.ofChars 0 text.toList).error with
  | some e =>
    rw [c.evaluateText_of_error herror]
    exact hs
  | none =>
    rw [c.evaluateText_of_no_error herror]
    rcases (c.endsBatch_evaluateData s .nil (Contents.ofChars 0 text.toList).data).store_eq with
      hstore | ⟨e, he, hstore⟩
    · rw [hstore]
      exact hs
    · rw [hstore]
      exact c.numbered_trace hs _ e he

theorem numbered_bindMarkers (make : Nat → String → Value) (root : Nat) (names : List String)
    (hmake : ∀ {objects : List Value} {i : Nat} {name : String},
      objects[i]? = some (make i name) → (make i name).Among objects) (hs : s.Numbered) :
    (bindMarkers make root s names).Numbered := by
  induction names generalizing s with
  | nil => exact hs
  | cons name names ih =>
    obtain ⟨objects, hs⟩ := hs
    have hmarker : Effect.Conserves objects Value.Among
        (modifyGet (·.allocate (make · name) none)) :=
      conserves_allocate fun _ _ _ hi => hmake hi
    obtain ⟨objects₁, hs₁, hv⟩ := hmarker.holds_of_ok hs rfl
    exact ih ⟨objects₁, hs₁.bind hv root name⟩

theorem numbered_standard : (standard .empty).2.Numbered := by
  have hempty : Store.empty.Numbered := by
    refine ⟨[], rfl, fun f entry hentry => ?_⟩
    simp [Store.bindings, Store.empty] at hentry
  exact numbered_bindMarkers .hostMarker _ _ id
    (numbered_bindMarkers .formMarker _ _ id hempty.newFrame)

/-- **In every store that a context reaches** numbers stand for one object each. -/
theorem Reached.numbered {c : Context} (h : Reached c s) : s.Numbered := by
  induction h with
  | start => exact numbered_standard
  | evaluateText h hrun ih =>
    obtain ⟨-, rfl⟩ := endsIn_iff.mp hrun
    exact numbered_evaluateText _ ih _
  | loadText h hrun ih =>
    rw [loadText_eq] at hrun
    obtain ⟨-, rfl⟩ := endsIn_iff.mp (endsIn_of_withoutValue hrun)
    exact numbered_evaluateText _ ih _
  | replLine h hended ih =>
    rw [replLine_eq]
    exact numbered_storeAfter _ ih _
  | bind h hread hdatum name ih =>
    obtain ⟨objects, hs, hv⟩ := ih.load _
    exact ⟨objects, hs.bind hv _ name⟩
  | defineHost h name f ih => exact numbered_bindMarkers .hostMarker _ _ id ih

end Context

/-! ## 2. The pairs on a back-trace -/

theorem filter_isPair_inProgress (events : List Event) :
    (collapse (inProgress events)).filter Value.isPair = collapse (inProgress events) := by
  refine List.filter_eq_self.mpr fun form hform => ?_
  exact isPair_of_mem_inProgress ((List.destutter_sublist _ _).subset hform)

/-- **What is no form** stands before the evaluations in progress, and is not shown. -/
theorem Stop.Noted.filter_isPair {failure : Failure} {events : List Event}
    (h : Stop.Noted objects events (.failed failure)) :
    failure.trace.reverse.filter Value.isPair = collapse (inProgress events) := by
  obtain ⟨inner, hinner, htrace⟩ := h
  have hnone : inner.filter Value.isPair = [] :=
    List.filter_eq_nil_iff.mpr fun v hv => by simp [(hinner v hv).1]
  rw [htrace, List.filter_append, hnone, List.nil_append, filter_isPair_inProgress]

theorem journal_of_evaluateRetracting {l : Language} {depth : Nat} {x : Value} {scope : Scope}
    (h : evaluateRetracting l depth x scope s = .ok v s₁) : s₁.journal = s.journal := by
  cases depth with
  | zero => cases h
  | succ depth => exact journal_of_retracting h

/-- **Back-traces are evaluation stacks.**  In every store that a context reaches numbers stand for
one object each; they do so in a datum that is loaded there, and after an evaluation, however it
ends.  So what the last part says holds of each evaluation at top level.  The evaluator that takes
its reports back, started with an empty journal, comes to the same.  Where it fails, its journal
shows the evaluations in progress; and the pairs on the back-trace, the innermost first, are exactly
their forms, object by object, with one entry for each run of evaluations of one object. -/
theorem backTrace_eq_stack :
    (∀ (c : Context) (s : Store), c.Reached s → s.Numbered) ∧
      (∀ (s : Store) (datum : Datum), s.Numbered → (s.load datum).2.Holds (s.load datum).1) ∧
      ∀ (l : Language) (depth : Nat) (x : Value) (scope : Scope) (s : Store), s.Holds x →
        (Conclusion.store (evaluate l depth x scope s)).Numbered ∧
          match evaluate l depth x scope s with
          | .ok v s₁ =>
            evaluateRetracting l depth x scope (s.withJournal []) = .ok v (s₁.withJournal [])
          | .error stop s₁ => ∃ events,
            evaluateRetracting l depth x scope (s.withJournal []) =
              .error stop (s₁.withJournal events) ∧
            ∀ failure, stop = .failed failure →
              failure.trace.reverse.filter Value.isPair = collapse (inProgress events) := by
  refine ⟨fun c s h => h.numbered, fun s datum hs => hs.load datum, fun l depth x scope s hx => ?_⟩
  obtain ⟨objects, hs, hx⟩ := hx
  have hretraced := (retraces_belowAt l depth).evaluate scope hx
  refine ⟨hretraced.numbered hs, ?_⟩
  have hend := hretraced s [] hs
  change SameEnd objects Value.Among [] (evaluate l depth x scope s)
    (evaluateRetracting l depth x scope (s.withJournal [])) at hend
  generalize evaluate l depth x scope s = e at hend
  cases hrun : evaluateRetracting l depth x scope (s.withJournal []) with
  | ok v s₁ =>
    have hjournal := journal_of_evaluateRetracting hrun
    rw [hrun] at hend
    cases hend with
    | @ok _ _ _ events =>
      have hempty : events ++ [] = [] := hjournal
      rw [hempty]
  | error stop s₁ =>
    rw [hrun] at hend
    cases hend with
    | @error _ _ _ events _ _ hnoted =>
      refine ⟨events, by rw [List.append_nil], fun failure hfailure => ?_⟩
      subst hfailure
      exact hnoted.filter_isPair

/-- **What the failure of a run was noted inside of**, the innermost first. -/
def Conclusion.notes : Conclusion → List Value
  | .error (.failed failure) _ => failure.trace.reverse
  | .ok .. | .error .tooDeep _ => []

/-- With `f` defined as `car`, the failure of `(f 5)` is noted inside of the body of `f`, which was
written in another text, and inside of the call. -/
theorem backTrace_eq_stack_procedure :
    ∃ (c : Context) (depth : Nat) (s s₁ : Store) (form : Value) (failure : Failure)
      (events : List Event),
      evaluate c.language depth form c.globals s = .error (.failed failure) s₁ ∧
      evaluateRetracting c.language depth form c.globals (s.withJournal []) =
        .error (.failed failure) (s₁.withJournal events) ∧
      failure.trace.reverse.filter Value.isPair = collapse (inProgress events) ∧
      (collapse (inProgress events)).map Value.text = ["(car x)", "(f 5)"] := by
  have hdefined : Conclusion.succeeded ((Context.standard .empty).1.evaluateText
      "(define (f x) (car x))" (Context.standard .empty).2) = true := by decide +kernel
  have hnotes : ((Conclusion.notes ((Context.standard .empty).1.conclude
      (Conclusion.store ((Context.standard .empty).1.evaluateText "(define (f x) (car x))"
        (Context.standard .empty).2))
      (.listWithTail [.atom (.symbol "f") none, .atom (.integer 5) none] .nil))).filter
        Value.isPair).map Value.text = ["(car x)", "(f 5)"] := by decide +kernel
  have hstart := Context.Reached.start
  generalize (Context.standard .empty).1 = c at hdefined hnotes hstart
  generalize (Context.standard .empty).2 = s₀ at hdefined hnotes hstart
  obtain ⟨w, s, hrun⟩ := Conclusion.exists_of_succeeded hdefined
  have hreached : c.Reached s := hstart.evaluateText (by rw [hrun]; exact .ok w)
  rw [hrun, Conclusion.store] at hnotes
  generalize Datum.listWithTail [.atom (.symbol "f") none, .atom (.integer 5) none] .nil = call
    at hnotes
  have hholds := backTrace_eq_stack.2.1 s call (backTrace_eq_stack.1 c s hreached)
  unfold Context.conclude Context.evaluateValue at hnotes
  generalize Context.depthLimit = depth at hnotes
  have hstack := backTrace_eq_stack.2.2 c.language depth _ c.globals _ hholds
  generalize (s.load call).1 = form, (s.load call).2 = s at hnotes hstack
  cases hrun : evaluate c.language depth form c.globals s with
  | ok =>
    rw [hrun] at hnotes
    cases hnotes
  | error stop s₁ =>
    rw [hrun] at hnotes hstack
    cases stop with
    | tooDeep => cases hnotes
    | failed failure =>
      obtain ⟨-, events, hrun', htrace⟩ := hstack
      refine ⟨c, depth, s, s₁, form, failure, events, hrun, hrun', htrace failure rfl, ?_⟩
      rw [← htrace failure rfl]
      exact hnotes

end Lisp
