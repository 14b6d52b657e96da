/-
# Applying values

A value is applied to values in two ways: directly (`apply`), and by a form that calls it
(`evaluate`).  In the form the values are quoted.  Both ways end alike, whatever is applied
(`apply_runsAlike_call`), but for macros: a macro is given the values as they are when it is
applied, and with quotes around them in a form.

A quote gives back the very object that is quoted and changes nothing (`evaluate_quote`), so what
the form has made when it comes to the call is of no account.
-/
import Lisp.Proofs.Endings

namespace Lisp

open Correspondence (below)
open Effect

variable {l : Language} {s s₁ : Store} {scope : Scope}

/-! ## 1. Forms that call -/

namespace Store

/-- **Makes a list of quotes**, one for each value. -/
def newQuoted (s : Store) (vs : List Value) : Value × Store :=
  let (quotes, s) := s.newQuotes vs
  s.newList quotes

/-- **Makes the form with a quoted head** and these arguments. -/
def newUse (s : Store) (f args : Value) : Value × Store :=
  let (head, s) := s.newQuote f
  s.newPair head args

/-- **Makes the form that calls a value on values**, all of them quoted. -/
def newCall (s : Store) (f : Value) (vs : List Value) : Value × Store :=
  let (quoted, s) := s.newQuoted vs
  s.newUse f quoted

theorem extends_record (s : Store) (e : Event) : s.Extends (s.record e) :=
  ⟨le_refl _, rfl, rfl⟩

theorem extends_newListWithTail (s : Store) (items : List Value) (tail : Value) :
    s.Extends (s.newListWithTail items tail).2 := by
  induction items with
  | nil => exact .refl s
  | cons item items ih => exact ih.trans (extends_allocate _ _ none)

theorem extends_newList (s : Store) (items : List Value) : s.Extends (s.newList items).2 :=
  s.extends_newListWithTail items .nil

theorem extends_newQuote (s : Store) (v : Value) : s.Extends (s.newQuote v).2 :=
  (s.extends_allocate (.atom · (.symbol "quote")) none).trans (extends_newList _ _)

theorem extends_newQuotes (s : Store) (vs : List Value) : s.Extends (s.newQuotes vs).2 := by
  induction vs generalizing s with
  | nil => exact .refl s
  | cons v vs ih => exact (s.extends_newQuote v).trans (ih _)

theorem extends_newQuoted (s : Store) (vs : List Value) : s.Extends (s.newQuoted vs).2 :=
  (s.extends_newQuotes vs).trans (extends_newList _ _)

theorem extends_newUse (s : Store) (f args : Value) : s.Extends (s.newUse f args).2 :=
  (s.extends_newQuote f).trans (extends_allocate _ (.pair · _ args) none)

/-! What was reported before makes no difference to the objects that are made. -/

theorem newListWithTail_record (s : Store) (e : Event) (items : List Value) (tail : Value) :
    (s.record e).newListWithTail items tail =
      ((s.newListWithTail items tail).1, (s.newListWithTail items tail).2.record e) := by
  induction items with
  | nil => rfl
  | cons item items ih =>
    simp only [newListWithTail, ih]
    rfl

theorem newList_record (s : Store) (e : Event) (items : List Value) :
    (s.record e).newList items = ((s.newList items).1, (s.newList items).2.record e) :=
  s.newListWithTail_record e items .nil

theorem newQuotes_record (s : Store) (e : Event) (vs : List Value) :
    (s.record e).newQuotes vs = ((s.newQuotes vs).1, (s.newQuotes vs).2.record e) := by
  induction vs generalizing s with
  | nil => rfl
  | cons v vs ih =>
    have hquote : (s.record e).newQuote v = ((s.newQuote v).1, (s.newQuote v).2.record e) := rfl
    simp only [newQuotes, hquote, ih]

theorem newQuoted_record (s : Store) (e : Event) (vs : List Value) :
    (s.record e).newQuoted vs = ((s.newQuoted vs).1, (s.newQuoted vs).2.record e) := by
  simp only [newQuoted, newQuotes_record, newList_record]

theorem elements_newList (s : Store) (items : List Value) :
    (s.newList items).1.elements = items ∧ (s.newList items).1.isList = true := by
  induction items with
  | nil => exact ⟨rfl, rfl⟩
  | cons item items ih => exact ⟨congrArg (item :: ·) ih.1, ih.2⟩

end Store

/-! ## 2. Quotes -/

/-- **The form `(quote v)`.** -/
def Value.Quotes (form v : Value) : Prop :=
  ∃ i j k, form = .pair i (.atom j (.symbol "quote")) (.pair k v .nil)

theorem Store.newQuote_quotes (s : Store) (v : Value) : (s.newQuote v).1.Quotes v :=
  ⟨_, _, _, rfl⟩

theorem Store.newQuotes_quote (s : Store) (vs : List Value) :
    List.Forall₂ Value.Quotes (s.newQuotes vs).1 vs := by
  induction vs generalizing s with
  | nil => exact .nil
  | cons v vs ih => exact .cons (s.newQuote_quotes v) (ih _)

theorem Store.newQuoted_quote (s : Store) (vs : List Value) :
    (s.newQuoted vs).1.isList = true ∧
      List.Forall₂ Value.Quotes (s.newQuoted vs).1.elements vs := by
  have hlist := elements_newList (s.newQuotes vs).2 (s.newQuotes vs).1
  refine ⟨hlist.2, ?_⟩
  rw [Store.newQuoted, hlist.1]
  exact s.newQuotes_quote vs

theorem Store.Sound.existsIn_newQuoted {args : Value} (hs : s.Sound) (hargs : args.ExistsIn s) :
    (s.newQuoted args.elements).1.ExistsIn (s.newQuoted args.elements).2 := by
  have hquotes := simulates_newQuotes hargs.corresponds_made.elements
  have hquoted := hquotes.bind fun _ _ _ _ h => simulates_newList h
  exact (hs.of_ok hquoted rfl).2

theorem Value.length?_of_isList {v : Value} (h : v.isList = true) :
    v.length? = some v.elements.length :=
  if_pos h

/-! ## 3. Forms with a quoted head -/

/-- **What a form does with the value of its head.** -/
def evaluateCalled (l : Language) (b : Below) (f args : Value) (scope : Scope) : Effect Value := do
  match ← ofExcept (Callable.ofValue l f) with
  | .special form => form.perform l b args scope
  | .transformer rules home => do
    let expansion ← expand rules home args
    b.evaluate expansion scope
  | .procedure .. | .host _ => do
    let values ← evaluateArguments b args scope
    b.apply f values scope

theorem inside_congr {effect effect' : Effect Value} {s s' : Store} (h : effect s = effect' s')
    (form : Value) : Effect.inside form effect s = Effect.inside form effect' s' := by
  simp only [Effect.inside, EStateM.adaptExcept, h]

section Quote

variable (hquote : l.form? "quote" = some .quote)

include hquote

/-- **A quote evaluates to the object that is quoted**, and nothing else happens. -/
theorem evaluate_quote {form v : Value} (h : form.Quotes v) (depth : Nat) (scope : Scope)
    (s : Store) :
    evaluate l (depth + 1) form scope s = .ok v (s.record (.evaluating form)) := by
  obtain ⟨i, j, k, rfl⟩ := h
  have hreserved : l.reserved? (.atom j (.symbol "quote")) = some .quote := hquote
  simp only [evaluate, evaluateStep, evaluateForm, hreserved]
  rfl

/-- **Quotes evaluate to what they quote**, in the same way at every depth. -/
theorem evaluateAll_quotes (scope : Scope) {forms vs : List Value}
    (h : List.Forall₂ Value.Quotes forms vs) (s : Store) :
    ∃ s₁, s.Extends s₁ ∧
      ∀ depth, (belowAt l (depth + 1)).evaluateAll scope forms s = .ok vs s₁ := by
  induction h generalizing s with
  | nil => exact ⟨s, .refl s, fun _ => rfl⟩
  | @cons form v forms vs hfirst _ ih =>
    obtain ⟨s₁, hextends, hrest⟩ := ih (s.record (.evaluating form))
    refine ⟨s₁, (s.extends_record _).trans hextends, fun depth => ?_⟩
    have hvalue := evaluate_quote hquote hfirst depth scope s
    exact (bind_of_ok hvalue _).trans (bind_of_ok (hrest depth) _)

/-- **A form with a quoted head** goes on with the value that is quoted. -/
theorem evaluate_newUse (f args : Value) (scope : Scope) (s s' : Store) :
    ∃ s₁, s'.Extends s₁ ∧ ∀ depth, evaluate l (depth + 2) (s.newUse f args).1 scope s' =
      Effect.inside (s.newUse f args).1
        (evaluateCalled l (belowAt l (depth + 1)) f args scope) s₁ := by
  have hhead := s.newQuote_quotes f
  refine ⟨_, (s'.extends_record (.evaluating (s.newUse f args).1)).trans
    (Store.extends_record _ (.evaluating (s.newQuote f).1)), fun depth => ?_⟩
  have hvalue := evaluate_quote hquote hhead depth scope
    (s'.record (.evaluating (s.newUse f args).1))
  exact inside_congr (bind_of_ok hvalue _) _

/-- **Quoted arguments evaluate to the values**, in a new list. -/
theorem evaluateArguments_quoted {quoted : Value} {vs : List Value} (hlist : quoted.isList = true)
    (hquoted : List.Forall₂ Value.Quotes quoted.elements vs) (scope : Scope) (s : Store) :
    ∃ values s₁, s.Extends s₁ ∧ values.elements = vs ∧ values.isList = true ∧
      ∀ depth, evaluateArguments (belowAt l (depth + 1)) quoted scope s = .ok values s₁ := by
  obtain ⟨s₁, hextends, hrun⟩ := evaluateAll_quotes hquote scope hquoted s
  have hvalues := Store.elements_newList s₁ vs
  refine ⟨_, _, hextends.trans (s₁.extends_newList vs), hvalues.1, hvalues.2, fun depth => ?_⟩
  rw [evaluateArguments, if_pos hlist]
  exact bind_of_ok (hrun depth) _

end Quote

/-! ## 4. Each kind of value -/

section Kinds

variable {f args args' : Value} {bound : Nat} {s₀ s' : Store}
  (hquote : l.form? "quote" = some .quote) (hs : s.Sound)

include hquote hs

/-- **Applying a value and calling it end alike**, if what is left to do is alike once the head of
the form has been evaluated. -/
theorem runsAlike_newUse (h₁ : s.Extends s₁) (h' : s.Extends s') (hbound : s.spans.size ≤ bound)
    (hbound₁ : bound ≤ s₁.spans.size) (hbound' : bound ≤ s'.spans.size)
    {left : Nat → Effect Value}
    (hleft : ∀ depth, apply l (depth + 1) f args scope s = left depth s₁)
    (hright : ∀ s₂, ∃ right : Nat → Effect Value, ∃ s₃, s₂.Extends s₃ ∧
      (∀ depth, evaluateCalled l (belowAt l (depth + 1)) f args' scope s₂ = right depth s₃) ∧
      (∀ {depth depth'}, depth ≤ depth' → (left depth).Simulates (below bound Set.univ)
        Value.Corresponds (right depth')) ∧
      ∀ {depth depth'}, depth' < depth → (right depth').Simulates (below bound Set.univ)
        Value.Corresponds (left depth)) :
    RunsAlike s (fun depth => apply l depth f args scope s)
      fun depth => evaluate l depth (s₀.newUse f args').1 scope s' := by
  obtain ⟨s₂, h₂, hrun⟩ := evaluate_newUse hquote f args' scope s₀ s'
  obtain ⟨right, s₃, h₃, hcalled, hforth, hback⟩ := hright s₂
  have hrun' : ∀ depth, evaluate l (depth + 2) (s₀.newUse f args').1 scope s' =
      Effect.inside (s₀.newUse f args').1 (right depth) s₃ := fun depth => by
    rw [hrun]
    exact inside_congr (hcalled depth) _
  have hnone : ¬ Ended (apply l 0 f args scope s) := id
  have hnone' : ¬ Ended (evaluate l 0 (s₀.newUse f args').1 scope s') := id
  -- one level is not enough to evaluate the head
  have hhead : ¬ Ended (evaluate l 1 (s₀.newUse f args').1 scope s') := id
  exact .of_simulates hs h₁ (h'.trans (h₂.trans h₃)) hbound hbound₁
    (hbound'.trans (h₂.trans h₃).spans) hnone hleft hnone' hhead hrun'
    (fun hle => (hforth hle).inside_right _) fun hlt => (hback hlt).inside_left _

/-- **What cannot be applied** is refused in both ways. -/
theorem runsAlike_refused {fault : Fault} (hrefused : Callable.ofValue l f = .error fault)
    (h' : s.Extends s') :
    RunsAlike s (fun depth => apply l depth f args scope s)
      fun depth => evaluate l depth (s₀.newUse f args').1 scope s' := by
  have hleft : ∀ depth, apply l (depth + 1) f args scope s =
      (fail fault : Effect Value) (s.record (.applying f args)) := fun depth => by
    change (ofExcept (Callable.ofValue l f) >>= _) (s.record (.applying f args)) = _
    rw [hrefused]
    rfl
  have hsame : (fail fault : Effect Value).Simulates (below s.spans.size Set.univ)
      Value.Corresponds (fail fault) := simulates_fail (.refl fault)
  refine runsAlike_newUse hquote hs (s.extends_record _) h' (le_refl _) (le_refl _) h'.spans hleft
    fun s₂ => ⟨fun _ => fail fault, s₂, .refl s₂, fun depth => ?_, fun _ => hsame, fun _ => hsame⟩
  rw [evaluateCalled, hrefused]
  rfl

/-- **A special form** is performed on the same quotes in both ways. -/
theorem runsAlike_special {form : SpecialForm} (hargs : args.ExistsIn s)
    (hspecial : Callable.ofValue l f = .ok (.special form)) :
    RunsAlike s (fun depth => apply l depth f args scope s)
      fun depth => evaluate l depth (s.newCall f args.elements).1 scope
        (s.newCall f args.elements).2 := by
  have hquotes := s.extends_newQuoted args.elements
  have huse := (s.newQuoted args.elements).2.extends_newUse f (s.newQuoted args.elements).1
  have hleft : ∀ depth, apply l (depth + 1) f args scope s =
      form.perform l (belowAt l depth) (s.newQuoted args.elements).1 scope
        ((s.newQuoted args.elements).2.record (.applying f args)) := fun depth => by
    change (ofExcept (Callable.ofValue l f) >>= _) (s.record (.applying f args)) = _
    rw [hspecial]
    change form.perform l (belowAt l depth)
      ((s.record (.applying f args)).newQuoted args.elements).1 scope
      ((s.record (.applying f args)).newQuoted args.elements).2 = _
    rw [Store.newQuoted_record]
  have hsame := (hs.existsIn_newQuoted hargs).corresponds
  refine runsAlike_newUse hquote hs (hquotes.trans (Store.extends_record _ _)) (hquotes.trans huse)
    hquotes.spans (le_refl _) huse.spans hleft fun s₂ =>
      ⟨fun depth => form.perform l (belowAt l (depth + 1)) (s.newQuoted args.elements).1 scope, s₂,
        .refl s₂, fun depth => ?_, fun hle => ?_, fun hlt => ?_⟩
  · rw [evaluateCalled, hspecial]
    rfl
  · exact simulates_perform l (simulates_belowAt l (hle.trans (Nat.le_succ _))) form hsame
      scope.within_univ
  · exact simulates_perform l (simulates_belowAt l hlt) form hsame scope.within_univ

/-- **A procedure or a host function** is applied to the values themselves in both ways. -/
theorem runsAlike_evaluated (hf : f.ExistsIn s) (hargs : args.ExistsIn s)
    (hlist : args.isList = true)
    (hcallable : (∃ parameters body home,
      Callable.ofValue l f = .ok (.procedure parameters body home)) ∨
        ∃ name, Callable.ofValue l f = .ok (.host name)) :
    RunsAlike s (fun depth => apply l depth f args scope s)
      fun depth => evaluate l depth (s.newCall f args.elements).1 scope
        (s.newCall f args.elements).2 := by
  have hquotes := s.extends_newQuoted args.elements
  have huse := (s.newQuoted args.elements).2.extends_newUse f (s.newQuoted args.elements).1
  have hcall := hquotes.trans huse
  have hquoted := s.newQuoted_quote args.elements
  have hno : ∀ id rules home, f ≠ .transformer id rules home := by
    rintro id rules home rfl
    rcases hcallable with ⟨_, _, _, h⟩ | ⟨_, h⟩ <;> cases h
  refine runsAlike_newUse hquote hs (.refl s) hcall (le_refl _) (le_refl _) hcall.spans
    (fun depth => rfl) fun s₂ => ?_
  obtain ⟨values, s₃, h₃, helements, hvalues, hrun⟩ :=
    evaluateArguments_quoted hquote hquoted.1 hquoted.2 scope s₂
  have hsame : List.Forall₂ (Value.Corresponds (below s.spans.size Set.univ)) args.elements
      values.elements := helements ▸ hargs.corresponds.elements
  have hsame' : List.Forall₂ (Value.Corresponds (below s.spans.size Set.univ)) values.elements
      args.elements := helements ▸ hargs.corresponds.elements
  have hlength : args.length? = values.length? := by
    rw [Value.length?_of_isList hlist, Value.length?_of_isList hvalues, helements]
  refine ⟨fun depth => applyStep l (belowAt l depth) f values scope, s₃, h₃, fun depth => ?_,
    fun hle => ?_, fun hlt => ?_⟩
  · rcases hcallable with ⟨_, _, _, h⟩ | ⟨_, h⟩
    · rw [evaluateCalled, h]
      exact bind_of_ok (hrun depth) _
    · rw [evaluateCalled, h]
      exact bind_of_ok (hrun depth) _
  · exact simulates_applyStep_elements l (simulates_belowAt l hle) hf.corresponds hno hsame
      hlength scope.within_univ
  · exact simulates_applyStep_elements l (simulates_belowAt l hlt.le) hf.corresponds hno
      hsame' hlength.symm scope.within_univ

end Kinds

/-! ## 5. Applying and calling -/

/-- **Applying a value to values, and evaluating the form that calls it on them, end alike**: with
one value or one fault, the same in all frames and the same output.  That is so for procedures, host
functions, special forms, and what cannot be applied; only macros are different. -/
theorem apply_runsAlike_call {f args : Value} (hquote : l.form? "quote" = some .quote)
    (hs : s.Sound) (hf : f.ExistsIn s) (hargs : args.ExistsIn s) (hlist : args.isList = true)
    (hno : ∀ id rules home, f ≠ .transformer id rules home) :
    RunsAlike s (fun depth => apply l depth f args scope s)
      fun depth => evaluate l depth (s.newCall f args.elements).1 scope
        (s.newCall f args.elements).2 := by
  cases hcallable : Callable.ofValue l f with
  | error fault =>
    exact runsAlike_refused hquote hs hcallable
      ((s.extends_newQuoted args.elements).trans (Store.extends_newUse _ f _))
  | ok callable =>
    cases callable with
    | special form => exact runsAlike_special hquote hs hargs hcallable
    | procedure parameters body home =>
      exact runsAlike_evaluated hquote hs hf hargs hlist (.inl ⟨parameters, body, home, hcallable⟩)
    | host name => exact runsAlike_evaluated hquote hs hf hargs hlist (.inr ⟨name, hcallable⟩)
    | transformer rules home =>
      obtain ⟨id, htransformer⟩ := Callable.exists_of_transformer hcallable
      exact absurd htransformer (hno id rules home)

/-- In the standard context `car` gives the symbol `a` as the head of `(a b)`. -/
theorem apply_runsAlike_call_car :
    let datum := Datum.pair (.pair (.atom (.symbol "a") none)
      (.pair (.atom (.symbol "b") none) .nil none) none) .nil none
    let (args, s) := (Context.standard .empty).2.load datum
    RunsAlike s (fun depth => apply .standard depth (.formMarker 1 "car") args (.ofRoot 0) s)
        (fun depth => evaluate .standard depth (s.newCall (.formMarker 1 "car") args.elements).1
          (.ofRoot 0) (s.newCall (.formMarker 1 "car") args.elements).2) ∧
      ((apply .standard 3 (.formMarker 1 "car") args (.ofRoot 0)).run' s).bind Value.symbol? =
        some "a" := by
  intro datum
  have hs := (Context.sound_standard Store.sound_empty).load datum
  have hf : (Value.formMarker 1 "car").ExistsIn ((Context.standard .empty).2.load datum).2 := by
    refine ⟨?_, nofun⟩
    rintro i rfl
    decide +kernel
  exact ⟨apply_runsAlike_call rfl hs.1 hf hs.2 rfl nofun, by decide +kernel⟩

/-- **A macro that is applied to values is expanded to a form of these values**, and that form is
evaluated: the same happens as in a form that uses the macro on the values, unquoted. -/
theorem apply_runsAlike_use {id : Nat} {rules args : Value} {home : Scope}
    (hquote : l.form? "quote" = some .quote) (hs : s.Sound)
    (hf : (Value.transformer id rules home).ExistsIn s) (hargs : args.ExistsIn s) :
    RunsAlike s (fun depth => apply l depth (.transformer id rules home) args scope s)
      fun depth => evaluate l depth (s.newUse (.transformer id rules home) args).1 scope
        (s.newUse (.transformer id rules home) args).2 := by
  have huse := s.extends_newUse (.transformer id rules home) args
  have hleft : ∀ depth, apply l (depth + 1) (.transformer id rules home) args scope s =
      (expand rules home args >>= fun expansion => evaluate l depth expansion scope)
        (s.record (.applying (.transformer id rules home) args)) := fun depth => rfl
  have hrules : rules.Corresponds (below s.spans.size Set.univ) rules :=
    Value.corresponds_below (fun i hi => hf.objects i (.inr hi)) fun f _ => Set.mem_univ f
  have hexpand := simulates_expand hrules home.within_univ hargs.corresponds
  refine runsAlike_newUse hquote hs (s.extends_record _) huse (le_refl _) (le_refl _) huse.spans
    hleft fun s₂ => ⟨_, s₂, .refl s₂, fun depth => rfl, fun hle => ?_, fun hlt => ?_⟩
  · refine hexpand.bind fun c hc expansion expansion' hexpansion => ?_
    exact (simulates_belowAt l (hle.trans (Nat.le_succ _))).evaluate hexpansion
      (Scope.Within.mono scope.within_univ hc)
  · refine hexpand.bind fun c hc expansion expansion' hexpansion => ?_
    exact (simulates_belowAt l hlt).evaluate hexpansion (Scope.Within.mono scope.within_univ hc)

/-- The macro with the one rule `((_ x) x)`. -/
def identityMacro : Value :=
  .transformer 0 (.pair 1 .nil (.pair 2 (.pair 3
    (.pair 4 (.atom 5 (.symbol "_")) (.pair 6 (.atom 7 (.symbol "x")) .nil))
    (.pair 8 (.atom 9 (.symbol "x")) .nil)) .nil)) (.ofRoot 0)

/-- The list `(a)`. -/
def symbolList : Value :=
  .pair 10 (.atom 11 (.symbol "a")) .nil

/-- The macro and the list were made, and nothing is bound. -/
def macroStore : Store :=
  ⟨Array.replicate 12 none, #[[]], "", []⟩

theorem sound_macroStore : macroStore.Sound := by
  intro f entry hentry
  rcases f with _ | f <;> simp [Store.bindings, macroStore] at hentry

theorem existsIn_macroStore :
    identityMacro.ExistsIn macroStore ∧ symbolList.ExistsIn macroStore := by
  refine ⟨⟨fun i hi => ?_, fun f hf => ?_⟩, fun i hi => ?_, fun f hf => ?_⟩
  · simp [identityMacro, Value.HasObject] at hi
    simp [macroStore]
    omega
  · simp [identityMacro, Value.HasFrame, Scope.frames, Scope.ofRoot] at hf
    simp [macroStore, hf]
  · simp [symbolList, Value.HasObject] at hi
    simp [macroStore]
    omega
  · simp [symbolList, Value.HasFrame] at hf

/-- The use `(m a)` ends as applying the macro does. -/
theorem apply_runsAlike_use_identity :
    RunsAlike macroStore
      (fun depth => apply .standard depth identityMacro symbolList (.ofRoot 0) macroStore)
      (fun depth => evaluate .standard depth (macroStore.newUse identityMacro symbolList).1
        (.ofRoot 0) (macroStore.newUse identityMacro symbolList).2) :=
  apply_runsAlike_use rfl sound_macroStore existsIn_macroStore.1 existsIn_macroStore.2

/-- **What a macro puts in an evaluated place is evaluated again**, value or not.  Applied to the
symbol `a` the macro fails, as `a` is unbound; called on `'a` it gives `a`. -/
theorem apply_not_runsAlike_call :
    Conclusion.faultKind? (apply .standard 3 identityMacro symbolList (.ofRoot 0) macroStore) =
      some .unboundVariable ∧
    ((evaluate .standard 4 (macroStore.newCall identityMacro symbolList.elements).1
      (.ofRoot 0)).run' (macroStore.newCall identityMacro symbolList.elements).2).bind
        Value.symbol? = some "a" ∧
    ¬ RunsAlike macroStore
      (fun depth => apply .standard depth identityMacro symbolList (.ofRoot 0) macroStore)
      (fun depth => evaluate .standard depth
        (macroStore.newCall identityMacro symbolList.elements).1 (.ofRoot 0)
        (macroStore.newCall identityMacro symbolList.elements).2) := by
  have happly : Conclusion.faultKind? (apply .standard 3 identityMacro symbolList (.ofRoot 0)
      macroStore) = some .unboundVariable := by decide +kernel
  have hcall : Conclusion.faultKind? (evaluate .standard 4
      (macroStore.newCall identityMacro symbolList.elements).1 (.ofRoot 0)
      (macroStore.newCall identityMacro symbolList.elements).2) = none := by decide +kernel
  refine ⟨happly, by decide +kernel, fun h => ?_⟩
  have hforth := h.forth (Nat.lt_succ_self 3) (Conclusion.ended_of_faultKind? happly)
  have hsame := happly.symm.trans (hforth.faultKind?_eq.trans hcall)
  cases hsame

end Lisp
