/-
# The frame of a match

While a template is instantiated, the variables of the pattern are bound in the frame of the match
or in that of a repetition inside it.  Matching captures something for every name of the pattern,
also where an ellipsis matched nothing, and a repetition binds names anew without unbinding any
(`TemplateContext.Covered`).  So a variable is never looked up in the scope of the definition,
though `TemplateContext.lookup` would go on there, and find a global binding of that name if there
were one.

The other symbols of a template are looked up in the inner frames of that scope only.  So expanding
does not read the global frame at all (`expand_withFrames`).
-/
import Lisp.Proofs.Resolution

namespace Lisp

/-! ## 1. Contexts in which the variables are bound -/

/-- **Every variable of the pattern is bound in the frame of the match**, or in that of a
repetition inside it. -/
structure TemplateContext.Covered (scope : Scope) (c : TemplateContext) : Prop where
  scope_eq : c.scope = scope
  bound : ∀ name, (c.depths.lookup name).isSome → (c.bound.find? name).isSome

namespace TemplateContext

variable {scope : Scope} {c c' : TemplateContext} {name : String}

theorem Covered.repetition (h : c.Covered scope) (names : List String) (values : List Value) :
    (c.repetition names values).Covered scope :=
  ⟨h.scope_eq, isSome_find?_repetition h.bound⟩

/-- **A variable is found in the frame of the match.** -/
theorem Covered.lookup (h : c.Covered scope) (hname : (c.depths.lookup name).isSome) :
    ∃ value, c.bound.find? name = some value ∧ c.lookup name = pure value := by
  obtain ⟨value, hvalue⟩ := Option.isSome_iff_exists.mp (h.bound name hname)
  exact ⟨value, hvalue, by rw [TemplateContext.lookup, hvalue]⟩

theorem mem_repetitions {names : List String} {count : Nat} {columns : List (List Value)}
    (h : c' ∈ c.repetitions names count columns) : ∃ values, c' = c.repetition names values := by
  induction count generalizing columns with
  | zero => cases h
  | succ count ih =>
    rcases List.mem_cons.mp h with rfl | h
    · exact ⟨_, rfl⟩
    · exact ih h

end TemplateContext

/-- **What a match captured covers the names of the pattern.** -/
theorem covered_of_match? {p : Pattern} {v : Value} {captures : Captures}
    (h : p.match? v = some captures) (s : Store) (scope : Scope) :
    (⟨(captures.toBindings s).1, p.depths 0, scope⟩ : TemplateContext).Covered scope :=
  ⟨rfl, Pattern.isSome_find?_toBindings h s⟩

namespace Template

open Effect

/-- **Every context of `sub ...`** binds the variables of `sub` that have an ellipsis to go. -/
theorem exists_repetition_of_expandRepetition {c c' : TemplateContext} {sub : Value}
    {contexts : List TemplateContext} {s s' : Store}
    (h : expandRepetition c sub s = .ok contexts s') (hc' : c' ∈ contexts) :
    ∃ values, c' = c.repetition (driving c sub) values := by
  unfold expandRepetition at h
  dsimp only at h
  split at h
  · cases h
  · cases hcolumns : columns c sub none (driving c sub) s with
    | ok _ s₁ =>
      rw [bind_of_ok hcolumns] at h
      cases h
      exact TemplateContext.mem_repetitions hc'
    | error _ s₁ =>
      rw [bind_of_error hcolumns] at h
      cases h

/-! ## 2. Templates in covered contexts, step by step -/

/-- **What can be wrong with a repetition.** -/
inductive RepetitionFault : Fault → Prop where
  | unequalRepetitions (sub : Value) : RepetitionFault (.unequalRepetitions sub)
  | noEllipsisVariable (sub : Value) : RepetitionFault (.rules (.noEllipsisVariable sub))

/-- **The steps that instantiate a template are of this kind when its variables are bound.**  The
scope is only read past its global frame.  What follows an effect need be of the kind only for
results that the effect can have. -/
structure CoveredStepsAre (scope : Scope) (P : ∀ {α : Type}, Effect α → Prop) : Prop where
  pure : ∀ {α : Type} (a : α), P (pure a : Effect α)
  bind : ∀ {α β : Type} {effect : Effect α} {next : α → Effect β}, P effect →
    (∀ s a s', effect s = .ok a s' → P (next a)) → P (effect >>= next)
  readLocal : ∀ {α : Type} (name : String) {next : Store → Effect α},
    (∀ s t : Store, s.lookupLocal? scope name = t.lookupLocal? scope name → next s = next t) →
    (∀ s, P (next s)) → P (get >>= next)
  fail : ∀ {α : Type} {fault : Fault}, RepetitionFault fault → P (fail fault : Effect α)
  record : ∀ e, P (record e)
  toBindings : ∀ captures : Captures, P (modifyGet captures.toBindings : Effect Bindings)
  newQuote : ∀ v, P (modifyGet (·.newQuote v) : Effect Value)
  finish : ∀ template items ending, P (finish template items ending)

namespace CoveredStepsAre

variable {scope : Scope} {P : ∀ {α : Type}, Effect α → Prop} (h : CoveredStepsAre scope P)
  {c : TemplateContext}

include h

theorem mapM {α β : Type} {f : α → Effect β} {as : List α} (hf : ∀ a ∈ as, P (f a)) :
    P (as.mapM f) := by
  induction as with
  | nil =>
    rw [List.mapM_nil]
    exact h.pure _
  | cons a as ih =>
    rw [List.mapM_cons]
    have hrest := ih fun b hb => hf b (List.mem_cons_of_mem _ hb)
    exact h.bind (hf a List.mem_cons_self) fun _ _ _ _ => h.bind hrest fun _ _ _ _ => h.pure _

theorem lookup (hc : c.Covered scope) {name : String} (hname : (c.depths.lookup name).isSome) :
    P (c.lookup name) := by
  obtain ⟨value, -, hlookup⟩ := hc.lookup hname
  rw [hlookup]
  exact h.pure value

theorem instantiateLeaf (hc : c.Covered scope) (template : Value) :
    P (instantiateLeaf c template) := by
  unfold Template.instantiateLeaf
  split
  · exact h.pure _
  · next name _ =>
    split
    · next hname => exact h.lookup hc hname
    · refine h.readLocal name (fun s t hsame => ?_) fun s => ?_
      · simp only [TemplateContext.lookupLocal?, hc.scope_eq, hsame]
      · split
        · exact h.pure _
        · refine h.bind (h.record _) fun _ _ _ _ => ?_
          unfold embed
          split
          · exact h.newQuote _
          · exact h.pure _

theorem columns (hc : c.Covered scope) (sub : Value) {names : List String}
    (hnames : ∀ name ∈ names, (c.depths.lookup name).isSome) :
    ∀ length, P (columns c sub length names) := by
  induction names with
  | nil => exact fun _ => h.pure _
  | cons name names ih =>
    intro length
    have hrest := ih fun other hother => hnames other (List.mem_cons_of_mem _ hother)
    refine h.bind (h.lookup hc (hnames name List.mem_cons_self)) fun _ value _ _ => ?_
    dsimp only
    split
    · exact h.fail (.unequalRepetitions sub)
    · exact h.bind (hrest _) fun _ _ _ _ => h.pure _

theorem expandRepetition (hc : c.Covered scope) (sub : Value) : P (expandRepetition c sub) := by
  unfold Template.expandRepetition
  dsimp only
  split
  · exact h.fail (.noEllipsisVariable sub)
  · refine h.bind (h.columns hc sub (fun _ hname => covered_of_mem_driving hname) none)
      fun _ _ _ _ => ?_
    exact h.bind (h.record _) fun _ _ _ _ => h.pure _

theorem instantiateElement (hc : c.Covered scope) (template : Value)
    {asList : Effect (List Value × Value)} (hlist : P asList) :
    P (instantiateElement c template asList) := by
  unfold Template.instantiateElement
  split
  · split
    · exact h.pure _
    · exact h.bind hlist fun _ _ _ _ => h.finish _ _ _
  · exact h.instantiateLeaf hc _

theorem instantiateList (template : Value) {c : TemplateContext} (hc : c.Covered scope) :
    P (instantiateList template c) := by
  match template with
  | .nil => exact h.pure _
  | .pair id head tail =>
    have hhead : ∀ {c}, c.Covered scope →
        P (Template.instantiateElement c head (Template.instantiateList head c)) :=
      fun hc => h.instantiateElement hc head (instantiateList head hc)
    cases htail : tail.afterEllipsis? with
    | some after =>
      have hsize := Value.sizeOf_afterEllipsis? htail
      rw [instantiateList_repeated htail]
      refine h.bind (h.expandRepetition hc head) fun s contexts s' hrun => ?_
      -- the variables are bound in every repetition too
      have hcontexts : ∀ c' ∈ contexts, c'.Covered scope := fun c' hc' => by
        obtain ⟨values, rfl⟩ := exists_repetition_of_expandRepetition hrun hc'
        exact hc.repetition _ values
      refine h.bind (h.mapM fun c' hc' => hhead (hcontexts c' hc')) fun _ _ _ _ => ?_
      exact h.bind (instantiateList after hc) fun _ _ _ _ => h.pure _
    | none =>
      rw [instantiateList_item htail]
      refine h.bind (hhead hc) fun _ _ _ _ => ?_
      exact h.bind (instantiateList tail hc) fun _ _ _ _ => h.pure _
  | .atom .. | .procedure .. | .transformer .. | .formMarker .. | .hostMarker .. =>
    rw [instantiateList_indivisible ⟨rfl, rfl⟩]
    exact h.bind (h.instantiateLeaf hc _) fun _ _ _ _ => h.pure _
termination_by sizeOf template

theorem ruleInstantiate {rule : Rule} {args : Value} {captures : Captures}
    (hmatch : rule.pattern.match? args = some captures) :
    P (rule.instantiate scope args captures) := by
  refine h.bind (h.toBindings captures) fun s bound s' hbound => ?_
  cases hbound
  have hc := covered_of_match? hmatch s scope
  refine h.bind (h.instantiateElement hc _ (h.instantiateList _ hc)) fun _ _ _ _ => ?_
  exact h.bind (h.record _) fun _ _ _ _ => h.pure _

/-- **Expanding a use** takes these steps, or fails because no rule matches. -/
theorem expandRules {args : Value} (hfail : P (Effect.fail (.noRuleMatched args) : Effect Value))
    (rules : List Rule) : P (Transformer.expand scope args rules) := by
  induction rules with
  | nil => exact hfail
  | cons rule rest ih =>
    unfold Transformer.expand
    split
    · exact ih
    · next hmatch => exact h.ruleInstantiate hmatch

end CoveredStepsAre

end Template

/-! ## 3. Effects that read a few frames -/

/-- **The same store with other frames.** -/
def Store.withFrames (s : Store) (frames : Array Bindings) : Store :=
  { s with frames := frames }

/-- **In each of these frames a name has the same value as in the other frame of its number.** -/
def Store.AgreesOn (s : Store) (frames : Array Bindings) (numbers : List Nat) : Prop :=
  ∀ f ∈ numbers, ∀ name, ((s.withFrames frames).bindings f).find? name = (s.bindings f).find? name

theorem Store.AgreesOn.findIn?_eq {s : Store} {frames : Array Bindings} {numbers : List Nat}
    (h : s.AgreesOn frames numbers) (name : String) :
    (s.withFrames frames).findIn? numbers name = s.findIn? numbers name := by
  simp only [Store.findIn?]
  induction numbers with
  | nil => rfl
  | cons f numbers ih =>
    rw [List.findSome?_cons, List.findSome?_cons, h f List.mem_cons_self,
      ih fun g hg => h g (List.mem_cons_of_mem _ hg)]

namespace Effect

variable {α β : Type} {numbers : List Nat}

/-- **The same result and the same failure**, in a store with other frames. -/
def resultWithFrames (frames : Array Bindings) :
    EStateM.Result Stop Store α → EStateM.Result Stop Store α
  | .ok a s => .ok a (s.withFrames frames)
  | .error stop s => .error stop (s.withFrames frames)

/-- **The effect reads no frames but these, and leaves all frames as they are.** -/
structure ReadsOnly (numbers : List Nat) (effect : Effect α) : Prop where
  alike : ∀ s frames, s.AgreesOn frames numbers →
    effect (s.withFrames frames) = resultWithFrames frames (effect s)
  keeps : ∀ s a s', effect s = .ok a s' → s'.frames = s.frames

theorem readsOnly_modifyGet {f : Store → α × Store}
    (halike : ∀ s frames, f (s.withFrames frames) = ((f s).1, (f s).2.withFrames frames))
    (hkeeps : ∀ s, (f s).2.frames = s.frames) : ReadsOnly numbers (modifyGet f : Effect α) where
  alike s frames _ := by
    change EStateM.Result.ok (f (s.withFrames frames)).1 (f (s.withFrames frames)).2 = _
    rw [halike]
    rfl
  keeps s a s' hrun := by
    cases hrun
    exact hkeeps s

theorem readsOnly_fail (fault : Fault) : ReadsOnly numbers (fail fault : Effect α) where
  alike _ _ _ := rfl
  keeps _ _ _ hrun := by cases hrun

theorem ReadsOnly.bind {effect : Effect α} {next : α → Effect β} (h : ReadsOnly numbers effect)
    (hnext : ∀ s a s', effect s = .ok a s' → ReadsOnly numbers (next a)) :
    ReadsOnly numbers (effect >>= next) where
  alike s frames hframes := by
    have heffect := h.alike s frames hframes
    cases hrun : effect s with
    | ok a s' =>
      rw [hrun] at heffect
      rw [bind_of_ok heffect, bind_of_ok hrun]
      refine (hnext s a s' hrun).alike s' frames fun f hf name => ?_
      have hkept := h.keeps s a s' hrun
      simp only [Store.bindings, hkept]
      exact hframes f hf name
    | error stop s' =>
      rw [hrun] at heffect
      rw [bind_of_error heffect, bind_of_error hrun]
      rfl
  keeps s b s₂ hrun := by
    cases heffect : effect s with
    | ok a s₁ =>
      rw [bind_of_ok heffect] at hrun
      rw [(hnext s a s₁ heffect).keeps s₁ b s₂ hrun, h.keeps s a s₁ heffect]
    | error stop s₁ =>
      rw [bind_of_error heffect] at hrun
      cases hrun

end Effect

/-! ## 4. Making objects reads no frame -/

section WithFrames

variable (s : Store) (frames : Array Bindings)

theorem Store.newListWithTail_withFrames (items : List Value) (ending : Value) :
    (s.withFrames frames).newListWithTail items ending =
      ((s.newListWithTail items ending).1,
        (s.newListWithTail items ending).2.withFrames frames) := by
  induction items with
  | nil => rfl
  | cons item items ih =>
    rw [Store.newListWithTail, ih]
    rfl

theorem Store.newQuote_withFrames (v : Value) :
    (s.withFrames frames).newQuote v =
      ((s.newQuote v).1, (s.newQuote v).2.withFrames frames) := rfl

theorem Store.place_withFrames (v : Value) (span : Option Span) :
    (s.withFrames frames).place v span = (s.place v span).withFrames frames := by
  unfold Store.place
  split <;> rfl

mutual

theorem Capture.toValue_withFrames : ∀ (capture : Capture) (s : Store) (frames : Array Bindings),
    capture.toValue (s.withFrames frames) =
      ((capture.toValue s).1, (capture.toValue s).2.withFrames frames)
  | .one _, _, _ => rfl
  | .rest elements ending, s, frames => s.newListWithTail_withFrames frames elements ending
  | .many items, s, frames => by
    rw [Capture.toValue, Capture.toValues_withFrames items s frames]
    exact Store.newListWithTail_withFrames _ frames _ .nil

theorem Capture.toValues_withFrames :
    ∀ (items : List Capture) (s : Store) (frames : Array Bindings),
      toValues (s.withFrames frames) items =
        ((toValues s items).1, (toValues s items).2.withFrames frames)
  | [], _, _ => rfl
  | item :: items, s, frames => by
    rw [Capture.toValues, Capture.toValue_withFrames item s frames]
    dsimp only
    rw [Capture.toValues_withFrames items _ frames]
    rfl

end

theorem Captures.toBindings_withFrames (captures : Captures) :
    captures.toBindings (s.withFrames frames) =
      ((captures.toBindings s).1, (captures.toBindings s).2.withFrames frames) := by
  induction captures generalizing s with
  | nil => rfl
  | cons entry captures ih =>
    rw [Captures.toBindings, Capture.toValue_withFrames entry.2 s frames]
    dsimp only
    rw [ih]
    rfl

end WithFrames

/-! ## 5. The global frame -/

open Effect

/-- **The steps of a template read the inner frames of the scope only.** -/
theorem Template.readsOnly_steps (scope : Scope) :
    CoveredStepsAre scope (ReadsOnly scope.locals) where
  pure a := readsOnly_modifyGet (f := fun s => (a, s)) (fun _ _ => rfl) fun _ => rfl
  bind := .bind
  readLocal name next hsame hnext := by
    refine ⟨fun s frames hframes => ?_, fun s a s' hrun => (hnext s).keeps s a s' hrun⟩
    have hfound : (s.withFrames frames).lookupLocal? scope name = s.lookupLocal? scope name :=
      hframes.findIn?_eq name
    change next (s.withFrames frames) (s.withFrames frames) = _
    rw [hsame _ s hfound]
    exact (hnext s).alike s frames hframes
  fail _ := readsOnly_fail _
  record e := readsOnly_modifyGet (fun _ _ => rfl) fun _ => rfl
  toBindings captures := readsOnly_modifyGet
    (fun s frames => captures.toBindings_withFrames s frames)
    fun s => (captures.extends_toBindings s).frames
  newQuote v := readsOnly_modifyGet (fun s frames => s.newQuote_withFrames frames v)
    fun s => (s.extends_newQuote v).frames
  finish template items ending := by
    refine readsOnly_modifyGet (fun s frames => ?_) fun s =>
      ((s.extends_newListWithTail items ending).trans (Store.extends_place _ _ _)).frames
    rw [s.newListWithTail_withFrames frames items ending]
    dsimp only
    rw [Store.place_withFrames]
    rfl

/-- **Expanding a use does not depend on the global frame.**  In stores that agree on the inner
frames of the macro's scope, a use of it expands to the same, or fails in the same way. -/
theorem expand_withFrames (body args : Value) {scope : Scope} {s : Store} {frames : Array Bindings}
    (h : s.AgreesOn frames scope.locals) :
    Effect.expand body scope args (s.withFrames frames) =
      resultWithFrames frames (Effect.expand body scope args s) := by
  have hreads : ReadsOnly scope.locals (Effect.expand body scope args) := by
    unfold Effect.expand
    split
    · exact readsOnly_fail _
    · exact (Template.readsOnly_steps scope).expandRules (readsOnly_fail _) _
  exact hreads.alike s frames h

/-- What follows the word `syntax-rules` in `(syntax-rules () ((_ x ...) (f y (x x) ...)))`. -/
def pairingRules : Value :=
  let symbol (name : String) : Value := .atom 0 (.symbol name)
  .chain
    [.nil,
      .chain
        [.chain [symbol "_", symbol "x", symbol "..."] .nil,
          .chain [symbol "f", symbol "y", .chain [symbol "x", symbol "x"] .nil, symbol "..."] .nil]
        .nil] .nil

/-- Where an inner frame binds `f`, it is the same to a use of this macro whether the global frame
is empty or binds `x` and `y`. -/
theorem expand_pairingRules_withFrames :
    let s : Store := ⟨#[none], #[[], [("f", .nil)]], "", []⟩
    let frames : Array Bindings := #[[("x", pairingRules), ("y", .nil)], [("f", .nil)]]
    s.AgreesOn frames [1] ∧
      Effect.expand pairingRules ⟨[1], 0⟩ pairingRules (s.withFrames frames) =
        resultWithFrames frames (Effect.expand pairingRules ⟨[1], 0⟩ pairingRules s) := by
  intro s frames
  have hframes : s.AgreesOn frames [1] := fun f hf name => by
    rw [List.mem_singleton.mp hf]
    rfl
  exact ⟨hframes, expand_withFrames pairingRules pairingRules hframes⟩

end Lisp
