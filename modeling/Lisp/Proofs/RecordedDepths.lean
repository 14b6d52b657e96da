/-
# The ellipses that a variable takes

A rule is used with two tables: the captures of the match, and the depths that the pattern records
for their names.  Both have the same names, and substitution trusts that they agree: `sub ...` goes
through the list that a variable stands for as long as the number recorded for it is not zero.

For a name whose two entries agree (`Pattern.capturedDepths`) it is right to do so
(`TemplateContext.Repeated.carries`).  In every context that the template is instantiated in, the
number has come down by one for every repetition of something that mentions the variable, and the
variable stands there for a capture with just as many ellipses to go.  So it takes as many ellipses
as recorded: it drives the repetitions around it up to that number and none inside them.

A name that is written twice, under an ellipsis and behind it, has entries that do not agree.
-/
import Lisp.Proofs.Substitution
import Lisp.Proofs.ExpansionFaults

namespace Lisp

open Effect Template

variable {c c' : TemplateContext} {sub : Value} {x : String}

/-! ## 1. One repetition -/

/-- **The columns of a repetition** are the elements of the values in use. -/
theorem elements_of_columns {names : List String} {length : Option Nat} {s s' : Store}
    {lists : List (List Value)} (h : columns c sub length names s = .ok lists s') :
    List.Forall₂ (fun name list => ∀ value, c.bound.find? name = some value →
      list = value.elements) names lists := by
  induction names generalizing length s lists with
  | nil =>
    cases h
    exact .nil
  | cons name names ih =>
    rw [columns] at h
    cases hvalue : c.lookup name s with
    | error _ s₁ =>
      rw [bind_of_error hvalue] at h
      cases h
    | ok value s₁ =>
      rw [bind_of_ok hvalue] at h
      split at h
      · cases h
      · cases hothers : columns c sub (some value.elements.length) names s₁ with
        | error _ s₂ =>
          rw [bind_of_error hothers] at h
          cases h
        | ok others s₂ =>
          rw [bind_of_ok hothers] at h
          cases h
          refine .cons (fun bound hbound => ?_) (ih hothers)
          rw [TemplateContext.lookup, hbound] at hvalue
          cases hvalue
          rfl

/-- Two rows that go with a third. -/
theorem forall₂_trans {α β γ : Type} {R : α → β → Prop} {S : β → γ → Prop} {as : List α}
    {bs : List β} {cs : List γ} (h : List.Forall₂ R as bs) (h' : List.Forall₂ S bs cs) :
    List.Forall₂ (fun a c => ∃ b, R a b ∧ S b c) as cs := by
  induction h generalizing cs with
  | nil =>
    cases h'
    exact .nil
  | cons hab _ ih =>
    cases h' with
    | cons hbc h' => exact .cons ⟨_, hab, hbc⟩ (ih h')

/-- **In a repetition each driving variable stands for an element** of what it stands for
outside. -/
theorem exists_elements_of_expandRepetition {contexts : List TemplateContext} {s s' : Store}
    (h : expandRepetition c sub s = .ok contexts s') (hc' : c' ∈ contexts) :
    ∃ values, c' = c.repetition (driving c sub) values ∧
      List.Forall₂ (fun name element => ∀ value, c.bound.find? name = some value →
        element ∈ value.elements) (driving c sub) values := by
  unfold expandRepetition at h
  dsimp only at h
  split at h
  · cases h
  · cases hcolumns : columns c sub none (driving c sub) s with
    | error _ s₁ =>
      rw [bind_of_error hcolumns] at h
      cases h
    | ok lists s₁ =>
      rw [bind_of_ok hcolumns] at h
      cases h
      have hindexed := mapM_eq_some_iff.mp (mapM_repetitionAt?_of_columns hcolumns)
      obtain ⟨index, hindex⟩ := exists_of_mem_forall₂ hindexed hc'
      obtain ⟨values, hvalues, rfl⟩ := Option.map_eq_some_iff.mp hindex
      refine ⟨values, rfl, ?_⟩
      refine (forall₂_trans (elements_of_columns hcolumns) (mapM_eq_some_iff.mp hvalues)).imp ?_
      rintro name element ⟨list, hlist, helement⟩ value hvalue
      rw [← hlist value hvalue]
      exact List.mem_of_getElem? helement

/-- Names and what goes with each, looked up. -/
theorem lookup_zip {names : List String} {values : List Value} {R : String → Value → Prop}
    (h : List.Forall₂ R names values) (x : String) :
    (∃ value, (names.zip values).lookup x = some value ∧ x ∈ names ∧ R x value) ∨
      ((names.zip values).lookup x = none ∧ x ∉ names) := by
  induction h with
  | nil => exact .inr ⟨rfl, List.not_mem_nil⟩
  | @cons name value names values hvalue _ ih =>
    by_cases hx : x = name
    · subst hx
      exact .inl ⟨value, by simp, List.mem_cons_self, hvalue⟩
    · simpa [List.lookup_cons, beq_false_of_ne hx, hx] using ih

/-! ## 2. What a variable stands for, and how deep -/

/-- **A capture so many rows inside of another.** -/
inductive Capture.Inside (outer : Capture) : Nat → Capture → Prop where
  | itself : Inside outer 0 outer
  | item {level items item} (h : Inside outer level (.many items)) (hitem : item ∈ items) :
    Inside outer (level + 1) item

/-- An element of the value of a row is the value of one of its captures. -/
theorem Capture.Inside.exists_item {outer capture : Capture} {level depth : Nat}
    {value element : Value} (h : outer.Inside level capture) (hbare : value.bare = capture.bare)
    (hdepth : capture.HasDepth (depth + 1)) (helement : element ∈ value.elements) :
    ∃ item : Capture, element.bare = item.bare ∧ outer.Inside (level + 1) item ∧
      item.HasDepth depth := by
  cases hdepth with
  | @many items _ hitems =>
    have helements : value.elements.map Value.bare = items.map Capture.bare := by
      rw [← Value.elements_bare, hbare, Capture.bare, Capture.allBare_eq_map,
        Value.elements_chain_nil]
    have hmem : element.bare ∈ items.map Capture.bare :=
      helements ▸ List.mem_map_of_mem helement
    obtain ⟨item, hitem, heq⟩ := List.mem_map.mp hmem
    exact ⟨item, heq.symm, h.item hitem, hitems item hitem⟩

namespace TemplateContext

theorem lookup_depths_repetition (c : TemplateContext) (names : List String) (values : List Value)
    (x : String) : (c.repetition names values).depths.lookup x =
      (c.depths.lookup x).map fun depth => if names.contains x then depth - 1 else depth :=
  lookup_map_depths c.depths (fun name depth => if names.contains name then depth - 1 else depth) x

theorem find?_bound_repetition (c : TemplateContext) (names : List String) (values : List Value)
    (x : String) : (c.repetition names values).bound.find? x =
      ((names.zip values).lookup x).or (c.bound.find? x) :=
  List.lookup_append

/-- **The variable stands for a capture**, made into a value, that is so many rows inside of
`outer` and has as many ellipses to go as the number of the variable says. -/
structure CarriesAt (c : TemplateContext) (x : String) (outer : Capture) (level depth : Nat) :
    Prop where
  recorded : c.depths.lookup x = some depth
  carried : ∃ (value : Value) (capture : Capture), c.bound.find? x = some value ∧
    value.bare = capture.bare ∧ outer.Inside level capture ∧ capture.HasDepth depth

namespace CarriesAt

variable {outer : Capture} {level depth : Nat}

/-- **It drives a repetition of what mentions it** as long as it has an ellipsis to go. -/
theorem mem_driving_iff (h : c.CarriesAt x outer level depth) :
    x ∈ driving c sub ↔ sub.Mentions x ∧ 0 < depth := by
  simp [driving, List.mem_filter, Value.mem_symbols_iff, h.recorded]

/-- **It is what a template of its name becomes.** -/
theorem instantiateLeaf (h : c.CarriesAt x outer level depth) :
    ∃ (value : Value) (capture : Capture),
      (∀ leaf : Value, leaf.symbol? = some x → Template.instantiateLeaf c leaf = pure value) ∧
      value.bare = capture.bare ∧ outer.Inside level capture ∧ capture.HasDepth depth := by
  obtain ⟨value, capture, hbound, hcapture⟩ := h.carried
  refine ⟨value, capture, fun leaf hleaf => ?_, hcapture⟩
  simp [Template.instantiateLeaf, hleaf, h.recorded, TemplateContext.lookup, hbound]

/-- **A repetition takes an ellipsis off the variables that drive it.** -/
theorem repetition_of_mem (h : c.CarriesAt x outer level depth) {contexts : List TemplateContext}
    {s s' : Store} (hrun : expandRepetition c sub s = .ok contexts s') (hc' : c' ∈ contexts)
    (hx : x ∈ driving c sub) : c'.CarriesAt x outer (level + 1) (depth - 1) := by
  obtain ⟨values, rfl, hvalues⟩ := exists_elements_of_expandRepetition hrun hc'
  obtain ⟨value, capture, hbound, hbare, hinside, hdepth⟩ := h.carried
  obtain ⟨next, rfl⟩ : ∃ next, depth = next + 1 :=
    Nat.exists_eq_add_one.mpr (h.mem_driving_iff.mp hx).2
  rcases lookup_zip hvalues x with ⟨element, hlookup, -, helement⟩ | ⟨-, hnot⟩
  · obtain ⟨item, hitem, hrow, hdeep⟩ := hinside.exists_item hbare hdepth (helement value hbound)
    refine ⟨?_, element, item, ?_, hitem, hrow, hdeep⟩
    · simp [lookup_depths_repetition, h.recorded, hx]
    · simp [find?_bound_repetition, hlookup]
  · exact absurd hx hnot

/-- **It leaves the others as they are.** -/
theorem repetition_of_not_mem (h : c.CarriesAt x outer level depth)
    {contexts : List TemplateContext} {s s' : Store}
    (hrun : expandRepetition c sub s = .ok contexts s') (hc' : c' ∈ contexts)
    (hx : x ∉ driving c sub) : c'.CarriesAt x outer level depth := by
  obtain ⟨values, rfl, hvalues⟩ := exists_elements_of_expandRepetition hrun hc'
  obtain ⟨value, capture, hbound, hcapture⟩ := h.carried
  rcases lookup_zip hvalues x with ⟨_, -, hmem, -⟩ | ⟨hlookup, -⟩
  · exact absurd hmem hx
  · refine ⟨?_, value, capture, ?_, hcapture⟩
    · simp [lookup_depths_repetition, h.recorded, hx]
    · simp [find?_bound_repetition, hlookup, hbound]

end CarriesAt

/-! ## 3. Under any number of ellipses -/

/-- **A context that the template is instantiated in**, after this many repetitions of something
that mentions the name, one in the other, and any number of others. -/
inductive Repeated (start : TemplateContext) (x : String) : Nat → TemplateContext → Prop where
  | start : Repeated start x 0 start
  | about {count c c' sub contexts s s'} (h : Repeated start x count c) (hx : sub.Mentions x)
    (hrun : expandRepetition c sub s = .ok contexts s') (hc' : c' ∈ contexts) :
    Repeated start x (count + 1) c'
  | other {count c c' sub contexts s s'} (h : Repeated start x count c) (hx : ¬ sub.Mentions x)
    (hrun : expandRepetition c sub s = .ok contexts s') (hc' : c' ∈ contexts) :
    Repeated start x count c'

/-- **Every ellipsis around a variable is one less to go**, down to none. -/
theorem Repeated.carriesAt {start : TemplateContext} {outer : Capture} {count depth : Nat}
    (h : start.Repeated x count c) (hstart : start.CarriesAt x outer 0 depth) :
    c.CarriesAt x outer (min count depth) (depth - count) := by
  induction h with
  | start => rwa [Nat.zero_min]
  | @about count c c' sub contexts s s' _ hx hrun hc' ih =>
    by_cases hmem : x ∈ driving c sub
    · have hlt : 0 < depth - count := (ih.mem_driving_iff.mp hmem).2
      have hlevel : min (count + 1) depth = min count depth + 1 := by omega
      rw [hlevel, ← Nat.sub_sub]
      exact ih.repetition_of_mem hrun hc' hmem
    · -- with none to go, there is none to take off
      have hle : depth ≤ count := by
        by_contra hlt
        exact hmem (ih.mem_driving_iff.mpr ⟨hx, by omega⟩)
      have hlevel : min (count + 1) depth = min count depth := by omega
      have hdepth : depth - (count + 1) = depth - count := by omega
      rw [hlevel, hdepth]
      exact ih.repetition_of_not_mem hrun hc' hmem
  | @other count c c' sub contexts s s' _ hx hrun hc' ih =>
    exact ih.repetition_of_not_mem hrun hc' fun hmem => hx (ih.mem_driving_iff.mp hmem).1

/-- **The variable takes this many ellipses** in a template that is instantiated here.  After any
number of repetitions of something that mentions it, it stands for a capture as many rows inside of
what it captured, it has so many less to go, by the table and for that capture, and it drives
another one just if there are any to go. -/
def Takes (start : TemplateContext) (x : String) (outer : Capture) (depth : Nat) : Prop :=
  ∀ count c, start.Repeated x count c →
    c.depths.lookup x = some (depth - count) ∧
    (∃ (value : Value) (capture : Capture),
      (∀ leaf : Value, leaf.symbol? = some x → instantiateLeaf c leaf = pure value) ∧
      value.bare = capture.bare ∧ outer.Inside (min count depth) capture ∧
      capture.HasDepth (depth - count)) ∧
    ∀ sub : Value, sub.Mentions x → (x ∈ driving c sub ↔ count < depth)

theorem CarriesAt.takes {start : TemplateContext} {outer : Capture} {depth : Nat}
    (h : start.CarriesAt x outer 0 depth) : start.Takes x outer depth := by
  intro count c hc
  have hcarries := hc.carriesAt h
  refine ⟨hcarries.recorded, hcarries.instantiateLeaf, fun sub hx => ?_⟩
  rw [hcarries.mem_driving_iff, and_iff_right hx, Nat.sub_pos_iff_lt]

end TemplateContext

/-! ## 4. A rule in use -/

namespace Pattern

variable {p : Pattern} {args : Value} {captures : Captures} {capture : Capture}

theorem isSome_find?_iff_recorded (h : p.match? args = some captures) (x : String) :
    (captures.find? x).isSome ↔ ((p.depths 0).lookup x).isSome := by
  rw [isSome_find?_of_match? h, isSome_lookup_iff, names]

/-- **What is captured has the depth that the table in the order of the matcher records.** -/
theorem lookup_capturedDepths_of_find? (h : p.match? args = some captures)
    (hcapture : captures.find? x = some capture) :
    ∃ e, (p.capturedDepths 0).lookup x = some e ∧ capture.HasDepth e := by
  have hdeep := runDeep_of_match? h 0 x
  rw [hcapture] at hdeep
  cases he : (p.capturedDepths 0).lookup x with
  | none =>
    rw [he] at hdeep
    cases hdeep
  | some e =>
    rw [he] at hdeep
    cases hdeep with
    | some hdeep => exact ⟨e, rfl, hdeep.2⟩

/-- **The context of a rule in use** carries what a variable captured, where both tables have the
same number for it. -/
theorem carriesAt_of_match? (h : p.match? args = some captures)
    (hcapture : captures.find? x = some capture) {e : Nat}
    (hrecorded : (p.depths 0).lookup x = some e)
    (hcaptured : (p.capturedDepths 0).lookup x = some e) (s : Store) (scope : Scope) :
    TemplateContext.CarriesAt ⟨(captures.toBindings s).1, p.depths 0, scope⟩ x capture 0 e := by
  obtain ⟨e', he', hdeep⟩ := lookup_capturedDepths_of_find? h hcapture
  obtain rfl : e = e' := Option.some.inj (hcaptured.symm.trans he')
  refine ⟨hrecorded, ?_⟩
  rcases lookup_of_forall₂ (R := fun _ (v : Value) (c : Capture) => v.bare = c.bare)
      (forall₂_toBindings captures s) x with
    ⟨value, outer, hvalue, houter, -, hbare⟩ | ⟨-, hnone, -⟩
  · obtain rfl : capture = outer := Option.some.inj (hcapture.symm.trans houter)
    exact ⟨value, capture, hvalue, hbare, .itself, hdeep⟩
  · exact absurd (hcapture.symm.trans hnone) nofun

end Pattern

/-- **Captures have the depth recorded for them where the two tables agree.**  The names captured
are those in the table of the pattern, and every capture has the depth that the table in the order
of the matcher has for its name.  That is the one recorded if all places of the name are equally
deep, and whenever it is, the variable takes that many ellipses in a template. -/
theorem captures_as_deep_as_recorded {p : Pattern} {args : Value} {captures : Captures}
    (h : p.match? args = some captures) (x : String) :
    ((captures.find? x).isSome ↔ ((p.depths 0).lookup x).isSome) ∧
    ((∀ e e', (x, e) ∈ p.depths 0 → (x, e') ∈ p.depths 0 → e = e') →
      (p.capturedDepths 0).lookup x = (p.depths 0).lookup x) ∧
    ∀ capture, captures.find? x = some capture →
      ∃ e, (p.capturedDepths 0).lookup x = some e ∧ capture.HasDepth e ∧
        ((p.depths 0).lookup x = some e → ∀ s scope,
          TemplateContext.Takes ⟨(captures.toBindings s).1, p.depths 0, scope⟩ x capture e) := by
  refine ⟨Pattern.isSome_find?_iff_recorded h x, Pattern.lookup_capturedDepths,
    fun capture hcapture => ?_⟩
  obtain ⟨e, hcaptured, hdeep⟩ := Pattern.lookup_capturedDepths_of_find? h hcapture
  exact ⟨e, hcaptured, hdeep, fun hrecorded s scope =>
    (Pattern.carriesAt_of_match? h hcapture hrecorded hcaptured s scope).takes⟩

/-- In a use of this macro the variable `y` captures the row of one element in the first repetition
and an empty row in the second.  It takes two ellipses. -/
theorem captures_as_deep_as_recorded_nested :
    ∃ t rule captures capture, Transformer.ofBody nestedRules = .ok t ∧ t.rules = [rule] ∧
      rule.pattern.match? (.chain [.chain [.nil, .nil] .nil, .chain [.nil] .nil, .nil] .nil) =
        some captures ∧
      captures.find? "y" = some capture ∧ capture.HasDepth 2 ∧
      ∀ s scope, TemplateContext.Takes ⟨(captures.toBindings s).1, rule.pattern.depths 0, scope⟩
        "y" capture 2 := by
  obtain ⟨t, rule, captures, capture, ht, hrules, hmatch, hcapture, hrecorded, hcaptured⟩ :
      ∃ t rule captures capture, Transformer.ofBody nestedRules = .ok t ∧ t.rules = [rule] ∧
        rule.pattern.match? (.chain [.chain [.nil, .nil] .nil, .chain [.nil] .nil, .nil] .nil) =
          some captures ∧
        captures.find? "y" = some capture ∧ (rule.pattern.depths 0).lookup "y" = some 2 ∧
        (rule.pattern.capturedDepths 0).lookup "y" = some 2 :=
    ⟨_, _, _, _, rfl, rfl, rfl, rfl, rfl, rfl⟩
  obtain ⟨-, -, hall⟩ := captures_as_deep_as_recorded hmatch "y"
  obtain ⟨e, he, hdeep, htakes⟩ := hall capture hcapture
  obtain rfl : 2 = e := Option.some.inj (hcaptured.symm.trans he)
  exact ⟨t, rule, captures, capture, ht, hrules, hmatch, hcapture, hdeep, htakes hrecorded⟩

/-- What follows the word `syntax-rules` in
`(syntax-rules () ((_ #t a ... a) (a ...)) ((_ #f a ... a) (a)))`, with `#t` and `#f` as objects 1
and 2. -/
def doubleRules : Value :=
  let symbol (name : String) : Value := .atom 0 (.symbol name)
  let pattern (id : Nat) (value : Bool) : Value :=
    .chain [symbol "_", .atom id (.boolean value), symbol "a", symbol "...", symbol "a"] .nil
  .chain
    [.nil,
      .chain [pattern 1 true, .chain [symbol "a", symbol "..."] .nil] .nil,
      .chain [pattern 2 false, .chain [symbol "a"] .nil] .nil] .nil

/-- The arguments `1 2 3` of a use of this macro, after the one that selects the rule. -/
def doubleUse (value : Bool) : Value :=
  .chain [.atom 0 (.boolean value), .atom 0 (.integer 1), .atom 0 (.integer 2),
    .atom 0 (.integer 3)] .nil

/-- **A name that is written twice can capture a row and be recorded for none.**  The table keeps
the place behind the ellipsis, the match the one under it: the variable cannot be repeated, and
stands for the row of what it captured. -/
theorem captured_deeper_than_recorded :
    ∃ t rule other captures capture, Transformer.ofBody doubleRules = .ok t ∧
      t.rules = [rule, other] ∧ rule.pattern.match? (doubleUse true) = some captures ∧
      (rule.pattern.depths 0).lookup "a" = some 0 ∧ captures.find? "a" = some capture ∧
      ¬ capture.HasDepth 0 ∧
      (∃ s, Effect.expand doubleRules (.ofRoot 0) (doubleUse true) .empty =
        .error (.failed ⟨.rules (.noEllipsisVariable (.atom 0 (.symbol "a"))), []⟩) s) ∧
      ∃ v s, Effect.expand doubleRules (.ofRoot 0) (doubleUse false) .empty = .ok v s ∧
        v.bare = .chain [.chain [.atom 0 (.integer 1), .atom 0 (.integer 2)] .nil] .nil :=
  ⟨_, _, _, _, _, rfl, rfl, rfl, rfl, rfl, nofun, ⟨_, rfl⟩, _, _, by rfl, by rfl⟩

end Lisp
