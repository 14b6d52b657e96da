/-
# Where the objects of an expansion were written

A template list becomes a new list, whose first pair is said to stand where the template list
stands.  What the variables captured goes into it as it is, and should keep its place in the use.

It does, but for one case.  Where every element of a template list before the dot is repeated, and
none of them even once (`Template.OnlyEnding`), there is no first pair, and the list is whatever the
template has after the dot: the part of the use that a variable captured, the value of a symbol in
an inner scope, or the symbol of the template itself.  It is this object that is then said to stand
where the template list stands (`expand_displaces_captured`), for the journal and for every error
that names it later.

All other objects that there were keep their places, and those that were made meanwhile have none
or that of a list of the template (`span?_after_expand`).  What the induction carries from step to
step is just this, compared with the store at the start (`Store.Placed`).
-/
import Lisp.Proofs.MatchFrame

namespace Lisp

open Effect

/-! ## 1. Places by number -/

namespace Store

/-- **Where the object of this number was written**, if it was made and has a place. -/
def spanAt (s : Store) (id : Nat) : Option Span :=
  (s.spans[id]?).getD none

variable {s : Store} {v : Value} {id : Nat}

theorem span?_eq_spanAt (h : v.id? = some id) : s.span? v = s.spanAt id := by
  rw [span?, h, spanAt]

theorem spanAt_of_size_le (h : s.spans.size ≤ id) : s.spanAt id = none := by
  rw [spanAt, Array.getElem?_eq_none h, Option.getD_none]

/-- **An object that is made without a place** changes no place. -/
@[simp] theorem spanAt_allocate_none (s : Store) (make : Nat → Value) (id : Nat) :
    (s.allocate make none).2.spanAt id = s.spanAt id := by
  simp only [allocate, spanAt, Array.getElem?_push]
  split
  · next h => simp [h]
  · rfl

@[simp] theorem spanAt_newListWithTail (s : Store) (items : List Value) (ending : Value)
    (id : Nat) : (s.newListWithTail items ending).2.spanAt id = s.spanAt id := by
  induction items with
  | nil => rfl
  | cons item items ih => exact (spanAt_allocate_none _ _ id).trans ih

@[simp] theorem spanAt_newQuote (s : Store) (v : Value) (id : Nat) :
    (s.newQuote v).2.spanAt id = s.spanAt id :=
  (spanAt_newListWithTail _ _ _ id).trans (spanAt_allocate_none s (.atom · (.symbol "quote")) id)

/-- **A list of at least one item is a new object.** -/
theorem le_of_id?_newListWithTail {items : List Value} {ending : Value} (hne : items ≠ [])
    (h : (s.newListWithTail items ending).1.id? = some id) : s.spans.size ≤ id := by
  cases items with
  | nil => exact absurd rfl hne
  | cons item items =>
    obtain rfl : (s.newListWithTail items ending).2.spans.size = id := Option.some.inj h
    exact (s.extends_newListWithTail items ending).spans

theorem le_of_id?_newQuote (h : (s.newQuote v).1.id? = some id) : s.spans.size ≤ id :=
  (s.extends_allocate (.atom · (.symbol "quote")) none).spans.trans
    (le_of_id?_newListWithTail (List.cons_ne_nil _ _) h)

mutual

theorem spanAt_toValue : ∀ (capture : Capture) (s : Store) (id : Nat),
    (capture.toValue s).2.spanAt id = s.spanAt id
  | .one _, _, _ => rfl
  | .rest elements ending, s, id => spanAt_newListWithTail s elements ending id
  | .many items, s, id => (spanAt_newListWithTail _ _ .nil id).trans (spanAt_toValues items s id)

theorem spanAt_toValues : ∀ (items : List Capture) (s : Store) (id : Nat),
    (Capture.toValues s items).2.spanAt id = s.spanAt id
  | [], _, _ => rfl
  | item :: items, s, id => (spanAt_toValues items _ id).trans (spanAt_toValue item s id)

end

@[simp] theorem spanAt_toBindings (s : Store) (captures : Captures) (id : Nat) :
    (captures.toBindings s).2.spanAt id = s.spanAt id := by
  induction captures generalizing s with
  | nil => rfl
  | cons entry captures ih => exact (ih _).trans (spanAt_toValue entry.2 s id)

theorem spanAt_place (s : Store) (span : Option Span) (h : v.id? = some id) (other : Nat) :
    (s.place v span).spanAt other = s.spanAt other ∨
      other = id ∧ (s.place v span).spanAt other = span := by
  simp only [place, h, spanAt, Array.getElem?_setIfInBounds]
  by_cases hid : id = other
  · subst hid
    by_cases hlt : id < s.spans.size
    · exact .inr ⟨rfl, by simp [hlt]⟩
    · exact .inl (by simp [hlt])
  · exact .inl (by simp [hid])

end Store

/-! ## 2. Lists that come to nothing before the dot -/

namespace Template

/-- **The value that an element stands for as it is**, if it is a list `(... x)`. -/
def escaped? : Value → Option Value
  | .pair _ head (.pair _ escaped _) => if head.isSymbolNamed ellipsis then some escaped else none
  | _ => none

/-- **An element of a template list**, and a context that it is instantiated in when the list is
instantiated in the first one. -/
inductive HasElement : TemplateContext → Value → TemplateContext → Value → Prop where
  | item {c id head tail} (htail : tail.afterEllipsis? = none) :
    HasElement c (.pair id head tail) c head
  | copy {c c' id head tail after contexts s s'} (htail : tail.afterEllipsis? = some after)
    (hrun : expandRepetition c head s = .ok contexts s') (hc' : c' ∈ contexts) :
    HasElement c (.pair id head tail) c' head
  | tail {c c' id head tail sub} (htail : tail.afterEllipsis? = none)
    (h : HasElement c tail c' sub) : HasElement c (.pair id head tail) c' sub
  | after {c c' id head tail after sub} (htail : tail.afterEllipsis? = some after)
    (h : HasElement c after c' sub) : HasElement c (.pair id head tail) c' sub

/-- **A part of a template that is instantiated**, and a context that it is instantiated in when the
template is instantiated in the first one. -/
inductive Reaches (start : TemplateContext) (template : Value) :
    TemplateContext → Value → Prop where
  | template : Reaches start template start template
  | element {c c' list sub} (h : Reaches start template c list) (hlist : escaped? list = none)
    (hsub : HasElement c list c' sub) : Reaches start template c' sub

/-- **Every element of the list is repeated, and none of them even once**, so that only what ends
it is left. -/
inductive OnlyEnding : TemplateContext → Value → Value → Prop where
  | ending {c v} (hv : v.isPair = false) : OnlyEnding c v v
  | repeated {c id head tail after ending s s'} (htail : tail.afterEllipsis? = some after)
    (hnone : expandRepetition c head s = .ok [] s') (h : OnlyEnding c after ending) :
    OnlyEnding c (.pair id head tail) ending

/-- **What a part of a template that is no pair stands for**: itself, or what it is bound to in the
frame of the match or in an inner scope. -/
def StandsFor (s : Store) (c : TemplateContext) (leaf v : Value) : Prop :=
  v = leaf ∨ ∃ name, leaf.symbol? = some name ∧ c.lookupLocal? s name = some v

/-- **The object stands after the dot of a template list that comes to nothing before it.** -/
def Displaces (s : Store) (start : TemplateContext) (template : Value) (id : Nat) : Prop :=
  ∃ c list leaf v, Reaches start template c list ∧ list.isPair ∧ OnlyEnding c list leaf ∧
    StandsFor s c leaf v ∧ v.id? = some id

/-- **The place is that of a list of the template.** -/
def PlaceOfList (s : Store) (start : TemplateContext) (template : Value) (span : Option Span) :
    Prop :=
  ∃ c list, Reaches start template c list ∧ list.isPair ∧ span = s.span? list

end Template

/-! ## 3. What one step changes -/

section Gives

variable {α β : Type} {I : Store → Prop} {P : α → Prop} {Q : β → Prop}

theorem Effect.Gives.bind {effect : Effect α} {next : α → Effect β} (h : effect.Gives I P)
    (hnext : ∀ a, P a → (next a).Gives I Q) : (effect >>= next).Gives I Q := by
  intro s b s₂ hs hrun
  cases heffect : effect s with
  | ok a s₁ =>
    rw [bind_of_ok heffect] at hrun
    obtain ⟨ha, hs₁⟩ := h s a s₁ hs heffect
    exact hnext a ha s₁ b s₂ hs₁ hrun
  | error stop s₁ =>
    rw [bind_of_error heffect] at hrun
    cases hrun

theorem Effect.gives_pure {a : α} (h : P a) : (pure a : Effect α).Gives I P := by
  rintro s _ _ hs ⟨⟩
  exact ⟨h, hs⟩

theorem Effect.Gives.keeps {effect : Effect α} (h : effect.Gives I P) : effect.Keeps I :=
  fun s a s₁ hs hrun => ⟨trivial, (h s a s₁ hs hrun).2⟩

theorem Effect.gives_get : (get : Effect Store).Gives I I := by
  rintro s _ _ hs ⟨⟩
  exact ⟨hs, hs⟩

theorem Effect.gives_mapM {R : α → β → Prop} {f : α → Effect β} {as : List α}
    (h : ∀ a ∈ as, (f a).Gives I (R a)) : (as.mapM f).Gives I (List.Forall₂ R as) := by
  induction as with
  | nil =>
    rw [List.mapM_nil]
    exact gives_pure .nil
  | cons a as ih =>
    rw [List.mapM_cons]
    refine (h a List.mem_cons_self).bind fun b hb => ?_
    refine (ih fun a' ha' => h a' (List.mem_cons_of_mem _ ha')).bind fun bs hbs => ?_
    exact gives_pure (.cons hb hbs)

end Gives

/-- **Compared with the store at the start**, the frames are the same, no object is gone, and each
has its place but for those that a template displaces and for new ones: these have the place of a
list of the template. -/
structure Store.Placed (s : Store) (start : TemplateContext) (template : Value) (t : Store) :
    Prop where
  grown : s.Extends t
  spanAt : ∀ id, t.spanAt id = s.spanAt id ∨
    (id < s.spans.size → Template.Displaces s start template id) ∧
      Template.PlaceOfList s start template (t.spanAt id)

namespace Store.Placed

variable {s t t' : Store} {start : TemplateContext} {template list : Value}

theorem refl (s : Store) (start : TemplateContext) (template : Value) :
    s.Placed start template s :=
  ⟨.refl s, fun _ => .inl rfl⟩

/-- **New objects without a place** make no difference. -/
theorem step (h : s.Placed start template t) (hextends : t.Extends t')
    (hspans : ∀ id, t'.spanAt id = t.spanAt id) : s.Placed start template t' := by
  refine ⟨h.grown.trans hextends, fun id => ?_⟩
  rw [hspans]
  exact h.spanAt id

/-- **A list of the template has its own place** or, if it was displaced itself, that of another. -/
theorem placeOfList (h : s.Placed start template t) {c : TemplateContext}
    (hreach : Template.Reaches start template c list) (hlist : list.isPair) :
    Template.PlaceOfList s start template (t.span? list) := by
  cases list with
  | pair id head tail =>
    have hspan : ∀ s : Store, s.span? (.pair id head tail) = s.spanAt id :=
      fun s => Store.span?_eq_spanAt rfl
    rcases h.spanAt id with hsame | ⟨-, hplace⟩
    · exact ⟨c, _, hreach, rfl, by rw [hspan, hspan, hsame]⟩
    · rwa [hspan]
  | _ => cases hlist

/-- **Giving an object the place of a list of the template**, if it is new or displaced. -/
theorem place (h : s.Placed start template t) {v : Value} {span : Option Span}
    (hv : ∀ id, v.id? = some id → id < s.spans.size → Template.Displaces s start template id)
    (hspan : Template.PlaceOfList s start template span) :
    s.Placed start template (t.place v span) := by
  refine ⟨h.grown.trans (t.extends_place v span), fun other => ?_⟩
  cases hid : v.id? with
  | none =>
    rw [Store.place, hid]
    exact h.spanAt other
  | some id =>
    rcases t.spanAt_place span hid other with hsame | ⟨rfl, hplaced⟩
    · rw [hsame]
      exact h.spanAt other
    · rw [hplaced]
      exact .inr ⟨hv other hid, hspan⟩

end Store.Placed

theorem Effect.keeps_record {s : Store} {start : TemplateContext} {template : Value} (e : Event) :
    (record e).Keeps (s.Placed start template) := by
  rintro t _ _ ht ⟨⟩
  exact ⟨trivial, ht.step (t.extends_record e) fun _ => rfl⟩

/-! ## 4. Templates, step by step -/

namespace Template

variable {s : Store} {start c : TemplateContext} {template : Value} {scope : Scope}
  {I : Store → Prop}

theorem keeps_lookup (c : TemplateContext) (name : String) : (c.lookup name).Keeps I := by
  unfold TemplateContext.lookup
  split
  · exact gives_pure trivial
  · refine gives_get.bind fun t _ => ?_
    split
    · exact gives_pure trivial
    · exact keeps_fail _

theorem keeps_columns (c : TemplateContext) (sub : Value) (names : List String) :
    ∀ length, (columns c sub length names).Keeps I := by
  induction names with
  | nil => exact fun _ => gives_pure trivial
  | cons name names ih =>
    intro length
    refine (keeps_lookup c name).bind fun value => ?_
    dsimp only
    split
    · exact keeps_fail _
    · exact (ih _).bind fun _ => gives_pure trivial

/-- **What a repetition comes to**: contexts that it can come to, and no object. -/
theorem gives_expandRepetition (c : TemplateContext) (sub : Value) :
    (expandRepetition c sub).Gives (s.Placed start template) fun contexts =>
      ∃ t t', expandRepetition c sub t = .ok contexts t' := by
  have hkeeps : (expandRepetition c sub).Keeps (s.Placed start template) := by
    unfold expandRepetition
    dsimp only
    split
    · exact keeps_fail _
    · refine (keeps_columns c sub _ none).bind fun lists => ?_
      exact (keeps_record _).bind fun _ => gives_pure trivial
  exact fun t contexts t' ht hrun => ⟨⟨t, t', hrun⟩, (hkeeps t contexts t' ht hrun).2⟩

/-- **What a leaf comes to** is what it stands for, or new. -/
theorem gives_instantiateLeaf (hc : c.Covered scope) (leaf : Value) :
    (instantiateLeaf c leaf).Gives (s.Placed start template) fun v =>
      ∀ id, v.id? = some id → id < s.spans.size → StandsFor s c leaf v := by
  unfold instantiateLeaf
  split
  · exact gives_pure fun _ _ _ => .inl rfl
  · next name hname =>
    split
    · next hdepth =>
      obtain ⟨value, hvalue, hlookup⟩ := hc.lookup hdepth
      rw [hlookup]
      refine gives_pure fun _ _ _ => .inr ⟨name, hname, ?_⟩
      rw [TemplateContext.lookupLocal?, hvalue, Option.some_or]
    · refine gives_get.bind fun t ht => ?_
      -- no frame has changed since the start
      have hlocal : c.lookupLocal? t name = c.lookupLocal? s name := by
        rw [TemplateContext.lookupLocal?, TemplateContext.lookupLocal?, Store.lookupLocal?,
          ht.grown.findIn?_eq, Store.lookupLocal?]
      rw [hlocal]
      split
      · exact gives_pure fun _ _ _ => .inl rfl
      · next value hvalue =>
        refine Gives.bind (keeps_record _) fun _ _ => ?_
        unfold embed
        split
        · rintro t₁ _ _ ht₁ ⟨⟩
          refine ⟨fun id hid hlt => ?_,
            ht₁.step (t₁.extends_newQuote value) fun id => t₁.spanAt_newQuote value id⟩
          have hnew := Store.le_of_id?_newQuote hid
          exact absurd (ht₁.grown.spans.trans hnew) (Nat.not_le.mpr hlt)
        · exact gives_pure fun _ _ _ => .inr ⟨name, hname, hvalue⟩

/-- **Making the list** gives its place to a new pair, or to what ends the list if there is no
item. -/
theorem keeps_finish {list ending : Value} {items : List Value}
    (hreach : Reaches start template c list) (hlist : list.isPair)
    (hending : items = [] → ∀ id, ending.id? = some id → id < s.spans.size →
      Displaces s start template id) :
    (finish list items ending).Keeps (s.Placed start template) := by
  rintro t _ _ ht ⟨⟩
  have hmade : s.Placed start template (t.newListWithTail items ending).2 :=
    ht.step (t.extends_newListWithTail items ending)
      fun id => t.spanAt_newListWithTail items ending id
  refine ⟨trivial, hmade.place (fun id hid hlt => ?_) (hmade.placeOfList hreach hlist)⟩
  by_cases hitems : items = []
  · subst hitems
    exact hending rfl id hid hlt
  · have hnew := Store.le_of_id?_newListWithTail hitems hid
    exact absurd (ht.grown.spans.trans hnew) (Nat.not_le.mpr hlt)

theorem instantiateElement_of_escaped {v escaped : Value} (h : escaped? v = some escaped)
    (asList : Effect (List Value × Value)) : instantiateElement c v asList = pure escaped := by
  unfold escaped? at h
  split at h
  · split at h
    · next hdots =>
      cases h
      simp only [instantiateElement, hdots]
    · cases h
  · cases h

theorem instantiateElement_list {id : Nat} {head tail : Value}
    (h : escaped? (.pair id head tail) = none) (asList : Effect (List Value × Value)) :
    instantiateElement c (.pair id head tail) asList = (do
      let (items, ending) ← asList
      finish (.pair id head tail) items ending) := by
  cases hdots : head.isSymbolNamed ellipsis with
  | false => simp only [instantiateElement, hdots]
  | true =>
    cases tail with
    | pair => simp [escaped?, hdots] at h
    | _ => simp only [instantiateElement, hdots]

/-- **An element is put in its place**, if its elements are when it is a list. -/
theorem keeps_instantiateElement (hc : c.Covered scope) {v : Value}
    (hreach : Reaches start template c v)
    (hlist : (∀ c' sub, HasElement c v c' sub → Reaches start template c' sub) →
      (instantiateList v c).Gives (s.Placed start template) fun list => list.1 = [] →
        ∃ leaf, OnlyEnding c v leaf ∧
          ∀ id, list.2.id? = some id → id < s.spans.size → StandsFor s c leaf list.2) :
    (instantiateElement c v (instantiateList v c)).Keeps (s.Placed start template) := by
  have hleaf : (instantiateLeaf c v).Keeps (s.Placed start template) :=
    (gives_instantiateLeaf hc v).keeps
  cases hescaped : escaped? v with
  | some escaped =>
    rw [instantiateElement_of_escaped hescaped]
    exact gives_pure trivial
  | none =>
    cases v with
    | pair id head tail =>
      rw [instantiateElement_list hescaped]
      refine (hlist fun _ _ hsub => hreach.element hescaped hsub).bind fun list hends => ?_
      refine keeps_finish hreach rfl fun hitems id hid hlt => ?_
      obtain ⟨leaf, hleaf, hvalue⟩ := hends hitems
      exact ⟨c, _, leaf, list.2, hreach, rfl, hleaf, hvalue id hid hlt, hid⟩
    | _ => exact hleaf

/-- **The elements of a template list are put in their places.**  If there are none, what ends the
list is what the end of the template stands for. -/
theorem gives_instantiateList (v : Value) {c : TemplateContext} (hc : c.Covered scope)
    (hreach : ∀ c' sub, HasElement c v c' sub → Reaches start template c' sub) :
    (instantiateList v c).Gives (s.Placed start template) fun list => list.1 = [] →
      ∃ leaf, OnlyEnding c v leaf ∧
        ∀ id, list.2.id? = some id → id < s.spans.size → StandsFor s c leaf list.2 := by
  match v with
  | .nil => exact gives_pure fun _ => ⟨.nil, .ending rfl, fun id hid => by cases hid⟩
  | .pair id head tail =>
    have hhead : ∀ {c}, c.Covered scope → Reaches start template c head →
        (instantiateElement c head (instantiateList head c)).Keeps (s.Placed start template) :=
      fun hc hreach => keeps_instantiateElement hc hreach (gives_instantiateList head hc)
    cases htail : tail.afterEllipsis? with
    | some after =>
      have hsize := Value.sizeOf_afterEllipsis? htail
      rw [instantiateList_repeated htail]
      refine (gives_expandRepetition c head).bind fun contexts ⟨t, t', hrun⟩ => ?_
      have hcontexts : ∀ c' ∈ contexts, (instantiateElement c' head (instantiateList head c')).Keeps
          (s.Placed start template) := fun c' hc' => by
        have hsub := hreach c' head (.copy htail hrun hc')
        obtain ⟨values, rfl⟩ := exists_repetition_of_expandRepetition hrun hc'
        exact hhead (hc.repetition _ values) hsub
      refine (gives_mapM hcontexts).bind fun items hitems => ?_
      refine (gives_instantiateList after hc fun c' sub h => hreach c' sub (.after htail h)).bind
        fun list hends => gives_pure fun hnone => ?_
      obtain ⟨rfl, hothers⟩ := List.append_eq_nil_iff.mp hnone
      obtain rfl := List.forall₂_nil_right_iff.mp hitems
      obtain ⟨leaf, hleaf, hvalue⟩ := hends hothers
      exact ⟨leaf, .repeated htail hrun hleaf, hvalue⟩
    | none =>
      rw [instantiateList_item htail]
      refine Gives.bind (hhead hc (hreach c head (.item htail))) fun item _ => ?_
      refine (gives_instantiateList tail hc fun c' sub h => hreach c' sub (.tail htail h)).bind
        fun list _ => gives_pure fun hnone => by cases hnone
  | .atom .. | .procedure .. | .transformer .. | .formMarker .. | .hostMarker .. =>
    rw [instantiateList_indivisible ⟨rfl, rfl⟩]
    exact (gives_instantiateLeaf hc _).bind fun value hvalue =>
      gives_pure fun _ => ⟨_, .ending rfl, hvalue⟩
termination_by sizeOf v

/-- **A rule in use** gives what its template gives in the frame of the match. -/
theorem of_ruleInstantiate {P : Value → Prop} {rule : Rule} {args v : Value} {captures : Captures}
    {s' : Store} (hrecord : ∀ e, (record e).Keeps I)
    (htemplate : (instantiate ⟨(captures.toBindings s).1, rule.pattern.depths 0, scope⟩
      rule.template).Gives I P) (hbound : I (captures.toBindings s).2)
    (hrun : rule.instantiate scope args captures s = .ok v s') : P v ∧ I s' := by
  have hresult : Gives I P (do
      let result ← instantiate ⟨(captures.toBindings s).1, rule.pattern.depths 0, scope⟩
        rule.template
      record (.expanded args result)
      Pure.pure result) := by
    refine htemplate.bind fun result hresult => ?_
    exact Gives.bind (hrecord (.expanded args result)) fun _ _ => gives_pure hresult
  exact hresult _ v s' hbound hrun

/-- **A rule in use puts its objects in their places.** -/
theorem placed_of_ruleInstantiate {rule : Rule} {args : Value} {captures : Captures}
    (hmatch : rule.pattern.match? args = some captures) {v : Value} {s' : Store}
    (hrun : rule.instantiate scope args captures s = .ok v s') :
    s.Placed ⟨(captures.toBindings s).1, rule.pattern.depths 0, scope⟩ rule.template s' := by
  let start : TemplateContext := ⟨(captures.toBindings s).1, rule.pattern.depths 0, scope⟩
  have hc : start.Covered scope := covered_of_match? hmatch s scope
  have hbound : s.Placed start rule.template (captures.toBindings s).2 :=
    (Store.Placed.refl s start rule.template).step (captures.extends_toBindings s)
      fun id => s.spanAt_toBindings captures id
  have htemplate : (instantiate start rule.template).Keeps (s.Placed start rule.template) :=
    keeps_instantiateElement hc .template (gives_instantiateList rule.template hc)
  exact (of_ruleInstantiate keeps_record htemplate hbound hrun).2

end Template

/-! ## 5. A use of a macro -/

/-- **A use that is expanded** is expanded by the first rule that matches. -/
theorem Transformer.exists_rule_of_expand {scope : Scope} {args v : Value} {rules : List Rule}
    {s s' : Store} (h : expand scope args rules s = .ok v s') :
    ∃ before rule after captures, rules = before ++ rule :: after ∧
      (∀ r ∈ before, r.pattern.match? args = none) ∧ rule.pattern.match? args = some captures ∧
      rule.instantiate scope args captures s = .ok v s' := by
  induction rules with
  | nil => cases h
  | cons rule rest ih =>
    rw [expand] at h
    cases hmatch : rule.pattern.match? args with
    | none =>
      rw [hmatch] at h
      obtain ⟨before, chosen, after, captures, rfl, hbefore, hchosen, hrun⟩ := ih h
      exact ⟨rule :: before, chosen, after, captures, rfl,
        List.forall_mem_cons.mpr ⟨hmatch, hbefore⟩, hchosen, hrun⟩
    | some captures =>
      rw [hmatch] at h
      exact ⟨[], rule, rest, captures, rfl, List.forall_mem_nil _, hmatch, h⟩

/-- **A macro that expands a use** has rules, and the first that matches is in use. -/
theorem Effect.exists_rule_of_expand {body args v : Value} {scope : Scope} {s s' : Store}
    (h : Effect.expand body scope args s = .ok v s') :
    ∃ t before rule after captures, Transformer.ofBody body = .ok t ∧
      t.rules = before ++ rule :: after ∧ (∀ r ∈ before, r.pattern.match? args = none) ∧
      rule.pattern.match? args = some captures ∧
      rule.instantiate scope args captures s = .ok v s' := by
  cases hbody : Transformer.ofBody body with
  | error fault =>
    rw [Effect.expand, hbody] at h
    cases h
  | ok t =>
    rw [expand_of_ofBody hbody] at h
    obtain ⟨before, rule, after, captures, hfirst⟩ := Transformer.exists_rule_of_expand h
    exact ⟨t, before, rule, after, captures, rfl, hfirst⟩

/-- **Where the objects of an expansion were written.**  Every object that there was, those of the
use among them, keeps its place, unless it stands after the dot of a template list that comes to
nothing before the dot.  Every new object has no place or that of a list of the template. -/
theorem span?_after_expand {body args v : Value} {scope : Scope} {s s' : Store}
    (h : Effect.expand body scope args s = .ok v s') :
    ∃ t before rule after captures, Transformer.ofBody body = .ok t ∧
      t.rules = before ++ rule :: after ∧ (∀ r ∈ before, r.pattern.match? args = none) ∧
      rule.pattern.match? args = some captures ∧
      let start : TemplateContext := ⟨(captures.toBindings s).1, rule.pattern.depths 0, scope⟩
      (∀ w id, w.id? = some id → id < s.spans.size →
        s'.span? w = s.span? w ∨ Template.Displaces s start rule.template id ∧
          Template.PlaceOfList s start rule.template (s'.span? w)) ∧
      ∀ w id, w.id? = some id → s.spans.size ≤ id →
        s'.span? w = none ∨ Template.PlaceOfList s start rule.template (s'.span? w) := by
  obtain ⟨t, before, rule, after, captures, hbody, hrules, hbefore, hmatch, hrun⟩ :=
    Effect.exists_rule_of_expand h
  have hplaced := Template.placed_of_ruleInstantiate hmatch hrun
  refine ⟨t, before, rule, after, captures, hbody, hrules, hbefore, hmatch,
    fun w id hid hlt => ?_, fun w id hid hle => ?_⟩
  · rw [Store.span?_eq_spanAt hid, Store.span?_eq_spanAt hid]
    exact (hplaced.spanAt id).imp_right fun hdisplaced => ⟨hdisplaced.1 hlt, hdisplaced.2⟩
  · rw [Store.span?_eq_spanAt hid, ← Store.spanAt_of_size_le hle]
    exact (hplaced.spanAt id).imp_right (·.2)

/-- Where `(a b)` stands in the text `((a b))`. -/
def capturedSpan : Span := ⟨0, ⟨1, 2, 1⟩, ⟨1, 7, 6⟩⟩

/-- Where `(x ... . r)` stands in the text `(() ((_ r x ...) (x ... . r)))`. -/
def templateSpan : Span := ⟨0, ⟨1, 18, 17⟩, ⟨1, 29, 28⟩⟩

/-- The list `(a b)`, as object 1. -/
def capturedPair : Value :=
  .pair 1 (.atom 0 (.symbol "a")) (.pair 0 (.atom 0 (.symbol "b")) .nil)

/-- What follows the word `syntax-rules` in `(syntax-rules () ((_ r x ...) (x ... . r)))`, with the
template as object 2. -/
def tailRules : Value :=
  let symbol (name : String) : Value := .atom 0 (.symbol name)
  .chain
    [.nil,
      .chain
        [.chain [symbol "_", symbol "r", symbol "x", symbol "..."] .nil,
          .pair 2 (symbol "x") (.pair 0 (symbol "...") (symbol "r"))] .nil] .nil

/-- A store in which these objects have their places. -/
def tailStore : Store :=
  ⟨#[none, some capturedSpan, some templateSpan], #[[]], "", []⟩

/-- In a use of this macro on `(a b)` alone, that object is displaced. -/
theorem displaces_capturedPair :
    ∃ v s' start template, Effect.expand tailRules (.ofRoot 0) (.chain [capturedPair] .nil)
        tailStore = .ok v s' ∧ Template.Displaces tailStore start template 1 ∧
      Template.PlaceOfList tailStore start template (s'.span? capturedPair) := by
  have hrun : Effect.expand tailRules (.ofRoot 0) (.chain [capturedPair] .nil) tailStore =
      .ok capturedPair _ := rfl
  obtain ⟨_, _, rule, _, captures, -, -, -, -, hold, -⟩ := span?_after_expand hrun
  rcases hold capturedPair 1 rfl (by decide) with hsame | hdisplaced
  · exact absurd hsame (by decide)
  · exact ⟨_, _, _, _, hrun, hdisplaced⟩

/-- **A captured part of a use can lose its place.**  The expansion of the use on `(a b)` alone is
the list `(a b)` of the use, and it is said afterwards to stand where the template stands. -/
theorem expand_displaces_captured :
    ∃ s', Effect.expand tailRules (.ofRoot 0) (.chain [capturedPair] .nil) tailStore =
        .ok capturedPair s' ∧
      tailStore.span? capturedPair = some capturedSpan ∧
      s'.span? capturedPair = some templateSpan ∧ capturedSpan ≠ templateSpan :=
  ⟨_, rfl, rfl, rfl, by decide⟩

end Lisp
