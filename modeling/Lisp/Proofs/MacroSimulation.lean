/-
# Macros that correspond

Macros whose rules correspond expand uses that correspond to forms that correspond, or are refused
alike (`simulates_expand`).  Along the way a pattern is compiled, matched and turned into captures
without a store, where nothing is made and one correspondence is enough.  From the values that the
captures become on, objects are made, and the correspondence grows.

A template never looks at where it stands in memory: its symbols decide what drives a repetition,
and the lengths of the lists that they stand for decide how often.  Both are the same on both sides.
-/
import Lisp.Proofs.Simulation

namespace Lisp

/-! ## 1. Patterns -/

/-- **Leaves that correspond** differ in constants only. -/
inductive Leaf.Corresponds (c : Correspondence) : Leaf → Leaf → Prop where
  | constant {v w} (h : v.Corresponds c w) : Corresponds c (.constant v) (.constant w)
  | refl {single} (h : ∀ v, single ≠ .constant v) : Corresponds c single single

mutual

/-- **Patterns that correspond** differ in constants only. -/
inductive Pattern.Corresponds (c : Correspondence) : Pattern → Pattern → Prop where
  | leaf {single single'} (h : Leaf.Corresponds c single single') :
    Pattern.Corresponds c (.leaf single) (.leaf single')
  | list {parts parts' ending ending'} (hparts : Parts.Corresponds c parts parts')
    (hending : Option.Rel (Leaf.Corresponds c) ending ending') :
    Pattern.Corresponds c (.list parts ending) (.list parts' ending')

inductive Parts.Corresponds (c : Correspondence) : Parts → Parts → Prop where
  | stop : Parts.Corresponds c .stop .stop
  | part {first first' rest rest'} (hfirst : Pattern.Corresponds c first first')
    (hrest : Parts.Corresponds c rest rest') :
    Parts.Corresponds c (.part first rest) (.part first' rest')
  | repeated {item item' after after'} (hitem : Pattern.Corresponds c item item')
    (hafter : Parts.Corresponds c after after') :
    Parts.Corresponds c (.repeated item after) (.repeated item' after')

end

variable {c : Correspondence}

theorem Leaf.Corresponds.leafDepths_eq {single single' : Leaf} (h : single.Corresponds c single')
    (depth : Nat) : Pattern.leafDepths depth single = Pattern.leafDepths depth single' := by
  cases h <;> rfl

mutual

/-- **Patterns that correspond have the same variables**, equally deep. -/
theorem Pattern.Corresponds.depths_eq : ∀ {p p' : Pattern}, p.Corresponds c p' →
    ∀ depth, p.depths depth = p'.depths depth
  | _, _, .leaf h, depth => h.leafDepths_eq depth
  | _, _, .list hparts hending, depth => by
    rw [Pattern.depths, Pattern.depths, Parts.Corresponds.depths_eq hparts depth]
    cases hending with
    | none => rfl
    | some h => rw [Option.map_some, Option.map_some, h.leafDepths_eq depth]

theorem Parts.Corresponds.depths_eq : ∀ {parts parts' : Parts}, parts.Corresponds c parts' →
    ∀ depth, Pattern.partsDepths depth parts = Pattern.partsDepths depth parts'
  | _, _, .stop, _ => rfl
  | _, _, .part hfirst hrest, depth => by
    rw [Pattern.partsDepths, Pattern.partsDepths, Parts.Corresponds.depths_eq hrest depth,
      Pattern.Corresponds.depths_eq hfirst depth]
  | _, _, .repeated hitem hafter, depth => by
    rw [Pattern.partsDepths, Pattern.partsDepths, Parts.Corresponds.depths_eq hafter depth,
      Pattern.Corresponds.depths_eq hitem (depth + 1)]

end

theorem Parts.Corresponds.count_eq : ∀ {parts parts' : Parts}, parts.Corresponds c parts' →
    parts.count = parts'.count
  | _, _, .stop => rfl
  | _, _, .part _ hrest => congrArg (· + 1) (Parts.Corresponds.count_eq hrest)
  | _, _, .repeated _ hafter => by
    rw [Parts.count, Parts.count, Parts.Corresponds.count_eq hafter]

theorem Parts.Corresponds.hasEllipsis_eq {parts parts' : Parts} (h : parts.Corresponds c parts') :
    parts.hasEllipsis = parts'.hasEllipsis := by
  cases h with
  | stop => rfl
  | part _ hrest => rw [Parts.hasEllipsis, Parts.hasEllipsis, hrest.hasEllipsis_eq]
  | repeated => rfl

namespace Pattern

variable {v w : Value} (literals : List String)

theorem compileLeaf_corresponds (h : v.Corresponds c w) :
    ResultsCorrespond RuleFault.Alike (Leaf.Corresponds c) (compileLeaf literals v)
      (compileLeaf literals w) := by
  unfold compileLeaf
  rw [h.symbol?_eq]
  split
  · split
    · exact .error rfl
    · split
      · exact .ok (.refl nofun)
      · split
        · exact .ok (.refl nofun)
        · exact .ok (.refl nofun)
  · exact .ok (.constant h)

theorem compileElement_corresponds (h : v.Corresponds c w)
    {asList asList' : Except RuleFault (Parts × Option Leaf)}
    (hlist : ResultsCorrespond RuleFault.Alike
      (PairsCorrespond (Parts.Corresponds c) (Option.Rel (Leaf.Corresponds c))) asList asList') :
    ResultsCorrespond RuleFault.Alike (Pattern.Corresponds c) (compileElement literals v asList)
      (compileElement literals w asList') := by
  by_cases hv : v.Indivisible
  · rw [compileElement_indivisible hv, compileElement_indivisible (h.indivisible_iff.mp hv)]
    exact (compileLeaf_corresponds literals h).bind fun _ _ hsingle => .ok (.leaf hsingle)
  · rw [compileElement_list hv, compileElement_list (h.indivisible_iff.not.mp hv)]
    exact hlist.bind fun _ _ hparts => .ok (.list hparts.1 hparts.2)

/-- **What corresponds is compiled to patterns that correspond**, or is refused alike. -/
theorem compileParts_corresponds (v : Value) {w whole whole' : Value} (h : v.Corresponds c w)
    (hwhole : whole.Corresponds c whole') (seen : Bool) :
    ResultsCorrespond RuleFault.Alike
      (PairsCorrespond (Parts.Corresponds c) (Option.Rel (Leaf.Corresponds c)))
      (compileParts literals whole seen v) (compileParts literals whole' seen w) := by
  match v, w, h with
  | .nil, .nil, .nil => exact .ok ⟨.stop, .none⟩
  | .pair _ head tail, .pair _ head' tail', .pair _ hhead htail =>
    have hfirst := compileElement_corresponds literals hhead
      (compileParts_corresponds head hhead hhead false)
    rcases rel_cases htail.afterEllipsis? with
      ⟨hnone, hnone'⟩ | ⟨after, after', hleft, hright, hafter⟩
    · rw [compileParts_part hnone, compileParts_part hnone']
      refine hfirst.bind fun _ _ hfirst => ?_
      refine (compileParts_corresponds tail htail hwhole seen).bind fun _ _ hrest => ?_
      exact .ok ⟨.part hfirst hrest.1, hrest.2⟩
    · have hsize := Value.sizeOf_afterEllipsis? hleft
      rw [compileParts_repeated hleft, compileParts_repeated hright]
      refine hfirst.bind fun _ _ hfirst => ?_
      split
      · exact .error (congrArg (_ ++ ·) hwhole.text_eq)
      · refine (compileParts_corresponds after hafter hwhole true).bind fun _ _ hrest => ?_
        exact .ok ⟨.repeated hfirst hrest.1, hrest.2⟩
  | .atom .., _, h | .procedure .., _, h | .transformer .., _, h | .formMarker .., _, h
  | .hostMarker .., _, h =>
    rw [compileParts_indivisible ⟨rfl, rfl⟩,
      compileParts_indivisible (h.indivisible_iff.mp ⟨rfl, rfl⟩)]
    exact (compileLeaf_corresponds literals h).bind fun _ _ hsingle => .ok ⟨.stop, .some hsingle⟩
termination_by sizeOf v

theorem compile_corresponds (h : v.Corresponds c w) :
    ResultsCorrespond RuleFault.Alike (Pattern.Corresponds c) (compile literals v)
      (compile literals w) :=
  (compileParts_corresponds literals v h h false).bind fun _ _ hparts =>
    .ok (.list hparts.1 hparts.2)

end Pattern

/-! ## 2. Matching -/

mutual

/-- **Captures that correspond** are of one shape, with values that correspond. -/
inductive Capture.Corresponds (c : Correspondence) : Capture → Capture → Prop where
  | one {v w} (h : v.Corresponds c w) : Capture.Corresponds c (.one v) (.one w)
  | rest {elements elements' ending ending'}
    (helements : List.Forall₂ (Value.Corresponds c) elements elements')
    (hending : ending.Corresponds c ending') :
    Capture.Corresponds c (.rest elements ending) (.rest elements' ending')
  | many {items items'} (h : Capture.RowsCorrespond c items items') :
    Capture.Corresponds c (.many items) (.many items')

inductive Capture.RowsCorrespond (c : Correspondence) : List Capture → List Capture → Prop where
  | nil : Capture.RowsCorrespond c [] []
  | cons {item item' items items'} (hitem : Capture.Corresponds c item item')
    (hitems : Capture.RowsCorrespond c items items') :
    Capture.RowsCorrespond c (item :: items) (item' :: items')

end

theorem Capture.rowsCorrespond_of_forall₂ {items items' : List Capture}
    (h : List.Forall₂ (Capture.Corresponds c) items items') : RowsCorrespond c items items' := by
  induction h with
  | nil => exact .nil
  | cons hitem _ ih => exact .cons hitem ih

/-- **Captures of the same names** that correspond. -/
abbrev Captures.Corresponds (c : Correspondence) : Captures → Captures → Prop :=
  List.Forall₂ (PairsCorrespond (· = ·) (Capture.Corresponds c))

theorem Captures.gather_corresponds (names : List String) {repetitions repetitions' : List Captures}
    (h : List.Forall₂ (Captures.Corresponds c) repetitions repetitions') :
    Captures.Corresponds c (gather names repetitions) (gather names repetitions') := by
  rw [Captures.Corresponds, gather, gather, List.forall₂_map_left_iff, List.forall₂_map_right_iff,
    List.forall₂_same]
  intro name _
  refine ⟨rfl, .many (Capture.rowsCorrespond_of_forall₂ ?_)⟩
  exact List.rel_filterMap (fun _ _ hcaptures => rel_lookup hcaptures name) h

namespace Pattern

variable {v w : Value}

theorem leafMatch?_corresponds {single single' : Leaf} (hsingle : single.Corresponds c single')
    (h : v.Corresponds c w) :
    Option.Rel (Captures.Corresponds c) (leafMatch? single v) (leafMatch? single' w) := by
  cases hsingle with
  | constant hconstant =>
    rw [leafMatch?, leafMatch?, h.equal_eq hconstant]
    split
    · exact .some .nil
    · exact .none
  | refl hconstant =>
    cases single with
    | «variable» name => exact .some (.cons ⟨rfl, .one h⟩ .nil)
    | wildcard => exact .some .nil
    | literal name =>
      rw [leafMatch?, leafMatch?, h.isSymbolNamed_eq]
      split
      · exact .some .nil
      · exact .none
    | constant value => exact absurd rfl (hconstant value)

theorem endingMatch?_corresponds {ending ending' : Option Leaf}
    (hending : Option.Rel (Leaf.Corresponds c) ending ending') (h : v.Corresponds c w) :
    Option.Rel (Captures.Corresponds c) (endingMatch? ending v) (endingMatch? ending' w) := by
  cases hending with
  | none =>
    rw [endingMatch?, endingMatch?, h.isNil_eq]
    split
    · exact .some .nil
    · exact .none
  | some hsingle =>
    have hleaf := leafMatch?_corresponds hsingle h
    cases hsingle with
    | constant => exact hleaf
    | refl =>
      rename_i single _
      cases single with
      | «variable» name => exact .some (.cons ⟨rfl, .rest h.elements h.ending⟩ .nil)
      | _ => exact hleaf

mutual

/-- **What corresponds is matched alike**, with captures that correspond. -/
theorem match?_corresponds : ∀ {p p' : Pattern}, p.Corresponds c p' → ∀ {v w : Value},
    v.Corresponds c w → Option.Rel (Captures.Corresponds c) (p.match? v) (p'.match? w)
  | _, _, .leaf hsingle, _, _, h => leafMatch?_corresponds hsingle h
  | _, _, .list hparts hending, _, _, h => by
    rw [match?, match?, hparts.hasEllipsis_eq]
    refine rel_bind (partsMatch?_corresponds hparts h) fun _ _ hown => ?_
    refine rel_bind (endingMatch?_corresponds hending hown.2) fun _ _ hlast => ?_
    split
    · exact .some (List.rel_append hown.1 hlast)
    · exact .some (List.rel_append hlast hown.1)

theorem partsMatch?_corresponds : ∀ {parts parts' : Parts}, parts.Corresponds c parts' →
    ∀ {v w : Value}, v.Corresponds c w →
      Option.Rel (PairsCorrespond (Captures.Corresponds c) (Value.Corresponds c))
        (partsMatch? parts v) (partsMatch? parts' w)
  | _, _, .stop, _, _, h => .some ⟨.nil, h⟩
  | _, _, .part hfirst hrest, _, _, h => by
    cases h with
    | pair _ hhead htail =>
      rw [partsMatch?, partsMatch?]
      refine rel_bind (match?_corresponds hfirst hhead) fun _ _ hown => ?_
      refine rel_bind (partsMatch?_corresponds hrest htail) fun _ _ hothers => ?_
      exact .some ⟨List.rel_append hothers.1 hown, hothers.2⟩
    | _ => exact .none
  | _, _, .repeated hitem hafter, v, w, h => by
    have hlength := h.elements.length_eq
    rw [partsMatch?, partsMatch?, hafter.count_eq, hlength, hitem.depths_eq 0]
    dsimp only
    split
    · exact .none
    · refine rel_bind (partsMatch?_corresponds hafter (h.drop _)) fun _ _ hothers => ?_
      refine rel_bind (rel_mapM (fun _ _ h => match?_corresponds hitem h)
        (List.forall₂_take _ h.elements)) fun _ _ hrepetitions => ?_
      exact .some ⟨List.rel_append (Captures.gather_corresponds _ hrepetitions) hothers.1,
        hothers.2⟩

end

end Pattern

/-! ## 3. Captures as values -/

open Effect

mutual

/-- **Captures that correspond become values that correspond.** -/
theorem simulates_toValue : ∀ {capture capture' : Capture}, capture.Corresponds c capture' →
    ∀ {c' : Correspondence}, c ≤ c' →
      Simulates c' Value.Corresponds (modifyGet capture.toValue) (modifyGet capture'.toValue)
  | _, _, .one h, _, hc => simulates_pure (h.mono hc)
  | _, _, .rest helements hending, _, hc =>
    simulates_newListWithTail Value.Corresponds.inherited
      (Value.Corresponds.mono_all helements hc) (hending.mono hc)
  | _, _, @Capture.Corresponds.many _ items items' h, c', hc => by
    change Simulates c' Value.Corresponds
      (modifyGet (Capture.toValues · items) >>= newList)
      (modifyGet (Capture.toValues · items') >>= newList)
    exact (simulates_toValues h hc).bind fun _ _ _ _ hvalues => simulates_newList hvalues

theorem simulates_toValues : ∀ {items items' : List Capture},
    Capture.RowsCorrespond c items items' → ∀ {c' : Correspondence}, c ≤ c' →
      Simulates c' (fun c => List.Forall₂ (Value.Corresponds c))
        (modifyGet (Capture.toValues · items)) (modifyGet (Capture.toValues · items'))
  | _, _, .nil, _, _ => simulates_pure .nil
  | _, _, @Capture.RowsCorrespond.cons _ item item' items items' hitem hitems, c', hc => by
    change Simulates c' _
      (modifyGet item.toValue >>= fun value =>
        modifyGet (Capture.toValues · items) >>= fun values => pure (value :: values))
      (modifyGet item'.toValue >>= fun value =>
        modifyGet (Capture.toValues · items') >>= fun values => pure (value :: values))
    refine (simulates_toValue hitem hc).bind fun c₁ hc₁ _ _ hvalue => ?_
    refine (simulates_toValues hitems (hc.trans hc₁)).bind fun c₂ hc₂ _ _ hvalues => ?_
    exact simulates_pure (.cons (hvalue.mono hc₂) hvalues)

end

theorem simulates_toBindings {captures captures' : Captures}
    (h : Captures.Corresponds c captures captures') {c' : Correspondence} (hc : c ≤ c') :
    Simulates c' Bindings.Corresponds (modifyGet captures.toBindings)
      (modifyGet captures'.toBindings) := by
  induction h generalizing c' with
  | nil => exact simulates_pure .nil
  | @cons entry entry' captures captures' hentry _ ih =>
    obtain ⟨name, capture⟩ := entry
    obtain ⟨name', capture'⟩ := entry'
    obtain ⟨rfl, hcapture⟩ := hentry
    change Simulates c' Bindings.Corresponds
      (modifyGet capture.toValue >>= fun value =>
        modifyGet (Captures.toBindings · captures) >>= fun others => pure ((name, value) :: others))
      (modifyGet capture'.toValue >>= fun value =>
        modifyGet (Captures.toBindings · captures') >>= fun others =>
          pure ((name, value) :: others))
    refine (simulates_toValue hcapture hc).bind fun c₁ hc₁ _ _ hvalue => ?_
    refine (ih (hc.trans hc₁)).bind fun c₂ hc₂ _ _ hothers => ?_
    exact simulates_pure (.cons ⟨rfl, hvalue.mono hc₂⟩ hothers)

/-! ## 4. Templates -/

/-- **Two contexts of a template correspond**: the variables stand for values that correspond, and
have equally many ellipses to go. -/
structure TemplateContext.Corresponds (c : Correspondence) (x y : TemplateContext) : Prop where
  bound : Bindings.Corresponds c x.bound y.bound
  depths : x.depths = y.depths
  scope : x.scope = y.scope
  within : x.scope.Within c.frames

/-- Names paired with values that correspond. -/
theorem zip_corresponds (names : List String) {vs ws : List Value}
    (h : List.Forall₂ (Value.Corresponds c) vs ws) :
    Bindings.Corresponds c (names.zip vs) (names.zip ws) := by
  induction h generalizing names with
  | nil => simp
  | cons hvw _ ih =>
    cases names with
    | nil => exact .nil
    | cons name names => exact .cons ⟨rfl, hvw⟩ (ih names)

variable {x y : TemplateContext}

namespace TemplateContext.Corresponds

theorem mono {c' : Correspondence} (h : TemplateContext.Corresponds c x y) (hc : c ≤ c') :
    TemplateContext.Corresponds c' x y :=
  ⟨h.bound.mono hc, h.depths, h.scope, h.within.mono hc⟩

theorem lookup (h : TemplateContext.Corresponds c x y) (name : String) :
    Simulates c Value.Corresponds (x.lookup name) (y.lookup name) := by
  unfold TemplateContext.lookup
  rcases rel_cases (h.bound.find? name) with ⟨hnone, hnone'⟩ | ⟨v, w, hv, hw, hvw⟩
  · rw [hnone, hnone', ← h.scope]
    exact simulates_lookup h.within name
  · rw [hv, hw]
    exact simulates_pure hvw

theorem lookupLocal? (h : TemplateContext.Corresponds c x y) {s s' : Store}
    (hstores : s.Corresponds c s') (name : String) :
    Option.Rel (Value.Corresponds c) (x.lookupLocal? s name) (y.lookupLocal? s' name) := by
  unfold TemplateContext.lookupLocal?
  rcases rel_cases (h.bound.find? name) with ⟨hnone, hnone'⟩ | ⟨v, w, hv, hw, hvw⟩
  · rw [hnone, hnone', ← h.scope]
    exact hstores.lookupLocal? h.within name
  · rw [hv, hw]
    exact .some hvw

/-- **The context of one repetition** corresponds. -/
theorem repetition (h : TemplateContext.Corresponds c x y) (names : List String)
    {vs ws : List Value} (hvs : List.Forall₂ (Value.Corresponds c) vs ws) :
    TemplateContext.Corresponds c (x.repetition names vs) (y.repetition names ws) := by
  refine ⟨List.rel_append (zip_corresponds names hvs) h.bound, ?_, h.scope, h.within⟩
  simp only [TemplateContext.repetition, h.depths]

end TemplateContext.Corresponds

/-- **The contexts of all repetitions are related** one by one, if those of one repetition are. -/
theorem TemplateContext.forall₂_repetitions {A : TemplateContext → TemplateContext → Prop}
    {names : List String} (h : ∀ {vs ws}, List.Forall₂ (Value.Corresponds c) vs ws →
      A (x.repetition names vs) (y.repetition names ws)) (count : Nat)
    {columns columns' : List (List Value)}
    (hcolumns : List.Forall₂ (List.Forall₂ (Value.Corresponds c)) columns columns') :
    List.Forall₂ A (x.repetitions names count columns) (y.repetitions names count columns') := by
  induction count generalizing columns columns' with
  | zero => exact .nil
  | succ count ih =>
    have hheads : List.Forall₂ (Value.Corresponds c) (columns.filterMap List.head?)
        (columns'.filterMap List.head?) := by
      refine List.rel_filterMap (fun column column' hcolumn => ?_) hcolumns
      cases hcolumn with
      | nil => exact .none
      | cons hhead => exact .some hhead
    have htails : List.Forall₂ (List.Forall₂ (Value.Corresponds c)) (columns.map List.tail)
        (columns'.map List.tail) := by
      refine List.rel_map (fun column column' hcolumn => ?_) hcolumns
      cases hcolumn with
      | nil => exact .nil
      | cons _ htail => exact htail
    exact .cons (h hheads) (ih htails)

namespace Template

theorem simulates_embed {v w : Value} (h : v.Corresponds c w) :
    Simulates c Value.Corresponds (embed v) (embed w) := by
  unfold embed
  rw [h.isSymbol_eq, h.isPair_eq]
  split
  · exact simulates_newQuote h
  · exact simulates_pure h

theorem simulates_instantiateLeaf (h : TemplateContext.Corresponds c x y) {v w : Value}
    (hvw : v.Corresponds c w) :
    Simulates c Value.Corresponds (instantiateLeaf x v) (instantiateLeaf y w) := by
  unfold instantiateLeaf
  rw [hvw.symbol?_eq, h.depths]
  split
  · exact simulates_pure hvw
  · next name _ =>
    split
    · exact h.lookup name
    · refine simulates_get.bind fun c₁ hc₁ s s' hstores => ?_
      rcases rel_cases ((h.mono hc₁).lookupLocal? hstores name) with
        ⟨hnone, hnone'⟩ | ⟨value, value', hvalue, hvalue', hcorresponds⟩
      · rw [hnone, hnone']
        exact simulates_pure (hvw.mono hc₁)
      · rw [hvalue, hvalue']
        exact (simulates_record _ _).bind fun c₂ hc₂ _ _ _ =>
          simulates_embed (hcorresponds.mono hc₂)

theorem driving_eq (h : TemplateContext.Corresponds c x y) {sub sub' : Value}
    (hsub : sub.Corresponds c sub') : driving x sub = driving y sub' := by
  rw [driving, driving, hsub.symbols_eq, h.depths]

theorem simulates_columns {sub sub' : Value} (hsub : sub.Corresponds c sub') {names : List String}
    (hlookup : ∀ name ∈ names, ∀ c₁, c ≤ c₁ →
      Simulates c₁ Value.Corresponds (x.lookup name) (y.lookup name)) (length : Option Nat) :
    Simulates c (fun c => List.Forall₂ (List.Forall₂ (Value.Corresponds c)))
      (columns x sub length names) (columns y sub' length names) := by
  induction names generalizing c length with
  | nil => exact simulates_pure .nil
  | cons name names ih =>
    refine (hlookup name List.mem_cons_self c (le_refl c)).bind fun c₁ hc₁ v w hvw => ?_
    dsimp only
    rw [hvw.elements.length_eq]
    split
    · refine simulates_fail ⟨rfl, ?_⟩
      exact congrArg (_ ++ · ++ _) hsub.text_eq
    · have hrest := ih (hsub.mono hc₁) (fun other hother c₂ hc₂ =>
        hlookup other (List.mem_cons_of_mem _ hother) c₂ (hc₁.trans hc₂)) (some w.elements.length)
      refine hrest.bind fun c₂ hc₂ others others' hothers => ?_
      exact simulates_pure (.cons (Value.Corresponds.mono_all hvw.elements hc₂) hothers)

/-- **A repetition takes place in contexts that are related**, if the variables that drive it stand
for values that correspond. -/
theorem simulates_expandRepetition {A : Correspondence → TemplateContext → TemplateContext → Prop}
    {sub sub' : Value} (hsub : sub.Corresponds c sub') (hdriving : driving x sub = driving y sub')
    (hlookup : ∀ name ∈ driving y sub', ∀ c₁, c ≤ c₁ →
      Simulates c₁ Value.Corresponds (x.lookup name) (y.lookup name))
    (hone : ∀ {c₁ vs ws}, c ≤ c₁ → List.Forall₂ (Value.Corresponds c₁) vs ws →
      A c₁ (x.repetition (driving y sub') vs) (y.repetition (driving y sub') ws)) :
    Simulates c (fun c => List.Forall₂ (A c)) (expandRepetition x sub)
      (expandRepetition y sub') := by
  unfold expandRepetition
  dsimp only
  rw [hdriving]
  split
  · refine simulates_fail ⟨rfl, ?_⟩
    exact congrArg (_ ++ · ++ _) hsub.text_eq
  · refine (simulates_columns hsub hlookup none).bind fun c₁ hc₁ columns columns' hcolumns => ?_
    have hcount : columns.head?.map List.length = columns'.head?.map List.length := by
      cases hcolumns with
      | nil => rfl
      | cons hcolumn => exact congrArg some hcolumn.length_eq
    rw [hcount]
    refine (simulates_record _ _).bind fun c₂ hc₂ _ _ _ => simulates_pure ?_
    exact TemplateContext.forall₂_repetitions (hone (hc₁.trans hc₂)) _
      (hcolumns.imp fun _ _ hcolumn => Value.Corresponds.mono_all hcolumn hc₂)

/-- Where a list is said to stand makes no difference. -/
theorem simulates_finish {R : Correspondence → Value → Value → Prop} (hR : PairsInherit R)
    (template template' : Value) {items items' : List Value} {ending ending' : Value}
    (hitems : List.Forall₂ (R c) items items') (hending : R c ending ending') :
    Simulates c R (finish template items ending) (finish template' items' ending') := by
  change Simulates c R
    (modifyGet (·.newListWithTail items ending) >>= fun value =>
      modify (fun s => s.place value (s.span? template)) >>= fun _ => pure value)
    (modifyGet (·.newListWithTail items' ending') >>= fun value =>
      modify (fun s => s.place value (s.span? template')) >>= fun _ => pure value)
  have quiet_place : ∀ value template : Value,
      Quiet (modify fun s => s.place value (s.span? template)) := fun value template s =>
    ⟨_, _, rfl, s.quiet_place value _⟩
  refine (simulates_newListWithTail hR hitems hending).bind fun c₁ hc₁ value value' hvalue => ?_
  refine (simulates_quiet (quiet_place _ _) (quiet_place _ _)).bind fun c₂ hc₂ _ _ _ => ?_
  exact simulates_pure (hR.mono hc₂ hvalue)

/-- **The items of a list and what ends it** correspond. -/
abbrev ListsCorrespond (c : Correspondence) : List Value × Value → List Value × Value → Prop :=
  PairsCorrespond (List.Forall₂ (Value.Corresponds c)) (Value.Corresponds c)

theorem simulates_instantiateElement (h : TemplateContext.Corresponds c x y) {v w : Value}
    (hvw : v.Corresponds c w) {asList asList' : Effect (List Value × Value)}
    (hlist : Simulates c ListsCorrespond asList asList') :
    Simulates c Value.Corresponds (instantiateElement x v asList)
      (instantiateElement y w asList') := by
  have hleaf := simulates_instantiateLeaf h hvw
  cases hvw with
  | @pair i j head head' tail tail' _ hhead htail =>
    have hmade : Simulates c Value.Corresponds
        (asList >>= fun list => finish (.pair i head tail) list.1 list.2)
        (asList' >>= fun list => finish (.pair j head' tail') list.1 list.2) :=
      hlist.bind fun _ _ _ _ hlists =>
        simulates_finish Value.Corresponds.inherited _ _ hlists.1 hlists.2
    simp only [instantiateElement, hhead.isSymbolNamed_eq]
    cases head'.isSymbolNamed ellipsis with
    | false => exact hmade
    | true =>
      cases htail with
      | pair _ hescaped => exact simulates_pure hescaped
      | _ => exact hmade
  | _ => exact hleaf

theorem simulates_instantiateList (v : Value) {c : Correspondence} {x y : TemplateContext}
    (h : TemplateContext.Corresponds c x y) {w : Value} (hvw : v.Corresponds c w) :
    Simulates c ListsCorrespond (instantiateList v x) (instantiateList w y) := by
  match v, w, hvw with
  | .nil, .nil, .nil => exact simulates_pure ⟨.nil, .nil⟩
  | .pair _ head tail, .pair _ head' tail', .pair _ hhead htail =>
    have helement : ∀ {c x y}, TemplateContext.Corresponds c x y → head.Corresponds c head' →
        Simulates c Value.Corresponds (instantiateElement x head (instantiateList head x))
          (instantiateElement y head' (instantiateList head' y)) := fun h hhead =>
      simulates_instantiateElement h hhead (simulates_instantiateList head h hhead)
    rcases rel_cases htail.afterEllipsis? with
      ⟨hnone, hnone'⟩ | ⟨after, after', hleft, hright, hafter⟩
    · rw [instantiateList_item hnone, instantiateList_item hnone']
      refine (helement h hhead).bind fun c₁ hc₁ item item' hitem => ?_
      refine (simulates_instantiateList tail (h.mono hc₁) (htail.mono hc₁)).bind
        fun c₂ hc₂ others others' hothers => ?_
      exact simulates_pure ⟨.cons (hitem.mono hc₂) hothers.1, hothers.2⟩
    · have hsize := Value.sizeOf_afterEllipsis? hleft
      rw [instantiateList_repeated hleft, instantiateList_repeated hright]
      have hcontexts := simulates_expandRepetition (A := TemplateContext.Corresponds) hhead
        (driving_eq h hhead) (fun name _ c₁ hc₁ => (h.mono hc₁).lookup name)
        (fun hc₁ hvs => (h.mono hc₁).repetition _ hvs)
      refine hcontexts.bind fun c₁ hc₁ contexts contexts' hcontexts => ?_
      have hitems := simulates_mapM (A := TemplateContext.Corresponds) (B := Value.Corresponds)
        (fun hc h => h.mono hc) (fun hc h => h.mono hc)
        (fun c' hc' _ _ h => helement h ((hhead.mono hc₁).mono hc')) hcontexts
      refine hitems.bind fun c₂ hc₂ items items' hitems => ?_
      refine (simulates_instantiateList after (h.mono (hc₁.trans hc₂))
        (hafter.mono (hc₁.trans hc₂))).bind fun c₃ hc₃ others others' hothers => ?_
      exact simulates_pure
        ⟨List.rel_append (Value.Corresponds.mono_all hitems hc₃) hothers.1, hothers.2⟩
  | .atom .., _, hvw | .procedure .., _, hvw | .transformer .., _, hvw | .formMarker .., _, hvw
  | .hostMarker .., _, hvw =>
    rw [instantiateList_indivisible ⟨rfl, rfl⟩,
      instantiateList_indivisible (hvw.indivisible_iff.mp ⟨rfl, rfl⟩)]
    exact (simulates_instantiateLeaf h hvw).bind fun _ _ _ _ hvalue =>
      simulates_pure ⟨.nil, hvalue⟩
termination_by sizeOf v

/-- **A template that corresponds is instantiated alike.** -/
theorem simulates_instantiate (h : TemplateContext.Corresponds c x y) {v w : Value}
    (hvw : v.Corresponds c w) :
    Simulates c Value.Corresponds (instantiate x v) (instantiate y w) :=
  simulates_instantiateElement h hvw (simulates_instantiateList v h hvw)

end Template

/-! ## 5. Transformers -/

/-- **Rules that correspond.** -/
structure Rule.Corresponds (c : Correspondence) (rule rule' : Rule) : Prop where
  pattern : rule.pattern.Corresponds c rule'.pattern
  template : rule.template.Corresponds c rule'.template

theorem simulates_ruleInstantiate {rule rule' : Rule} (h : rule.Corresponds c rule')
    {scope : Scope} (hscope : scope.Within c.frames) (args args' : Value)
    {captures captures' : Captures} (hcaptures : Captures.Corresponds c captures captures') :
    Simulates c Value.Corresponds (rule.instantiate scope args captures)
      (rule'.instantiate scope args' captures') := by
  refine (simulates_toBindings hcaptures (le_refl c)).bind fun c₁ hc₁ bound bound' hbound => ?_
  have hcontext : TemplateContext.Corresponds c₁ ⟨bound, rule.pattern.depths 0, scope⟩
      ⟨bound', rule'.pattern.depths 0, scope⟩ :=
    ⟨hbound, h.pattern.depths_eq 0, rfl, hscope.mono hc₁⟩
  refine (Template.simulates_instantiate hcontext (h.template.mono hc₁)).bind
    fun c₂ hc₂ result result' hresult => ?_
  exact (simulates_record _ _).bind fun c₃ hc₃ _ _ _ => simulates_pure (hresult.mono hc₃)

namespace Transformer

/-- **The first rule that matches** is in the same place on both sides. -/
theorem simulates_expand {rules rules' : List Rule}
    (h : List.Forall₂ (Rule.Corresponds c) rules rules') {scope : Scope}
    (hscope : scope.Within c.frames) {args args' : Value} (hargs : args.Corresponds c args') :
    Simulates c Value.Corresponds (expand scope args rules) (expand scope args' rules') := by
  induction h with
  | nil => exact simulates_fail ⟨rfl, congrArg (_ ++ ·) hargs.text_eq⟩
  | cons hrule _ ih =>
    rw [expand, expand]
    rcases rel_cases (Pattern.match?_corresponds hrule.pattern hargs) with
      ⟨hnone, hnone'⟩ | ⟨captures, captures', hcaptures, hcaptures', hcorrespond⟩
    · rw [hnone, hnone']
      exact ih
    · rw [hcaptures, hcaptures']
      exact simulates_ruleInstantiate hrule hscope args args' hcorrespond

theorem literalNames_corresponds {vs ws : List Value}
    (h : List.Forall₂ (Value.Corresponds c) vs ws) :
    ResultsCorrespond RuleFault.Alike (· = ·) (literalNames vs) (literalNames ws) := by
  induction h with
  | nil => exact .ok rfl
  | cons hvw _ ih =>
    rw [literalNames, literalNames, hvw.symbol?_eq]
    split
    · exact .error (congrArg (_ ++ ·) hvw.text_eq)
    · refine ih.bind ?_
      rintro names _ rfl
      exact .ok rfl

theorem splitRule_corresponds {v w : Value} (h : v.Corresponds c w) :
    ResultsCorrespond RuleFault.Alike (PairsCorrespond (Value.Corresponds c) (Value.Corresponds c))
      (splitRule v) (splitRule w) := by
  have malformed : RuleFault.Alike (.malformedRule v) (.malformedRule w) :=
    congrArg (_ ++ ·) h.text_eq
  cases h with
  | pair _ hpattern hrest =>
    cases hrest with
    | pair _ htemplate hend =>
      cases hend with
      | nil => exact .ok ⟨hpattern, htemplate⟩
      | _ => exact .error malformed
    | _ => exact .error malformed
  | _ => exact .error malformed

theorem patternArguments_corresponds {v w : Value} (h : v.Corresponds c w) :
    ResultsCorrespond RuleFault.Alike (Value.Corresponds c) (patternArguments v)
      (patternArguments w) := by
  have refused : RuleFault.Alike (.patternNoList v) (.patternNoList w) :=
    congrArg (_ ++ ·) h.text_eq
  cases h with
  | pair _ _ hargs => exact .ok hargs
  | _ => exact .error refused

/-- **Rules written alike** are compiled to rules that correspond. -/
theorem compileRules_corresponds (literals : List String) {vs ws : List Value}
    (h : List.Forall₂ (Value.Corresponds c) vs ws) :
    ResultsCorrespond RuleFault.Alike (List.Forall₂ (Rule.Corresponds c))
      (compileRules literals vs).2 (compileRules literals ws).2 := by
  induction h with
  | nil => exact .ok .nil
  | @cons v w vs ws hvw _ ih =>
    simp only [compileRules]
    rcases (splitRule_corresponds hvw).cases with
      ⟨⟨pattern, template⟩, ⟨pattern', template'⟩, hsplit, hsplit', hpattern, htemplate⟩ |
      ⟨fault, fault', hfault, hfault', halike⟩
    · rw [hsplit, hsplit']
      dsimp only
      rcases (patternArguments_corresponds hpattern).cases with
        ⟨args, args', hargs, hargs', hcorrespond⟩ | ⟨fault, fault', hfault, hfault', halike⟩
      · rw [hargs, hargs']
        dsimp only
        rcases (Pattern.compile_corresponds literals hcorrespond).cases with
          ⟨p, p', hp, hp', hcompiled⟩ | ⟨fault, fault', hfault, hfault', halike⟩
        · rw [hp, hp']
          exact ih.map fun _ _ hrules => .cons ⟨hcompiled, htemplate⟩ hrules
        · rw [hfault, hfault']
          exact .error halike
      · rw [hfault, hfault']
        exact .error halike
    · rw [hfault, hfault']
      exact .error halike

theorem splitBody_corresponds {v w : Value} (h : v.Corresponds c w) :
    ResultsCorrespond RuleFault.Alike
      (PairsCorrespond (· = ·) (List.Forall₂ (Value.Corresponds c))) (splitBody v)
      (splitBody w) := by
  cases h with
  | pair _ hliterals hrules =>
    rw [splitBody, splitBody, hliterals.isList_eq]
    split
    · exact (literalNames_corresponds hliterals.elements).bind fun _ _ hnames =>
        .ok ⟨hnames, hrules.elements⟩
    · exact .error (congrArg (_ ++ ·) hliterals.text_eq)
  | _ => exact .error rfl

theorem ofBody_corresponds {v w : Value} (h : v.Corresponds c w) :
    ResultsCorrespond RuleFault.Alike
      (fun t t' => List.Forall₂ (Rule.Corresponds c) t.rules t'.rules) (ofBody v) (ofBody w) := by
  unfold ofBody compileBody
  rcases (splitBody_corresponds h).cases with
    ⟨⟨literals, rules⟩, ⟨_, rules'⟩, hsplit, hsplit', rfl, hrules⟩ |
    ⟨fault, fault', hfault, hfault', halike⟩
  · rw [hsplit, hsplit']
    exact (compileRules_corresponds literals hrules).map fun _ _ hcompiled => hcompiled
  · rw [hfault, hfault']
    exact .error halike

end Transformer

/-- **Macros that correspond expand uses that correspond** to forms that correspond. -/
theorem simulates_expand {body body' : Value} (h : body.Corresponds c body') {scope : Scope}
    (hscope : scope.Within c.frames) {args args' : Value} (hargs : args.Corresponds c args') :
    Simulates c Value.Corresponds (expand body scope args) (expand body' scope args') := by
  unfold expand
  rcases (Transformer.ofBody_corresponds h).cases with
    ⟨t, t', ht, ht', hrules⟩ | ⟨fault, fault', hfault, hfault', halike⟩
  · rw [ht, ht']
    exact Transformer.simulates_expand hrules hscope hargs
  · rw [hfault, hfault']
    exact simulates_fail ⟨rfl, halike⟩

/-- What is reported of the rules makes no difference. -/
theorem quiet_forIn_record {α : Type} (event : α → Event) (as : List α) :
    Quiet (forIn as PUnit.unit fun a _ => do
      record (event a)
      pure (ForInStep.yield PUnit.unit)) := by
  induction as with
  | nil => exact fun s => ⟨_, s, rfl, rfl, rfl, rfl⟩
  | cons a as ih =>
    intro s
    obtain ⟨done, s₁, hrun, hquiet⟩ := ih (s.record (event a))
    rw [List.forIn_cons]
    exact ⟨done, s₁, hrun, hquiet.spans, hquiet.frames, hquiet.output⟩

/-- **A macro is made of what corresponds**, or refused alike. -/
theorem simulates_newTransformer {body body' : Value} (h : body.Corresponds c body')
    {scope : Scope} (hscope : scope.Within c.frames) :
    Simulates c Value.Corresponds (newTransformer body scope) (newTransformer body' scope) := by
  unfold newTransformer
  have hbody := Transformer.ofBody_corresponds h
  unfold Transformer.ofBody at hbody
  generalize Transformer.compileBody body = left at hbody ⊢
  generalize Transformer.compileBody body' = right at hbody ⊢
  obtain ⟨seen, outcome⟩ := left
  obtain ⟨seen', outcome'⟩ := right
  refine (simulates_quiet (quiet_forIn_record _ seen) (quiet_forIn_record _ seen')).bind
    fun c₁ hc₁ _ _ _ => ?_
  cases hbody with
  | error halike => exact simulates_fail ⟨rfl, halike⟩
  | ok => exact simulates_allocate fun c₂ hc₂ _ _ hij =>
      .transformer hij ((h.mono hc₁).mono hc₂) ((hscope.mono hc₁).mono hc₂)

end Lisp
