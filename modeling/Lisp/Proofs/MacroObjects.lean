/-
# Expansions make objects only

To expand a use of a macro begins no evaluation.  What it makes is put together from the arguments,
of which the pattern captured parts, from the template, which is part of the macro's body, and from
what the scope of the definition binds: all of these are among the objects of the store, and so is
the result (`Effect.conserves_expand`).  The constants of a pattern are only compared with.
-/
import Lisp.Proofs.Retracing

namespace Lisp

open Value (AllAmong)
open Effect

variable {objects objects' : List Value} {v : Value}

/-! ## 1. Captures -/

namespace Capture

mutual

/-- **Every object of what was captured** is the one made under its number. -/
def Among (objects : List Value) : Capture → Prop
  | .one value => value.Among objects
  | .rest elements ending => AllAmong objects elements ∧ ending.Among objects
  | .many items => RowAmong objects items

def RowAmong (objects : List Value) : List Capture → Prop
  | [] => True
  | item :: items => item.Among objects ∧ RowAmong objects items

end

theorem rowAmong_iff {items : List Capture} :
    RowAmong objects items ↔ ∀ item ∈ items, item.Among objects := by
  induction items with
  | nil => simp [RowAmong]
  | cons item items ih => rw [RowAmong, ih, List.forall_mem_cons]

mutual

theorem Among.mono : ∀ {capture : Capture}, capture.Among objects → objects <+: objects' →
    capture.Among objects'
  | .one _, h, hle => Value.Among.mono h hle
  | .rest _ _, h, hle => ⟨Value.AllAmong.mono h.1 hle, h.2.mono hle⟩
  | .many _, h, hle => RowAmong.mono h hle

theorem RowAmong.mono : ∀ {items : List Capture}, RowAmong objects items → objects <+: objects' →
    RowAmong objects' items
  | [], _, _ => trivial
  | _ :: _, h, hle => ⟨Among.mono h.1 hle, RowAmong.mono h.2 hle⟩

end

end Capture

/-- **Every object of all captures** is the one made under its number. -/
abbrev Captures.Among (objects : List Value) (captures : Captures) : Prop :=
  ∀ entry ∈ captures, entry.2.Among objects

theorem Captures.among_gather (names : List String) {repetitions : List Captures}
    (h : ∀ captures ∈ repetitions, captures.Among objects) :
    (gather names repetitions).Among objects := by
  intro entry hentry
  obtain ⟨name, -, rfl⟩ := List.mem_map.mp hentry
  refine Capture.rowAmong_iff.mpr fun item hitem => ?_
  obtain ⟨captures, hcaptures, hfound⟩ := List.mem_filterMap.mp hitem
  exact h captures hcaptures _ (mem_of_lookup_eq_some hfound)

namespace Pattern

theorem among_leafMatch? {single : Leaf} {captures : Captures} (hv : v.Among objects)
    (h : leafMatch? single v = some captures) : captures.Among objects := by
  cases single with
  | «variable» name =>
    cases h
    exact List.forall_mem_singleton.mpr hv
  | wildcard =>
    cases h
    exact nofun
  | literal | constant =>
    obtain ⟨-, ⟨⟩⟩ := Option.ite_none_right_eq_some.mp h
    exact nofun

theorem among_endingMatch? {ending : Option Leaf} {captures : Captures} (hv : v.Among objects)
    (h : endingMatch? ending v = some captures) : captures.Among objects := by
  unfold endingMatch? at h
  split at h
  · obtain ⟨-, ⟨⟩⟩ := Option.ite_none_right_eq_some.mp h
    exact nofun
  · cases h
    exact List.forall_mem_singleton.mpr ⟨hv.elements, hv.ending⟩
  · exact among_leafMatch? hv h

mutual

/-- **What a pattern captures is part of the value** that is matched. -/
theorem among_match? : ∀ {p : Pattern} {v : Value} {captures : Captures}, v.Among objects →
    p.match? v = some captures → captures.Among objects
  | .leaf _, _, _, hv, h => among_leafMatch? hv h
  | .list _ _, _, _, hv, h => by
    obtain ⟨own, left, last, hparts, hending, rfl⟩ := match?_list_iff.mp h
    obtain ⟨hown, hleft⟩ := among_partsMatch? hv hparts
    have hlast := among_endingMatch? hleft hending
    split
    · exact List.forall_mem_append.mpr ⟨hown, hlast⟩
    · exact List.forall_mem_append.mpr ⟨hlast, hown⟩

theorem among_partsMatch? : ∀ {parts : Parts} {v left : Value} {captures : Captures},
    v.Among objects → partsMatch? parts v = some (captures, left) →
      captures.Among objects ∧ left.Among objects
  | .stop, _, _, _, hv, h => by
    cases h
    exact ⟨nofun, hv⟩
  | .part _ _, _, _, _, hv, h => by
    obtain ⟨id, head, tail, own, others, rfl, hown, hrest, rfl⟩ := partsMatch?_part_iff.mp h
    obtain ⟨hothers, hleft⟩ := among_partsMatch? hv.2.2 hrest
    exact ⟨List.forall_mem_append.mpr ⟨hothers, among_match? hv.2.1 hown⟩, hleft⟩
  | .repeated item _, v, _, _, hv, h => by
    obtain ⟨-, others, repetitions, hafter, hitems, rfl⟩ := partsMatch?_repeated_iff.mp h
    obtain ⟨hothers, hleft⟩ := among_partsMatch? (hv.drop _) hafter
    refine ⟨List.forall_mem_append.mpr ⟨Captures.among_gather _ fun captures hmem => ?_, hothers⟩,
      hleft⟩
    obtain ⟨n, hn, rfl⟩ := List.getElem_of_mem hmem
    obtain ⟨hlength, hmatched⟩ := List.forall₂_iff_get.mp hitems
    exact among_match? (hv.elements _ (List.mem_of_mem_take (List.get_mem _ ⟨n, hlength ▸ hn⟩)))
      (hmatched n (hlength ▸ hn) hn)

end

end Pattern

mutual

theorem conserves_toValue : ∀ (capture : Capture) {objects : List Value}, capture.Among objects →
    Conserves objects Value.Among (modifyGet capture.toValue)
  | .one _, _, h => conserves_pure h
  | .rest _ _, _, h => conserves_newListWithTail h.1 h.2
  | .many items, objects, h => by
    change Conserves objects Value.Among (modifyGet (Capture.toValues · items) >>= newList)
    exact (conserves_toValues items h).bind fun _ _ _ hvalues => conserves_newList hvalues

theorem conserves_toValues : ∀ (items : List Capture) {objects : List Value},
    Capture.RowAmong objects items →
      Conserves objects AllAmong (modifyGet (Capture.toValues · items))
  | [], _, _ => conserves_pure (List.forall_mem_nil _)
  | item :: items, objects, h => by
    change Conserves objects AllAmong
      (modifyGet item.toValue >>= fun value =>
        modifyGet (Capture.toValues · items) >>= fun values => pure (value :: values))
    refine (conserves_toValue item h.1).bind fun objects₁ hle₁ value hvalue => ?_
    refine (conserves_toValues items (h.2.mono hle₁)).bind fun objects₂ hle₂ values hvalues => ?_
    exact conserves_pure (List.forall_mem_cons.mpr ⟨hvalue.mono hle₂, hvalues⟩)

end

/-- **Every value that is bound** is among the objects. -/
abbrev Bindings.Among (objects : List Value) (bs : Bindings) : Prop :=
  ∀ entry ∈ bs, entry.2.Among objects

theorem Bindings.Among.mono {bs : Bindings} (h : bs.Among objects) (hle : objects <+: objects') :
    bs.Among objects' :=
  fun entry hentry => (h entry hentry).mono hle

theorem conserves_toBindings {captures : Captures} (h : captures.Among objects) :
    Conserves objects Bindings.Among (modifyGet captures.toBindings) := by
  induction captures generalizing objects with
  | nil => exact conserves_pure (List.forall_mem_nil _)
  | cons entry captures ih =>
    obtain ⟨name, capture⟩ := entry
    obtain ⟨hcapture, hrest⟩ := List.forall_mem_cons.mp h
    change Conserves objects Bindings.Among
      (modifyGet capture.toValue >>= fun value =>
        modifyGet (Captures.toBindings · captures) >>= fun others => pure ((name, value) :: others))
    refine (conserves_toValue capture hcapture).bind fun objects₁ hle₁ value hvalue => ?_
    refine (ih fun other hother => (hrest other hother).mono hle₁).bind
      fun objects₂ hle₂ others hothers => ?_
    exact conserves_pure (List.forall_mem_cons.mpr ⟨hvalue.mono hle₂, hothers⟩)

/-! ## 2. Templates -/

variable {c : TemplateContext}

namespace TemplateContext

/-- **What the variables of the pattern stand for** is among the objects. -/
abbrev Among (objects : List Value) (c : TemplateContext) : Prop :=
  c.bound.Among objects

theorem conserves_lookup (h : c.Among objects) (name : String) :
    Conserves objects Value.Among (c.lookup name) := by
  unfold TemplateContext.lookup
  split
  · next value hvalue => exact conserves_pure (h _ (mem_of_lookup_eq_some hvalue))
  · exact Effect.conserves_lookup c.scope name

theorem among_lookupLocal? (h : c.Among objects) {s : Store} (hs : s.HasObjects objects)
    {name : String} (hv : c.lookupLocal? s name = some v) : v.Among objects := by
  rcases Option.or_eq_some_iff.mp hv with hbound | ⟨-, hlocal⟩
  · exact h _ (mem_of_lookup_eq_some hbound)
  · exact hs.findIn? hlocal

theorem among_repetition (h : c.Among objects) (names : List String) {values : List Value}
    (hvalues : AllAmong objects values) : (c.repetition names values).Among objects :=
  List.forall_mem_append.mpr ⟨fun _ hentry => hvalues _ (List.of_mem_zip hentry).2, h⟩

theorem among_repetitions (h : c.Among objects) (names : List String) (count : Nat)
    {columns : List (List Value)} (hcolumns : ∀ column ∈ columns, AllAmong objects column) :
    ∀ c' ∈ c.repetitions names count columns, c'.Among objects := by
  induction count generalizing columns with
  | zero => exact nofun
  | succ count ih =>
    refine List.forall_mem_cons.mpr ⟨among_repetition h names fun v hv => ?_, ih ?_⟩
    · obtain ⟨column, hcolumn, hfirst⟩ := List.mem_filterMap.mp hv
      exact hcolumns column hcolumn v (List.mem_of_head? hfirst)
    · intro column hmem v hv
      obtain ⟨whole, hwhole, rfl⟩ := List.mem_map.mp hmem
      exact hcolumns whole hwhole v (List.mem_of_mem_tail hv)

end TemplateContext

namespace Template

theorem conserves_embed (hv : v.Among objects) : Conserves objects Value.Among (embed v) := by
  unfold embed
  split
  · exact conserves_newQuote hv
  · exact conserves_pure hv

theorem conserves_instantiateLeaf (h : c.Among objects) (hv : v.Among objects) :
    Conserves objects Value.Among (instantiateLeaf c v) := by
  unfold instantiateLeaf
  split
  · exact conserves_pure hv
  · next name _ =>
    split
    · exact TemplateContext.conserves_lookup h name
    · refine retraces_get_bind (fun s hs => ?_) fun _ _ => rfl
      split
      · exact conserves_pure hv
      · next value hvalue =>
        refine (conserves_record rfl).bind fun objects₁ hle₁ _ _ => ?_
        exact conserves_embed ((TemplateContext.among_lookupLocal? h hs hvalue).mono hle₁)

theorem conserves_columns (h : c.Among objects) (sub : Value) (length : Option Nat)
    (names : List String) :
    Conserves objects (fun objects columns => ∀ column ∈ columns, AllAmong objects column)
      (columns c sub length names) := by
  induction names generalizing objects length with
  | nil => exact conserves_pure (List.forall_mem_nil _)
  | cons name names ih =>
    refine (TemplateContext.conserves_lookup h name).bind fun objects₁ hle₁ value hvalue => ?_
    dsimp only
    split
    · exact conserves_fail _
    · refine (ih (h.mono hle₁) _).bind fun objects₂ hle₂ others hothers => ?_
      exact conserves_pure
        (List.forall_mem_cons.mpr ⟨Value.AllAmong.mono hvalue.elements hle₂, hothers⟩)

theorem conserves_expandRepetition (h : c.Among objects) (sub : Value) :
    Conserves objects (fun objects contexts => ∀ c' ∈ contexts, c'.Among objects)
      (expandRepetition c sub) := by
  unfold expandRepetition
  dsimp only
  split
  · exact conserves_fail _
  · refine (conserves_columns h sub none _).bind fun objects₁ hle₁ columns hcolumns => ?_
    refine (conserves_record rfl).bind fun objects₂ hle₂ _ _ => conserves_pure ?_
    exact TemplateContext.among_repetitions (Bindings.Among.mono h (hle₁.trans hle₂)) _ _
      fun column hcolumn => Value.AllAmong.mono (hcolumns column hcolumn) hle₂

theorem conserves_finish (template : Value) {items : List Value} {ending : Value}
    (hitems : AllAmong objects items) (hending : ending.Among objects) :
    Conserves objects Value.Among (finish template items ending) := by
  change Conserves objects Value.Among
    (modifyGet (·.newListWithTail items ending) >>= fun value =>
      modify (fun s => s.place value (s.span? template)) >>= fun _ => pure value)
  refine (conserves_newListWithTail hitems hending).bind fun objects₁ hle₁ value hvalue => ?_
  refine (conserves_modify (fun s hs => hs.place value _) fun s journal => ?_).bind
    fun objects₂ hle₂ _ _ => conserves_pure (hvalue.mono hle₂)
  unfold Store.place
  split <;> rfl

/-- **The items of a list and what ends it** are among the objects. -/
abbrev ListAmong (objects : List Value) (list : List Value × Value) : Prop :=
  AllAmong objects list.1 ∧ list.2.Among objects

theorem conserves_instantiateElement (h : c.Among objects) (hv : v.Among objects)
    {asList : Effect (List Value × Value)} (hlist : Conserves objects ListAmong asList) :
    Conserves objects Value.Among (instantiateElement c v asList) := by
  unfold instantiateElement
  split
  · split
    · exact conserves_pure hv.2.2.2.1
    · exact hlist.bind fun _ _ _ hmade => conserves_finish _ hmade.1 hmade.2
  · exact conserves_instantiateLeaf h hv

theorem conserves_instantiateList (v : Value) {objects : List Value} {c : TemplateContext}
    (h : c.Among objects) (hv : v.Among objects) :
    Conserves objects ListAmong (instantiateList v c) := by
  match v, hv with
  | .nil, _ => exact conserves_pure ⟨nofun, trivial⟩
  | .pair _ head tail, hv =>
    have helement : ∀ {objects c}, c.Among objects → head.Among objects →
        Conserves objects Value.Among (instantiateElement c head (instantiateList head c)) :=
      fun h hhead => conserves_instantiateElement h hhead (conserves_instantiateList head h hhead)
    cases htail : tail.afterEllipsis? with
    | none =>
      rw [instantiateList_item htail]
      refine (helement h hv.2.1).bind fun objects₁ hle₁ item hitem => ?_
      refine (conserves_instantiateList tail (h.mono hle₁) (hv.2.2.mono hle₁)).bind
        fun objects₂ hle₂ others hothers => ?_
      exact conserves_pure ⟨List.forall_mem_cons.mpr ⟨hitem.mono hle₂, hothers.1⟩, hothers.2⟩
    | some after =>
      have hsize := Value.sizeOf_afterEllipsis? htail
      have hafter : after.Among objects := by
        obtain ⟨_, _, rfl, -⟩ := Value.afterEllipsis?_eq_some_iff.mp htail
        exact hv.2.2.2.2
      rw [instantiateList_repeated htail]
      refine (conserves_expandRepetition h head).bind fun objects₁ hle₁ contexts hcontexts => ?_
      have hitems := conserves_mapM (A := TemplateContext.Among) (Q := Value.Among)
        Bindings.Among.mono Value.Among.mono
        (fun objects' hle' c' hc' => helement hc' ((hv.2.1.mono hle₁).mono hle')) hcontexts
      refine hitems.bind fun objects₂ hle₂ items hitems => ?_
      refine (conserves_instantiateList after (h.mono (hle₁.trans hle₂))
        (hafter.mono (hle₁.trans hle₂))).bind fun objects₃ hle₃ others hothers => ?_
      exact conserves_pure
        ⟨List.forall_mem_append.mpr ⟨Value.AllAmong.mono hitems hle₃, hothers.1⟩, hothers.2⟩
  | .atom .., hv | .procedure .., hv | .transformer .., hv | .formMarker .., hv
  | .hostMarker .., hv =>
    rw [instantiateList_indivisible ⟨rfl, rfl⟩]
    exact (conserves_instantiateLeaf h hv).bind fun _ _ _ hvalue => conserves_pure ⟨nofun, hvalue⟩
termination_by sizeOf v

theorem conserves_instantiate (h : c.Among objects) (hv : v.Among objects) :
    Conserves objects Value.Among (instantiate c v) :=
  conserves_instantiateElement h hv (conserves_instantiateList v h hv)

end Template

/-! ## 3. Transformers -/

theorem conserves_ruleInstantiate {rule : Rule} (hrule : rule.template.Among objects)
    (scope : Scope) (args : Value) {captures : Captures} (hcaptures : captures.Among objects) :
    Conserves objects Value.Among (rule.instantiate scope args captures) := by
  refine (conserves_toBindings hcaptures).bind fun objects₁ hle₁ bound hbound => ?_
  refine (Template.conserves_instantiate (c := ⟨bound, rule.pattern.depths 0, scope⟩) hbound
    (hrule.mono hle₁)).bind fun objects₂ hle₂ result hresult => ?_
  exact (conserves_record rfl).bind fun objects₃ hle₃ _ _ => conserves_pure (hresult.mono hle₃)

namespace Transformer

theorem conserves_expand {rules : List Rule} (h : ∀ rule ∈ rules, rule.template.Among objects)
    (scope : Scope) {args : Value} (hargs : args.Among objects) :
    Conserves objects Value.Among (expand scope args rules) := by
  induction rules with
  | nil => exact conserves_fail _
  | cons rule rules ih =>
    obtain ⟨hrule, hrest⟩ := List.forall_mem_cons.mp h
    rw [expand]
    split
    · exact ih hrest
    · next captures hmatch =>
      exact conserves_ruleInstantiate hrule scope args (Pattern.among_match? hargs hmatch)

/-- **The templates of a macro are part of its body.** -/
theorem among_templates {body : Value} {t : Transformer} (hbody : body.Among objects)
    (h : ofBody body = .ok t) : ∀ rule ∈ t.rules, rule.template.Among objects := by
  obtain ⟨_, _, rules, rfl, hwritten⟩ := writtenAs_of_ofBody h
  obtain ⟨hlength, hpairs⟩ := List.forall₂_iff_get.mp hwritten.rules_eq
  intro rule hrule
  obtain ⟨n, hn, rfl⟩ := List.getElem_of_mem hrule
  obtain ⟨_, _, _, _, _, hrule, -⟩ := hpairs n (hlength ▸ hn) hn
  have hamong := hbody.2.2.elements _ (List.get_mem _ ⟨n, hlength ▸ hn⟩)
  rw [hrule] at hamong
  exact hamong.2.2.2.1

end Transformer

/-- **An expansion is made of objects of the store**, and no evaluation begins. -/
theorem Effect.conserves_expand {body args : Value} (hbody : body.Among objects) (scope : Scope)
    (hargs : args.Among objects) : Conserves objects Value.Among (expand body scope args) := by
  unfold Effect.expand
  split
  · exact conserves_fail _
  · next t ht =>
    exact Transformer.conserves_expand (Transformer.among_templates hbody ht) scope hargs

theorem conserves_forIn_record {α : Type} {event : α → Event} (h : ∀ a, (event a).form? = none)
    (as : List α) :
    Conserves objects (fun _ _ => True) (forIn as PUnit.unit fun a _ => do
      record (event a)
      pure (ForInStep.yield PUnit.unit)) := by
  induction as generalizing objects with
  | nil => exact conserves_pure trivial
  | cons a as ih =>
    rw [List.forIn_cons]
    refine Retraces.bind (R := fun _ step => step = ForInStep.yield PUnit.unit)
      ((conserves_record (h a)).bind fun _ _ _ _ => conserves_pure rfl) ?_
    rintro objects₁ - _ rfl
    exact ih

theorem Effect.conserves_newTransformer {body : Value} (hbody : body.Among objects)
    (scope : Scope) : Conserves objects Value.Among (newTransformer body scope) := by
  unfold newTransformer
  generalize Transformer.compileBody body = compiled
  obtain ⟨seen, outcome⟩ := compiled
  refine (conserves_forIn_record (fun _ => rfl) seen).bind fun objects₁ hle₁ _ _ => ?_
  cases outcome with
  | error fault => exact conserves_fail _
  | ok => exact conserves_allocate fun _ hle _ hi => ⟨hi, (hbody.mono hle₁).mono hle⟩

end Lisp
