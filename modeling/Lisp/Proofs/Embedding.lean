/-
# Values that an expansion puts in place of symbols

A symbol of a template that an inner scope of the definition binds is not left to the place of the
use: its value takes its place, with a quote around it if evaluating it would give something else.
What is put there gives the value itself wherever it is evaluated (`Value.Denotes`).  For `quote` is
a special form, which no binding can hide, and what is quoted is not evaluated, so no binding of the
symbol or of a symbol inside the value plays a part.

To speak of the places of a template, its instances are described along it
(`Template.ListInstance`), from what is said about its leaves.  That instantiating gives such an
instance (`gives_instance`) needs the leaves only in the contexts that a repetition can lead to,
and what carries the proof there is that each of them binds the variables of the pattern and no
other name (`TemplateContext.OfPattern`).

A list `(... x)` stands for `x` as it is.  In it the symbols are left alone, and there a local value
is not embedded (`escaped_symbol_is_captured`).
-/
import Lisp.Proofs.Placement
import Lisp.Proofs.RecordedDepths
import Lisp.Proofs.References

namespace Lisp

open Effect

variable {l : Language} {s t : Store} {scope : Scope}

/-! ## 1. Expressions with one value everywhere -/

/-- **The expression gives this value wherever it is evaluated**: in any scope of any store, and
nothing but the report of it is left there. -/
def Value.Denotes (l : Language) (form u : Value) : Prop :=
  ∀ depth scope t, evaluate l (depth + 1) form scope t = .ok u (t.record (.evaluating form))

/-- **What a value is embedded as gives the value everywhere.** -/
theorem Template.embed_denotes (hquote : l.form? "quote" = some .quote) {u form : Value}
    {s₁ : Store} (hrun : embed u s = .ok form s₁) : form.Denotes l u := by
  intro depth scope t
  obtain ⟨_, _, hembed, -, hstands, -⟩ := embed_standsFor u scope t s
  cases hrun.symm.trans hembed
  exact evaluate_standsFor hquote (t.fixes_extends scope) hstands (.refl t) depth

theorem Template.gives_embed (hquote : l.form? "quote" = some .quote) (u : Value) :
    (embed u).Gives s.Extends fun form => form.Denotes l u := by
  intro t form t₁ ht hrun
  obtain ⟨_, _, hembed, hextends, -⟩ := embed_standsFor u (.ofRoot 0) s t
  cases hembed.symm.trans hrun
  exact ⟨embed_denotes hquote hrun, ht.trans hextends⟩

/-! ## 2. Contexts that bind the variables of the pattern only -/

/-- **The context binds and counts the variables of the pattern**, and no other names. -/
structure TemplateContext.OfPattern (start c : TemplateContext) : Prop where
  scope_eq : c.scope = start.scope
  recorded : ∀ name, (c.depths.lookup name).isSome ↔ (start.depths.lookup name).isSome
  bound : ∀ name, (c.bound.find? name).isSome ↔ (start.depths.lookup name).isSome

namespace TemplateContext.OfPattern

variable {start c : TemplateContext}

theorem covered (h : start.OfPattern c) : c.Covered start.scope :=
  ⟨h.scope_eq, fun name hname => (h.bound name).mpr ((h.recorded name).mp hname)⟩

/-- **Any other symbol** is looked up in the inner scopes of the definition. -/
theorem lookupLocal? (h : start.OfPattern c) (ht : s.Extends t) {name : String}
    (hname : start.depths.lookup name = none) :
    c.lookupLocal? t name = s.lookupLocal? start.scope name := by
  have hbound : c.bound.find? name = none := by
    rw [← Option.not_isSome_iff_eq_none, h.bound name, hname]
    exact Bool.false_ne_true
  rw [TemplateContext.lookupLocal?, hbound, Option.none_or, h.scope_eq, Store.lookupLocal?,
    ht.findIn?_eq, Store.lookupLocal?]

/-- **A repetition binds variables of the pattern anew.** -/
theorem repetition (h : start.OfPattern c) (sub : Value) (values : List Value) :
    start.OfPattern (c.repetition (Template.driving c sub) values) := by
  refine ⟨h.scope_eq, fun name => ?_, fun name => ⟨fun hname => ?_, fun hname => ?_⟩⟩
  · rw [lookup_depths_repetition, Option.isSome_map, h.recorded name]
  · rw [find?_bound_repetition, Option.isSome_or, Bool.or_eq_true] at hname
    rcases hname with hzip | hbound
    · obtain ⟨value, hvalue⟩ := Option.isSome_iff_exists.mp hzip
      have hdriving := (List.of_mem_zip (mem_of_lookup_eq_some hvalue)).1
      exact (h.recorded name).mp (Template.covered_of_mem_driving hdriving)
    · exact (h.bound name).mp hbound
  · rw [find?_bound_repetition, Option.isSome_or, Bool.or_eq_true]
    exact .inr ((h.bound name).mpr hname)

theorem of_within (hstart : start.OfPattern start) (h : start.Within c) : start.OfPattern c := by
  induction h with
  | start => exact hstart
  | @repetition c c' sub _ _ _ _ hrun hc' ih =>
    obtain ⟨values, rfl⟩ := Template.exists_repetition_of_expandRepetition hrun hc'
    exact ih.repetition sub values

end TemplateContext.OfPattern

/-- **The frame of a match** binds the variables of the pattern. -/
theorem ofPattern_of_match? {p : Pattern} {v : Value} {captures : Captures}
    (h : p.match? v = some captures) (s : Store) (scope : Scope) :
    let start : TemplateContext := ⟨(captures.toBindings s).1, p.depths 0, scope⟩
    start.OfPattern start := by
  refine ⟨rfl, fun _ => Iff.rfl, fun name => ⟨fun hname => ?_,
    Pattern.isSome_find?_toBindings h s name⟩⟩
  rw [← Pattern.isSome_find?_iff_recorded h]
  rcases lookup_of_forall₂ (R := fun _ (v : Value) (c : Capture) => v.bare = c.bare)
      (forall₂_toBindings captures s) name with ⟨_, _, -, hcapture, -⟩ | ⟨hnone, -⟩
  · rw [Captures.find?, hcapture]
    rfl
  · rw [Bindings.find?, hnone] at hname
    cases hname

/-! ## 3. Instances of templates -/

namespace Template

mutual

/-- **The value is an instance of the template**, if for its leaves it is as `Put` says: which value
a leaf becomes in a context. -/
inductive Instance (Put : TemplateContext → Value → Value → Prop) :
    TemplateContext → Value → Value → Prop where
  | leaf {c leaf v} (hleaf : leaf.isPair = false) (h : Put c leaf v) : Instance Put c leaf v
  /-- A list `(... x)` stands for `x` as it is. -/
  | escaped {c template v} (h : escaped? template = some v) : Instance Put c template v
  /-- Any other list becomes a list of the items, and after them what ends it. -/
  | list {c id head tail items ending v} (hlist : escaped? (.pair id head tail) = none)
    (h : ListInstance Put c (.pair id head tail) items ending) (hitems : items <+: v.elements)
    (hending : v.drop items.length = ending) : Instance Put c (.pair id head tail) v

/-- **The items, and what ends them, are an instance of the template list.** -/
inductive ListInstance (Put : TemplateContext → Value → Value → Prop) :
    TemplateContext → Value → List Value → Value → Prop where
  | nil {c} : ListInstance Put c .nil [] .nil
  | ending {c leaf v} (hleaf : leaf.Indivisible) (h : Put c leaf v) : ListInstance Put c leaf [] v
  | item {c id head tail item items ending} (htail : tail.afterEllipsis? = none)
    (hitem : Instance Put c head item) (h : ListInstance Put c tail items ending) :
    ListInstance Put c (.pair id head tail) (item :: items) ending
  /-- `head ...` becomes a copy of `head` in each of the contexts that it is repeated in. -/
  | repeated {c id head tail after contexts s s' copies items ending}
    (htail : tail.afterEllipsis? = some after)
    (hrun : expandRepetition c head s = .ok contexts s') (hlength : contexts.length = copies.length)
    (hcopies : ∀ c' copy, (c', copy) ∈ contexts.zip copies → Instance Put c' head copy)
    (h : ListInstance Put c after items ending) :
    ListInstance Put c (.pair id head tail) (copies ++ items) ending

end

/-- **Making the list** gives a list of the items, and after them what ends it. -/
theorem items_newListWithTail (s : Store) (items : List Value) (ending : Value) :
    let v := (s.newListWithTail items ending).1
    items <+: v.elements ∧ v.drop items.length = ending := by
  induction items with
  | nil => exact ⟨List.nil_prefix, Value.drop_zero ending⟩
  | cons item items ih => exact ⟨List.cons_prefix_cons.mpr ⟨rfl, ih.1⟩, ih.2⟩

theorem gives_finish (template : Value) (items : List Value) (ending : Value) :
    (finish template items ending).Gives s.Extends fun v =>
      items <+: v.elements ∧ v.drop items.length = ending := by
  rintro t _ _ ht ⟨⟩
  exact ⟨items_newListWithTail t items ending,
    (ht.trans (t.extends_newListWithTail items ending)).trans (Store.extends_place _ _ _)⟩

section Run

variable {Put : TemplateContext → Value → Value → Prop} {start c : TemplateContext}

/-- **An element becomes an instance of it**, if it does when it is a list. -/
theorem gives_instance_element {v : Value}
    (hleaf : v.isPair = false → (instantiateLeaf c v).Gives s.Extends (Put c v))
    (hlist : (instantiateList v c).Gives s.Extends fun list =>
      ListInstance Put c v list.1 list.2) :
    (instantiateElement c v (instantiateList v c)).Gives s.Extends (Instance Put c v) := by
  cases hescaped : escaped? v with
  | some escaped =>
    rw [instantiateElement_of_escaped hescaped]
    exact gives_pure (.escaped hescaped)
  | none =>
    cases v with
    | pair id head tail =>
      rw [instantiateElement_list hescaped]
      refine hlist.bind fun list hlist => ?_
      rintro t v t₁ ht hrun
      obtain ⟨⟨hitems, hending⟩, ht₁⟩ := gives_finish _ _ _ t v t₁ ht hrun
      exact ⟨.list hescaped hlist hitems hending, ht₁⟩
    | _ =>
      rintro t v t₁ ht hrun
      obtain ⟨hput, ht₁⟩ := hleaf rfl t v t₁ ht hrun
      exact ⟨.leaf rfl hput, ht₁⟩

/-- **The elements of a list become instances of them**, if the leaves become what is said of them
in every context that a repetition leads to. -/
theorem gives_instance_list (v : Value) {c : TemplateContext} (hc : start.Within c)
    (hleaf : ∀ c leaf, start.Within c → (instantiateLeaf c leaf).Gives s.Extends (Put c leaf)) :
    (instantiateList v c).Gives s.Extends fun list => ListInstance Put c v list.1 list.2 := by
  match v with
  | .nil => exact gives_pure .nil
  | .pair id head tail =>
    have hhead : ∀ {c}, start.Within c →
        (instantiateElement c head (instantiateList head c)).Gives s.Extends
          (Instance Put c head) :=
      fun hc => gives_instance_element (fun _ => hleaf _ head hc)
        (gives_instance_list head hc hleaf)
    cases htail : tail.afterEllipsis? with
    | some after =>
      have hsize := Value.sizeOf_afterEllipsis? htail
      have hcontexts : (expandRepetition c head).Gives s.Extends fun contexts =>
          ∃ t t', expandRepetition c head t = .ok contexts t' := fun t contexts t' ht hrun =>
        ⟨⟨t, t', hrun⟩, ((steps_keep s.lasting_extends).expandRepetition c head t _ t' ht hrun).2⟩
      rw [instantiateList_repeated htail]
      refine hcontexts.bind fun contexts ⟨t, t', hrun⟩ => ?_
      have hcopies : (contexts.mapM fun c' =>
          instantiateElement c' head (instantiateList head c')).Gives s.Extends
            (List.Forall₂ (fun c' => Instance Put c' head) contexts) :=
        gives_mapM fun c' hc' => hhead (.repetition hc hrun hc')
      refine hcopies.bind fun copies hcopies => ?_
      refine (gives_instance_list after hc hleaf).bind fun list hlist => gives_pure ?_
      obtain ⟨hlength, hcopies⟩ := List.forall₂_iff_zip.mp hcopies
      exact .repeated htail hrun hlength (fun _ _ => hcopies) hlist
    | none =>
      rw [instantiateList_item htail]
      refine (hhead hc).bind fun item hitem => ?_
      exact (gives_instance_list tail hc hleaf).bind fun list hlist =>
        gives_pure (.item htail hitem hlist)
  | .atom .. | .procedure .. | .transformer .. | .formMarker .. | .hostMarker .. =>
    rw [instantiateList_indivisible ⟨rfl, rfl⟩]
    exact (hleaf c _ hc).bind fun value hvalue => gives_pure (.ending ⟨rfl, rfl⟩ hvalue)
termination_by sizeOf v

/-- **A template becomes an instance of it.** -/
theorem gives_instance (template : Value)
    (hleaf : ∀ c leaf, start.Within c → (instantiateLeaf c leaf).Gives s.Extends (Put c leaf)) :
    (instantiate start template).Gives s.Extends (Instance Put start template) :=
  gives_instance_element (fun _ => hleaf start template .start)
    (gives_instance_list template .start hleaf)

end Run

/-! ## 4. What the leaves become -/

/-- **What a leaf becomes** when the template is instantiated in `start`, in a context that a
repetition may have led to. -/
structure Becomes (l : Language) (s : Store) (start c : TemplateContext) (leaf v : Value) :
    Prop where
  /-- A variable of the pattern becomes what it is bound to. -/
  bound : ∀ name, leaf.symbol? = some name → (start.depths.lookup name).isSome →
    c.bound.find? name = some v
  /-- Another symbol that an inner scope of the definition binds becomes something that gives its
  value wherever it is evaluated. -/
  embedded : ∀ name u, leaf.symbol? = some name → start.depths.lookup name = none →
    s.lookupLocal? start.scope name = some u → v.Denotes l u
  /-- Everything else is left alone. -/
  kept : (∀ name, leaf.symbol? = some name → start.depths.lookup name = none ∧
    s.lookupLocal? start.scope name = none) → v = leaf

namespace Becomes

variable {start c : TemplateContext} {leaf v u : Value} {name : String}

theorem of_variable (hleaf : leaf.symbol? = some name) (hname : (start.depths.lookup name).isSome)
    (hv : c.bound.find? name = some v) : Becomes l s start c leaf v := by
  have hsome : start.depths.lookup name ≠ none := Option.isSome_iff_ne_none.mp hname
  refine ⟨fun other h _ => ?_, fun other _ h hnone _ => ?_, fun h => ?_⟩
  · cases hleaf.symm.trans h
    exact hv
  · cases hleaf.symm.trans h
    exact absurd hnone hsome
  · exact absurd (h name hleaf).1 hsome

theorem of_local (hleaf : leaf.symbol? = some name) (hname : start.depths.lookup name = none)
    (hlocal : s.lookupLocal? start.scope name = some u) (hv : v.Denotes l u) :
    Becomes l s start c leaf v := by
  refine ⟨fun other h hsome => ?_, fun other u h _ hu => ?_, fun h => ?_⟩
  · cases hleaf.symm.trans h
    exact absurd hname (Option.isSome_iff_ne_none.mp hsome)
  · cases hleaf.symm.trans h
    cases hlocal.symm.trans hu
    exact hv
  · cases hlocal.symm.trans (h name hleaf).2

theorem of_free (hfree : ∀ name, leaf.symbol? = some name → start.depths.lookup name = none ∧
    s.lookupLocal? start.scope name = none) : Becomes l s start c leaf leaf := by
  refine ⟨fun name hleaf hname => ?_, fun name u hleaf _ hlocal => ?_, fun _ => rfl⟩
  · exact absurd (hfree name hleaf).1 (Option.isSome_iff_ne_none.mp hname)
  · cases hlocal.symm.trans (hfree name hleaf).2

end Becomes

/-- **A leaf becomes this** in every context of the pattern. -/
theorem gives_becomes (hquote : l.form? "quote" = some .quote) {start c : TemplateContext}
    (hc : start.OfPattern c) (leaf : Value) :
    (instantiateLeaf c leaf).Gives s.Extends (Becomes l s start c leaf) := by
  unfold instantiateLeaf
  split
  · next hleaf => exact gives_pure (.of_free fun _ h => absurd (hleaf.symm.trans h) nofun)
  · next name hleaf =>
    split
    · next hdepth =>
      obtain ⟨value, hvalue, hlookup⟩ := hc.covered.lookup hdepth
      rw [hlookup]
      exact gives_pure (.of_variable hleaf ((hc.recorded name).mp hdepth) hvalue)
    · next hdepth =>
      have hname : start.depths.lookup name = none := by
        rwa [hc.recorded name, Option.not_isSome_iff_eq_none] at hdepth
      refine gives_get.bind fun t ht => ?_
      rw [hc.lookupLocal? ht hname]
      cases hlocal : s.lookupLocal? start.scope name with
      | none =>
        refine gives_pure (.of_free fun other h => ?_)
        obtain rfl := Option.some.inj (hleaf.symm.trans h)
        exact ⟨hname, hlocal⟩
      | some u =>
        refine Gives.bind (keeps_modifyGet s.lasting_extends fun t => t.extends_record _)
          fun _ _ => ?_
        rintro t₁ form t₂ ht₁ hrun
        obtain ⟨hform, ht₂⟩ := gives_embed hquote u t₁ form t₂ ht₁ hrun
        exact ⟨.of_local hleaf hname hlocal hform, ht₂⟩

/-- **A rule in use gives an instance of its template.** -/
theorem instance_of_ruleInstantiate (hquote : l.form? "quote" = some .quote) {rule : Rule}
    {args v : Value} {captures : Captures} (hmatch : rule.pattern.match? args = some captures)
    {s' : Store} (hrun : rule.instantiate scope args captures s = .ok v s') :
    let start : TemplateContext := ⟨(captures.toBindings s).1, rule.pattern.depths 0, scope⟩
    Instance (Becomes l s start) start rule.template v := by
  intro start
  have hstart : start.OfPattern start := ofPattern_of_match? hmatch s scope
  have htemplate : (instantiate start rule.template).Gives s.Extends
      (Instance (Becomes l s start) start rule.template) :=
    gives_instance rule.template fun c leaf hc => gives_becomes hquote (hstart.of_within hc) leaf
  have hrecord : ∀ e, (record e).Keeps s.Extends := fun e =>
    keeps_modifyGet s.lasting_extends fun t => t.extends_record e
  exact (of_ruleInstantiate hrecord htemplate (captures.extends_toBindings s) hrun).1

end Template

/-! ## 5. A use of a macro -/

/-- **A local value that an expansion embeds gives itself wherever it is evaluated.**  The expansion
of a use is an instance of the template of the first rule that matches.  In it, what stands in the
place of a symbol that is no variable and that an inner scope of the definition binds gives the
value bound there, in whatever scope and store it is evaluated, and changes no frame. -/
theorem embedded_gives_value (hquote : l.form? "quote" = some .quote) {body args v : Value}
    {s' : Store} (h : Effect.expand body scope args s = .ok v s') :
    ∃ t before rule after captures, Transformer.ofBody body = .ok t ∧
      t.rules = before ++ rule :: after ∧ (∀ r ∈ before, r.pattern.match? args = none) ∧
      rule.pattern.match? args = some captures ∧
      let start : TemplateContext := ⟨(captures.toBindings s).1, rule.pattern.depths 0, scope⟩
      Template.Instance (Template.Becomes l s start) start rule.template v := by
  obtain ⟨t, before, rule, after, captures, hbody, hrules, hbefore, hmatch, hrun⟩ :=
    Effect.exists_rule_of_expand h
  exact ⟨t, before, rule, after, captures, hbody, hrules, hbefore, hmatch,
    Template.instance_of_ruleInstantiate hquote hmatch hrun⟩

/-- The template `tag`. -/
def bareTag : Value :=
  .atom 8 (.symbol "tag")

/-- The template `(... tag)`. -/
def escapedTag : Value :=
  .pair 8 (.atom 9 (.symbol "...")) (.pair 10 (.atom 11 (.symbol "tag")) .nil)

/-- With `tag` bound to the symbol `local` where the macro is defined, the use `(m)` of
`((_) tag)` is expanded to a form that gives this symbol everywhere. -/
theorem embedded_gives_value_local :
    let s := innerStore "tag" (.symbol "local") bareTag
    ∃ v s', Effect.expand (oneRule bareTag) innerScope .nil s = .ok v s' ∧
      s.lookupLocal? innerScope "tag" = some (.atom 6 (.symbol "local")) ∧
      v.Denotes .standard (.atom 6 (.symbol "local")) := by
  intro s
  have hrun : Effect.expand (oneRule bareTag) innerScope .nil s = .ok _ _ := rfl
  obtain ⟨t, before, rule, after, captures, ht, hrules, -, -, hinstance⟩ :=
    embedded_gives_value (l := .standard) rfl hrun
  cases ht
  cases before with
  | cons _ before => cases before <;> cases hrules
  | nil =>
    cases hrules
    cases hinstance with
    | leaf _ h => exact ⟨_, _, hrun, rfl, h.embedded "tag" _ rfl rfl rfl⟩
    | escaped h => cases h

/-- The scope of a use in which `tag` is bound to `5`. -/
def useScope : Scope :=
  ⟨[2], 0⟩

/-- The same store with one more frame for the use. -/
def useStore (template : Value) : Store :=
  let s := innerStore "tag" (.symbol "local") template
  { s with frames := s.frames.push [("tag", .atom 16 (.integer 5))] }

/-- **A symbol in a list `(... x)` is not embedded.**  The use `(m)` of `((_) (... tag))` is
expanded to the symbol `tag`, which gives `5` at this use and not the value `local` that the scope
of the definition binds. -/
theorem escaped_symbol_is_captured :
    let s := useStore escapedTag
    ∃ t rule v s' s'', Transformer.ofBody (oneRule escapedTag) = .ok t ∧ t.rules = [rule] ∧
      rule.template.Mentions "tag" ∧ (rule.pattern.depths 0).lookup "tag" = none ∧
      s.lookupLocal? innerScope "tag" = some (.atom 6 (.symbol "local")) ∧
      Effect.expand (oneRule escapedTag) innerScope .nil s = .ok v s' ∧ v.symbol? = some "tag" ∧
      evaluate .standard 1 v useScope s' = .ok (.atom 16 (.integer 5)) s'' ∧
      ¬ v.Denotes .standard (.atom 6 (.symbol "local")) := by
  intro s
  obtain ⟨v, s', s'', hrun, hsymbol, hvalue⟩ :
      ∃ v s' s'', Effect.expand (oneRule escapedTag) innerScope .nil s = .ok v s' ∧
        v.symbol? = some "tag" ∧
        evaluate .standard 1 v useScope s' = .ok (.atom 16 (.integer 5)) s'' :=
    ⟨_, _, _, rfl, rfl, rfl⟩
  have hmentions : escapedTag.Mentions "tag" := by simp [escapedTag, Value.Mentions]
  refine ⟨_, _, v, s', s'', rfl, rfl, hmentions, rfl, rfl, hrun, hsymbol, hvalue, fun h => ?_⟩
  cases (h 0 useScope s').symm.trans hvalue

end Lisp
