/-
# Symbols of a template in the scope of its definition

A symbol of a template that is no pattern variable is replaced by its value, if a scope inside the
global one binds it where the macro was defined.  Expanding the same use with nothing but the global
scope in sight leaves all these symbols alone.  The two expansions have one shape, and where they
differ, one has a symbol and the other an expression for the value of that symbol
(`simulatesIn_expand_global`).

Expanding only makes objects, so a name keeps its value in the meantime (`keeps_expand`).  But the
two sides do not make the same objects: the quote around a value is made on one side only.  From
then on the numbers of new objects differ by more.  That does no harm as long as the objects of the
correspondence were all made before, and this is carried along (`Store.CorrespondsIn`).
-/
import Lisp.Proofs.Application
import Lisp.Proofs.Capturing

namespace Lisp

open Correspondence (below)
open Effect

variable {c c' : Correspondence} {s s' s₁ s₁' t t' : Store} {scope : Scope} {v w : Value}
  {I : Store → Prop} {α β γ δ : Type}

/-! ## 1. What an effect gives, and what it leaves -/

/-- **From stores of a kind the effect gives only what is so, and leaves stores of the kind.** -/
def Effect.Gives (I : Store → Prop) (P : α → Prop) (effect : Effect α) : Prop :=
  ∀ s a s₁, I s → effect s = .ok a s₁ → P a ∧ I s₁

/-- **The effect leaves stores of a kind as they are**, unless it fails. -/
def Effect.Keeps (I : Store → Prop) (effect : Effect α) : Prop :=
  effect.Gives I fun _ => True

/-- **What is so of a store stays so when objects are made.** -/
def Store.Lasting (I : Store → Prop) : Prop :=
  ∀ s s₁, s.Extends s₁ → I s → I s₁

theorem Store.lasting_extends (s : Store) : Lasting s.Extends :=
  fun _ _ h h' => h'.trans h

theorem Effect.keeps_modifyGet (hI : Store.Lasting I) {f : Store → α × Store}
    (h : ∀ s : Store, s.Extends (f s).2) : Keeps I (modifyGet f) := by
  rintro s a s₁ hs ⟨⟩
  exact ⟨trivial, hI _ _ (h s) hs⟩

theorem Effect.Keeps.bind {effect : Effect α} {next : α → Effect β} (h : Keeps I effect)
    (hnext : ∀ a, Keeps I (next a)) : Keeps I (effect >>= next) := by
  intro s b s₂ hs hrun
  cases heffect : effect s with
  | ok a s₁ =>
    rw [bind_of_ok heffect] at hrun
    exact hnext a s₁ b s₂ (h s a s₁ hs heffect).2 hrun
  | error stop s₁ =>
    rw [bind_of_error heffect] at hrun
    cases hrun

theorem Effect.keeps_fail (fault : Fault) : Keeps I (fail fault : Effect α) := by
  rintro s a s₁ hs ⟨⟩

mutual

theorem Capture.extends_toValue : ∀ (capture : Capture) (s : Store), s.Extends (capture.toValue s).2
  | .one _, s => .refl s
  | .rest elements ending, s => s.extends_newListWithTail elements ending
  | .many items, s => (extends_toValues items s).trans (Store.extends_newList _ _)

theorem Capture.extends_toValues :
    ∀ (items : List Capture) (s : Store), s.Extends (Capture.toValues s items).2
  | [], s => .refl s
  | item :: items, s => (extends_toValue item s).trans (extends_toValues items _)

end

theorem Captures.extends_toBindings (captures : Captures) (s : Store) :
    s.Extends (captures.toBindings s).2 := by
  induction captures generalizing s with
  | nil => exact .refl s
  | cons entry captures ih => exact (Capture.extends_toValue entry.2 s).trans (ih _)

theorem Store.extends_place (s : Store) (v : Value) (span : Option Span) :
    s.Extends (s.place v span) :=
  have hquiet := s.quiet_place v span
  ⟨hquiet.spans.ge, hquiet.frames, hquiet.output⟩

/-- **The steps of a template only make objects.** -/
theorem Template.steps_keep (hI : Store.Lasting I) : StepsAre (Keeps I) where
  pure a := by
    rintro s _ _ hs ⟨⟩
    exact ⟨trivial, hs⟩
  bind := .bind
  get := by
    rintro s _ _ hs ⟨⟩
    exact ⟨trivial, hs⟩
  fail _ := keeps_fail _
  record e := keeps_modifyGet hI fun s => s.extends_record e
  toBindings captures := keeps_modifyGet hI captures.extends_toBindings
  newQuote v := keeps_modifyGet hI fun s => s.extends_newQuote v
  finish template items ending := keeps_modifyGet hI fun s =>
    (s.extends_newListWithTail items ending).trans (Store.extends_place _ _ _)

/-- **Expanding a use of a macro only makes objects.** -/
theorem keeps_expand (hI : Store.Lasting I) (rules : Value) (scope : Scope) (args : Value) :
    Keeps I (expand rules scope args) :=
  (Template.steps_keep hI).expand (fun fault => keeps_fail fault) rules scope args

/-! ## 2. Runs from stores of a kind -/

/-- **Two stores of a kind correspond, and the objects of the correspondence were all made.** -/
structure Store.CorrespondsIn (I : Store → Prop) (c : Correspondence) (s s' : Store) : Prop where
  stores : s.Corresponds c s'
  made : ∀ {i j}, c.objects i j → i < s.spans.size
  left : I s
  right : I s'

/-- After two runs it is so again, if the stores are still of the kind. -/
theorem Store.CorrespondsIn.after (h : s.CorrespondsIn I c s') (hgrows : s.Grows c c' s₁)
    (hstores : s₁.Corresponds c' s₁') (hleft : I s₁) (hright : I s₁') :
    s₁.CorrespondsIn I c' s₁' := by
  refine ⟨hstores, fun {i j} hij => ?_, hleft, hright⟩
  rcases hgrows.objects hij with hold | hnew
  · exact (h.made hold).trans_le hgrows.spans_le
  · exact hnew.2

theorem Store.CorrespondsIn.record (h : s.CorrespondsIn I c s') (hI : Store.Lasting I)
    (e e' : Event) : (s.record e).CorrespondsIn I c (s'.record e') :=
  h.after ((s.quiet_record e).grows c) (h.stores.quiet (s.quiet_record e) (s'.quiet_record e'))
    (hI _ _ (s.extends_record e) h.left) (hI _ _ (s'.extends_record e') h.right)

/-- **More objects are made on the left only.** -/
theorem Store.CorrespondsIn.extends_left (h : s.CorrespondsIn I c s') (hs : s.Extends s₁) :
    s.Grows c c s₁ ∧ s₁.Corresponds c s' := by
  refine ⟨.of_frames_eq (le_refl c) rfl .inl hs.spans (congrArg Array.size hs.frames)
    fun _ => hs.bindings _, ⟨fun {k j} hij => ?_, fun {i k} hij => ?_⟩, ?_, fun f hf => ?_, ?_⟩
  · have := h.made hij
    have := hs.spans
    omega
  · have := h.made hij
    have := h.stores.objects.right hij
    omega
  · rw [hs.frames]
    exact h.stores.frames
  · rw [hs.bindings]
    exact h.stores.bindings f hf
  · rw [hs.output]
    exact h.stores.output

namespace Effect

variable {R : Correspondence → α → β → Prop} {Q : Correspondence → γ → δ → Prop}
  {effect : Effect α} {effect' : Effect β}

/-- **From all stores of a kind that correspond the two effects end alike.** -/
def SimulatesIn (I : Store → Prop) (c : Correspondence) (R : Correspondence → α → β → Prop)
    (effect : Effect α) (effect' : Effect β) : Prop :=
  ∀ s s', s.CorrespondsIn I c s' → Outcome c R s (effect s) (effect' s')

theorem Simulates.within (h : Simulates c R effect effect') : SimulatesIn I c R effect effect' :=
  fun s s' hs => h s s' hs.stores

theorem SimulatesIn.bind {P : α → Prop} {P' : β → Prop} {next : α → Effect γ} {next' : β → Effect δ}
    (h : SimulatesIn I c R effect effect') (hleft : effect.Gives I P) (hright : effect'.Gives I P')
    (hnext : ∀ c', c ≤ c' → ∀ a b, R c' a b → P a → P' b → SimulatesIn I c' Q (next a) (next' b)) :
    SimulatesIn I c Q (effect >>= next) (effect' >>= next') := by
  intro s s' hs
  refine (h s s' hs).bind fun hrun hrun' hgrows hstores hR => ?_
  obtain ⟨ha, hI⟩ := hleft s _ _ hs.left hrun
  obtain ⟨hb, hI'⟩ := hright s' _ _ hs.right hrun'
  exact hnext _ hgrows.le _ _ hR ha hb _ _ (hs.after hgrows hstores hI hI')

/-- What comes last need not leave stores of the kind. -/
theorem SimulatesIn.andThen {next : α → Effect γ} {next' : β → Effect δ}
    (h : SimulatesIn I c R effect effect')
    (hnext : ∀ c', c ≤ c' → ∀ a b, R c' a b → Simulates c' Q (next a) (next' b)) :
    SimulatesIn I c Q (effect >>= next) (effect' >>= next') :=
  fun s s' hs => (h s s' hs).bind fun _ _ hgrows hstores hR =>
    hnext _ hgrows.le _ _ hR _ _ hstores

theorem SimulatesIn.imp {R' : Correspondence → α → β → Prop}
    (h : SimulatesIn I c R effect effect') (himp : ∀ {c a b}, R c a b → R' c a b) :
    SimulatesIn I c R' effect effect' := by
  intro s s' hs
  have houtcome := h s s' hs
  generalize effect s = result, effect' s' = result' at houtcome
  cases houtcome with
  | ok hgrows hstores h => exact .ok hgrows hstores (himp h)
  | failed hgrows hstores h => exact .failed hgrows hstores h
  | tooDeep => exact .tooDeep

theorem simulatesIn_mapM {A : Correspondence → α → γ → Prop} {B : Correspondence → β → δ → Prop}
    (hA : ∀ {c c' a b}, c ≤ c' → A c a b → A c' a b)
    (hB : ∀ {c c' a b}, c ≤ c' → B c a b → B c' a b) {f : α → Effect β} {g : γ → Effect δ}
    (hf : ∀ a, (f a).Keeps I) (hg : ∀ a, (g a).Keeps I)
    (h : ∀ c', c ≤ c' → ∀ a b, A c' a b → SimulatesIn I c' B (f a) (g b)) {as : List α}
    {bs : List γ} (has : List.Forall₂ (A c) as bs) :
    SimulatesIn I c (fun c => List.Forall₂ (B c)) (as.mapM f) (bs.mapM g) := by
  induction as generalizing bs c with
  | nil =>
    cases has
    rw [List.mapM_nil, List.mapM_nil]
    exact (simulates_pure .nil).within
  | cons a as ih =>
    cases has with
    | cons hab hrest =>
      rw [List.mapM_cons, List.mapM_cons]
      refine (h c (le_refl c) _ _ hab).bind (hf _) (hg _) fun c₁ hc₁ b d hbd _ _ => ?_
      have hrest₁ := hrest.imp fun _ _ hab => hA hc₁ hab
      refine (ih (fun c' hc' => h c' (hc₁.trans hc')) hrest₁).andThen fun c₂ hc₂ bs ds hbs => ?_
      exact simulates_pure (.cons (hB hc₂ hbd) hbs)

end Effect

/-! ## 3. Symbols and values -/

/-- **An expression for a value**: a name that it is bound to, its quote, or the value itself if it
is not evaluated further. -/
inductive Value.StandsFor (s : Store) (scope : Scope) : Value → Value → Prop where
  | name {i : Nat} {name : String} {u : Value} (h : s.lookup? scope name = some u) :
    StandsFor s scope (.atom i (.symbol name)) u
  | quoted {v u : Value} (h : v.Quotes u) : StandsFor s scope v u
  | itself {u : Value} (hsymbol : u.isSymbol = false) (hpair : u.isPair = false) :
    StandsFor s scope u u

/-- **Two expressions are the same but for references**: in some places the one has a symbol where
the other has an expression for the same value. -/
inductive Value.Resolved (s : Store) (scope : Scope) (c : Correspondence) :
    Value → Value → Prop where
  | same {v w : Value} (h : v.Corresponds c w) : Resolved s scope c v w
  | pair {i j : Nat} {head head' tail tail' : Value} (h : c.objects i j)
    (hhead : Resolved s scope c head head') (htail : Resolved s scope c tail tail') :
    Resolved s scope c (.pair i head tail) (.pair j head' tail')
  | read {v w u : Value} (hv : v.StandsFor s scope u) (hw : w.StandsFor s scope u)
    (hne : v.isSymbol ≠ w.isSymbol) : Resolved s scope c v w

theorem Value.Resolved.inherited (s : Store) (scope : Scope) :
    PairsInherit (Value.Resolved s scope) := by
  refine ⟨fun {c c' v w} hc h => ?_, .pair⟩
  induction h with
  | same h => exact .same (h.mono hc)
  | pair h _ _ ihHead ihTail => exact .pair (Correspondence.objects_mono hc h) ihHead ihTail
  | read hv hw hne => exact .read hv hw hne

theorem Value.standsFor_of_symbol? {name : String} {u : Value} (hv : v.symbol? = some name)
    (h : s.lookup? scope name = some u) : v.StandsFor s scope u := by
  cases v with
  | atom i value =>
    cases value with
    | symbol other =>
      cases hv
      exact .name h
    | _ => cases hv
  | _ => cases hv

/-- What a scope inside the global one binds is bound in the scope. -/
theorem Store.lookup?_of_lookupLocal? {name : String} (h : s.lookupLocal? scope name = some v) :
    s.lookup? scope name = some v := by
  simp only [Store.lookupLocal?, Store.findIn?] at h
  simp only [Store.lookup?, Store.findIn?, Scope.frames, List.findSome?_append, h, Option.some_or]

theorem Store.Extends.findIn?_eq (h : s.Extends s₁) (frames : List Nat) (name : String) :
    s₁.findIn? frames name = s.findIn? frames name := by
  simp only [Store.findIn?, h.bindings]

/-! ## 4. Templates in the two scopes -/

/-- **Two contexts of one template**, one in the scope of the definition and one in its global
scope, in which the variables of the pattern are all bound. -/
structure TemplateContext.InScopes (scope : Scope) (c : Correspondence) (x y : TemplateContext) :
    Prop where
  bound : Bindings.Corresponds c x.bound y.bound
  depths : x.depths = y.depths
  covered : ∀ name, (y.depths.lookup name).isSome → (y.bound.find? name).isSome
  left : x.scope = scope
  right : y.scope = scope.global

/-- **A repetition binds what the context around it binds**, and more. -/
theorem TemplateContext.isSome_find?_repetition {c : TemplateContext}
    (h : ∀ name, (c.depths.lookup name).isSome → (c.bound.find? name).isSome) {names : List String}
    {values : List Value} (name : String)
    (hname : ((c.repetition names values).depths.lookup name).isSome) :
    ((c.repetition names values).bound.find? name).isSome := by
  have hdepths : (c.repetition names values).depths.lookup name = (c.depths.lookup name).map _ :=
    lookup_map_depths c.depths
      (fun name depth => if names.contains name then depth - 1 else depth) name
  rw [hdepths, Option.isSome_map] at hname
  have hbound := h name hname
  simp only [TemplateContext.repetition, Bindings.find?, List.lookup_append] at hbound ⊢
  rw [Option.isSome_or, hbound, Bool.or_true]

/-- **The frame of a match binds the names of the pattern.** -/
theorem Pattern.isSome_find?_toBindings {p : Pattern} {v : Value} {captures : Captures}
    (h : p.match? v = some captures) (s : Store) (name : String)
    (hname : ((p.depths 0).lookup name).isSome) :
    ((captures.toBindings s).1.find? name).isSome := by
  rw [isSome_lookup_iff, Pattern.map_fst_depths, ← Pattern.isSome_find?_of_match? h] at hname
  rcases lookup_of_forall₂ (R := fun _ (v : Value) (c : Capture) => v.bare = c.bare)
      (forall₂_toBindings captures s) name with ⟨_, _, hv, -, -⟩ | ⟨-, hc, -⟩
  · rw [Bindings.find?, hv]
    rfl
  · rw [Captures.find?, hc] at hname
    cases hname

namespace TemplateContext.InScopes

variable {x y : TemplateContext}

theorem mono (h : InScopes scope c x y) (hc : c ≤ c') : InScopes scope c' x y :=
  ⟨h.bound.mono hc, h.depths, h.covered, h.left, h.right⟩

/-- **A variable of the pattern** is not looked up in a scope. -/
theorem lookup (h : InScopes scope c x y) {name : String} (hname : (y.depths.lookup name).isSome) :
    Simulates c Value.Corresponds (x.lookup name) (y.lookup name) := by
  unfold TemplateContext.lookup
  rcases rel_cases (h.bound.find? name) with ⟨-, hnone⟩ | ⟨v, w, hv, hw, hvw⟩
  · have hbound := h.covered name hname
    rw [hnone] at hbound
    cases hbound
  · rw [hv, hw]
    exact simulates_pure hvw

theorem repetition (h : InScopes scope c x y) (names : List String) {vs ws : List Value}
    (hvs : List.Forall₂ (Value.Corresponds c) vs ws) :
    InScopes scope c (x.repetition names vs) (y.repetition names ws) := by
  refine ⟨List.rel_append (zip_corresponds names hvs) h.bound, ?_,
    isSome_find?_repetition h.covered, h.left, h.right⟩
  simp only [TemplateContext.repetition, h.depths]

end TemplateContext.InScopes

/-- **A value that is put in a form** becomes an expression for it, which is no symbol. -/
theorem Template.embed_standsFor (u : Value) (scope : Scope) (s t : Store) :
    ∃ v t₁, embed u t = .ok v t₁ ∧ t.Extends t₁ ∧ v.StandsFor s scope u ∧ v.isSymbol = false := by
  unfold embed
  by_cases hembed : (u.isSymbol || u.isPair) = true
  · rw [if_pos hembed]
    exact ⟨_, _, rfl, t.extends_newQuote u, .quoted (t.newQuote_quotes u), rfl⟩
  · rw [if_neg hembed]
    rw [Bool.not_eq_true, Bool.or_eq_false_iff] at hembed
    exact ⟨u, t, rfl, .refl t, .itself hembed.1 hembed.2, hembed.1⟩

namespace Template

variable {x y : TemplateContext}

/-- **A symbol is left alone on the right**, and on the left stands for its value in `s`. -/
theorem simulatesIn_instantiateLeaf (h : TemplateContext.InScopes scope c x y)
    (hvw : v.Corresponds c w) :
    SimulatesIn s.Extends c (Value.Resolved s scope) (instantiateLeaf x v)
      (instantiateLeaf y w) := by
  unfold instantiateLeaf
  rw [hvw.symbol?_eq, h.depths]
  split
  · exact (simulates_pure (.same hvw)).within
  · next name hsymbolic =>
    split
    · next hdepth => exact (h.lookup hdepth).within.imp .same
    · intro t t' ht
      rw [bind_of_ok (rfl : (get : Effect Store) t = .ok t t),
        bind_of_ok (rfl : (get : Effect Store) t' = .ok t' t')]
      unfold TemplateContext.lookupLocal?
      rcases rel_cases (h.bound.find? name) with ⟨hnone, hnone'⟩ | ⟨value, value', hv, hw, hvalue⟩
      · have hleft : t.lookupLocal? x.scope name = s.lookupLocal? scope name := by
          rw [h.left]
          exact ht.left.findIn?_eq _ _
        have hright : t'.lookupLocal? y.scope name = none := by
          rw [h.right]
          rfl
        rw [hnone, hnone', Option.none_or, Option.none_or, hleft, hright]
        cases hlocal : s.lookupLocal? scope name with
        | none => exact simulates_pure (.same hvw) t t' ht.stores
        | some u =>
          obtain ⟨form, t₁, hembed, ht₁, hform, hsymbol⟩ :=
            embed_standsFor u scope s (t.record (.symbolResolved name u))
          obtain ⟨hgrows, hstores⟩ := ht.extends_left ((t.extends_record _).trans ht₁)
          have hrun : (do record (.symbolResolved name u); embed u) t = .ok form t₁ := hembed
          dsimp only
          rw [hrun]
          have hname : w.StandsFor s scope u :=
            Value.standsFor_of_symbol? hsymbolic (Store.lookup?_of_lookupLocal? hlocal)
          refine .ok hgrows hstores (.read hform hname ?_)
          rw [hsymbol, Value.isSymbol, hsymbolic]
          exact Bool.false_ne_true
      · rw [hv, hw]
        have hsame : Simulates c Value.Corresponds
            (do record (.symbolResolved name value); embed value)
            (do record (.symbolResolved name value'); embed value') :=
          (simulates_record _ _).bind fun c₁ hc₁ _ _ _ => simulates_embed (hvalue.mono hc₁)
        exact hsame.within.imp .same t t' ht

theorem driving_eq_of_inScopes (h : TemplateContext.InScopes scope c x y)
    (hvw : v.Corresponds c w) : driving x v = driving y w := by
  rw [driving, driving, hvw.symbols_eq, h.depths]

theorem covered_of_mem_driving {name : String} (h : name ∈ driving y w) :
    (y.depths.lookup name).isSome := by
  rw [driving, List.mem_filter] at h
  cases hdepth : y.depths.lookup name with
  | none => simp [hdepth] at h
  | some => rfl

theorem simulates_expandRepetition_inScopes (h : TemplateContext.InScopes scope c x y)
    (hvw : v.Corresponds c w) :
    Simulates c (fun c => List.Forall₂ (TemplateContext.InScopes scope c)) (expandRepetition x v)
      (expandRepetition y w) :=
  simulates_expandRepetition (A := TemplateContext.InScopes scope) hvw
    (driving_eq_of_inScopes h hvw)
    (fun _ hname _ hc₁ => (h.mono hc₁).lookup (covered_of_mem_driving hname))
    fun hc₁ hvs => (h.mono hc₁).repetition _ hvs

/-- **The items of two lists and what ends them** are the same but for references. -/
abbrev ListsResolved (s : Store) (scope : Scope) (c : Correspondence) :
    List Value × Value → List Value × Value → Prop :=
  PairsCorrespond (List.Forall₂ (Value.Resolved s scope c)) (Value.Resolved s scope c)

theorem simulatesIn_instantiateElement (h : TemplateContext.InScopes scope c x y)
    (hvw : v.Corresponds c w) {asList asList' : Effect (List Value × Value)}
    (hlist : SimulatesIn s.Extends c (ListsResolved s scope) asList asList') :
    SimulatesIn s.Extends c (Value.Resolved s scope) (instantiateElement x v asList)
      (instantiateElement y w asList') := by
  have hleaf := simulatesIn_instantiateLeaf (s := s) h hvw
  cases hvw with
  | @pair i j head head' tail tail' _ hhead htail =>
    have hmade : SimulatesIn s.Extends c (Value.Resolved s scope)
        (asList >>= fun list => finish (.pair i head tail) list.1 list.2)
        (asList' >>= fun list => finish (.pair j head' tail') list.1 list.2) :=
      hlist.andThen fun _ _ _ _ hlists =>
        simulates_finish (Value.Resolved.inherited s scope) _ _ hlists.1 hlists.2
    simp only [instantiateElement, hhead.isSymbolNamed_eq]
    cases head'.isSymbolNamed ellipsis with
    | false => exact hmade
    | true =>
      cases htail with
      | pair _ hescaped => exact (simulates_pure (.same hescaped)).within
      | _ => exact hmade
  | _ => exact hleaf

theorem simulatesIn_instantiateList (v : Value) {c : Correspondence} {x y : TemplateContext}
    (h : TemplateContext.InScopes scope c x y) {w : Value} (hvw : v.Corresponds c w) :
    SimulatesIn s.Extends c (ListsResolved s scope) (instantiateList v x)
      (instantiateList w y) := by
  have hsteps : StepsAre (Keeps s.Extends) := steps_keep s.lasting_extends
  have hinherited := Value.Resolved.inherited s scope
  match v, w, hvw with
  | .nil, .nil, .nil => exact (simulates_pure ⟨.nil, .same .nil⟩).within
  | .pair _ head tail, .pair _ head' tail', .pair _ hhead htail =>
    have helement : ∀ {c x y}, TemplateContext.InScopes scope c x y → head.Corresponds c head' →
        SimulatesIn s.Extends c (Value.Resolved s scope)
          (instantiateElement x head (instantiateList head x))
          (instantiateElement y head' (instantiateList head' y)) := fun h hhead =>
      simulatesIn_instantiateElement h hhead (simulatesIn_instantiateList head h hhead)
    have hkeeps : ∀ (sub : Value) x, Keeps s.Extends
        (instantiateElement x sub (instantiateList sub x)) := fun sub x =>
      hsteps.instantiateElement x sub (hsteps.instantiateList sub x)
    rcases rel_cases htail.afterEllipsis? with
      ⟨hnone, hnone'⟩ | ⟨after, after', hleft, hright, hafter⟩
    · rw [instantiateList_item hnone, instantiateList_item hnone']
      refine (helement h hhead).bind (hkeeps head x) (hkeeps head' y)
        fun c₁ hc₁ item item' hitem _ _ => ?_
      refine (simulatesIn_instantiateList tail (h.mono hc₁) (htail.mono hc₁)).andThen
        fun c₂ hc₂ others others' hothers => ?_
      exact simulates_pure ⟨.cons (hinherited.mono hc₂ hitem) hothers.1, hothers.2⟩
    · have hsize := Value.sizeOf_afterEllipsis? hleft
      rw [instantiateList_repeated hleft, instantiateList_repeated hright]
      refine (simulates_expandRepetition_inScopes h hhead).within.bind
        (hsteps.expandRepetition x head) (hsteps.expandRepetition y head')
        fun c₁ hc₁ contexts contexts' hcontexts _ _ => ?_
      have hitems := simulatesIn_mapM (A := TemplateContext.InScopes scope)
        (B := Value.Resolved s scope) (fun hc h => h.mono hc) hinherited.mono (hkeeps head)
        (hkeeps head')
        (fun c' hc' _ _ h => helement h ((hhead.mono hc₁).mono hc')) hcontexts
      refine hitems.bind (hsteps.mapM (hkeeps head) contexts) (hsteps.mapM (hkeeps head') contexts')
        fun c₂ hc₂ items items' hitems _ _ => ?_
      refine (simulatesIn_instantiateList after (h.mono (hc₁.trans hc₂))
        (hafter.mono (hc₁.trans hc₂))).andThen fun c₃ hc₃ others others' hothers => ?_
      have hitems₃ := hitems.imp fun _ _ hitem => hinherited.mono hc₃ hitem
      exact simulates_pure ⟨List.rel_append hitems₃ hothers.1, hothers.2⟩
  | .atom .., _, hvw | .procedure .., _, hvw | .transformer .., _, hvw | .formMarker .., _, hvw
  | .hostMarker .., _, hvw =>
    rw [instantiateList_indivisible ⟨rfl, rfl⟩,
      instantiateList_indivisible (hvw.indivisible_iff.mp ⟨rfl, rfl⟩)]
    exact (simulatesIn_instantiateLeaf h hvw).andThen fun _ _ _ _ hvalue =>
      simulates_pure ⟨.nil, hvalue⟩
termination_by sizeOf v

end Template

/-! ## 5. Macros in the two scopes -/

theorem simulatesIn_ruleInstantiate {rule : Rule} (hrule : rule.Corresponds c rule) {args : Value}
    {captures : Captures} (hmatch : rule.pattern.match? args = some captures)
    (hcaptures : Captures.Corresponds c captures captures) :
    SimulatesIn s.Extends c (Value.Resolved s scope) (rule.instantiate scope args captures)
      (rule.instantiate scope.global args captures) := by
  -- the captures become bindings for the names of the pattern
  let Binds (bound : Bindings) : Prop := ∀ name, ((rule.pattern.depths 0).lookup name).isSome →
    (bound.find? name).isSome
  have hnames : (modifyGet captures.toBindings : Effect Bindings).Gives s.Extends Binds := by
    rintro t bound t₁ ht ⟨⟩
    exact ⟨Pattern.isSome_find?_toBindings hmatch t, ht.trans (captures.extends_toBindings t)⟩
  refine (simulates_toBindings hcaptures (le_refl c)).within.bind hnames hnames
    fun c₁ hc₁ bound bound' hbound _ hbinds => ?_
  have hcontext : TemplateContext.InScopes scope c₁ ⟨bound, rule.pattern.depths 0, scope⟩
      ⟨bound', rule.pattern.depths 0, scope.global⟩ := ⟨hbound, rfl, hbinds, rfl, rfl⟩
  have htemplate := Template.simulatesIn_instantiateElement (s := s) hcontext
    (hrule.template.mono hc₁)
    (Template.simulatesIn_instantiateList rule.template hcontext (hrule.template.mono hc₁))
  refine htemplate.andThen fun c₂ hc₂ result result' hresult => ?_
  refine (simulates_record _ _).bind fun c₃ hc₃ _ _ _ => ?_
  exact simulates_pure ((Value.Resolved.inherited s scope).mono hc₃ hresult)

theorem Transformer.simulatesIn_expand {rules : List Rule}
    (h : ∀ rule ∈ rules, rule.Corresponds c rule) {args : Value} (hargs : args.Corresponds c args) :
    SimulatesIn s.Extends c (Value.Resolved s scope) (expand scope args rules)
      (expand scope.global args rules) := by
  induction rules with
  | nil => exact (simulates_fail (.refl _)).within
  | cons rule rest ih =>
    have hrule := h rule List.mem_cons_self
    have hmatch := Pattern.match?_corresponds hrule.pattern hargs
    rw [expand, expand]
    cases hcaptures : rule.pattern.match? args with
    | none => exact ih fun other hother => h other (List.mem_cons_of_mem _ hother)
    | some captures =>
      rw [hcaptures] at hmatch
      cases hmatch with
      | some hself => exact simulatesIn_ruleInstantiate hrule hcaptures hself

/-- **A use of a macro is expanded to the same in the scope of the definition and in its global
scope, but for references**: where the expansion in the global scope has a symbol, the other may
have an expression for its value. -/
theorem simulatesIn_expand_global {rules args : Value} (hrules : rules.Corresponds c rules)
    (hargs : args.Corresponds c args) :
    SimulatesIn s.Extends c (Value.Resolved s scope) (expand rules scope args)
      (expand rules scope.global args) := by
  unfold expand
  have hbody := Transformer.ofBody_corresponds hrules
  cases hcompiled : Transformer.ofBody rules with
  | error fault => exact (simulates_fail (.refl _)).within
  | ok transformer =>
    rw [hcompiled] at hbody
    cases hbody with
    | ok hself =>
      rw [List.forall₂_same] at hself
      exact Transformer.simulatesIn_expand hself hargs

end Lisp
