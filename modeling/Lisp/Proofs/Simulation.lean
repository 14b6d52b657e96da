/-
# Runs that correspond

Two effects run from stores that correspond (`Store.Corresponds`).  They are said to simulate one
another if they end alike (`Outcome`): with results that correspond, or with faults of one kind in
the same words, in stores that correspond again.  On the way the correspondence can grow, by the
objects and frames that were made (`Store.Grows`).  What was noted in the journal, where objects
were written and what a failure was noted inside of makes no difference.

A run that was nested too deeply says nothing.  So a run is also compared with one that is allowed
more levels, and then the two differ only in that the second may go on where the first gave up.

What carries every proof is that both sides make their objects in the same order.  The numbers that
they draw next can therefore stand for one another (`Aligned`), whatever they are.
-/
import Lisp.Proofs.Correspondence
import Lisp.Proofs.Substitution

namespace Lisp

/-! ## 1. Stores that correspond -/

/-- **The objects that are numbered from `n` and from `m` on stand for no others**, so that each
can stand for the one made at the same time. -/
structure Aligned (objects : Nat → Nat → Prop) (n m : Nat) : Prop where
  left : ∀ {k j}, objects (n + k) j → j = m + k
  right : ∀ {i k}, objects i (m + k) → i = n + k

theorem Aligned.mono {objects : Nat → Nat → Prop} {n m : Nat} (h : Aligned objects n m) :
    Aligned objects (n + 1) (m + 1) := by
  refine ⟨fun {k j} hobject => ?_, fun {i k} hobject => ?_⟩
  · rw [Nat.add_assoc] at hobject ⊢
    exact h.left hobject
  · rw [Nat.add_assoc] at hobject ⊢
    exact h.right hobject

/-- **Bindings that correspond** bind the same names, in the same order. -/
abbrev Bindings.Corresponds (c : Correspondence) : Bindings → Bindings → Prop :=
  List.Forall₂ (PairsCorrespond (· = ·) (Value.Corresponds c))

/-- **Two stores hold the same**, but for the numbers of objects, as far as the frames of the
correspondence go. -/
structure Store.Corresponds (c : Correspondence) (s s' : Store) : Prop where
  objects : Aligned c.objects s.spans.size s'.spans.size
  frames : s.frames.size = s'.frames.size
  bindings : ∀ f ∈ c.frames, Bindings.Corresponds c (s.bindings f) (s'.bindings f)
  output : s.output = s'.output

/-- **What a run can do to a correspondence and to its store**: objects and frames that it made are
added, and frames outside of the correspondence keep their bindings. -/
structure Store.Grows (c c' : Correspondence) (s s₁ : Store) : Prop where
  le : c ≤ c'
  objects : ∀ {i j}, c'.objects i j → c.objects i j ∨ s.spans.size ≤ i ∧ i < s₁.spans.size
  frames : ∀ {f}, f ∈ c'.frames ↔ f ∈ c.frames ∨ s.frames.size ≤ f ∧ f < s₁.frames.size
  spans_le : s.spans.size ≤ s₁.spans.size
  frames_le : s.frames.size ≤ s₁.frames.size
  kept : ∀ {f}, f < s.frames.size → f ∉ c.frames → s₁.bindings f = s.bindings f

variable {c c' c₁ c₂ : Correspondence} {s s' s₁ s₁' s₂ : Store}

/-- **No frame was made**, and none of another correspondence changed. -/
theorem Store.Grows.of_frames_eq (hle : c ≤ c') (heq : c'.frames = c.frames)
    (hobjects : ∀ {i j}, c'.objects i j → c.objects i j ∨ s.spans.size ≤ i ∧ i < s₁.spans.size)
    (hspans : s.spans.size ≤ s₁.spans.size) (hframes : s₁.frames.size = s.frames.size)
    (hkept : ∀ {f}, f ∉ c.frames → s₁.bindings f = s.bindings f) : s.Grows c c' s₁ := by
  refine ⟨hle, hobjects, ?_, hspans, hframes.ge, fun _ => hkept⟩
  rw [heq, hframes]
  exact ⟨.inl, fun hf => hf.elim id fun hf => absurd hf.2 hf.1.not_gt⟩

theorem Store.Grows.refl (c : Correspondence) (s : Store) : s.Grows c c s :=
  .of_frames_eq (le_refl c) rfl .inl (le_refl _) rfl fun _ => rfl

theorem Store.Grows.trans (h : s.Grows c c₁ s₁) (h' : s₁.Grows c₁ c₂ s₂) : s.Grows c c₂ s₂ := by
  refine ⟨h.le.trans h'.le, fun {i j} hij => ?_, fun {f} => ?_, h.spans_le.trans h'.spans_le,
    h.frames_le.trans h'.frames_le, fun {f} hlt hf => ?_⟩
  · have hspans := h.spans_le
    have hspans' := h'.spans_le
    rcases h'.objects hij with hij | hnew
    · rcases h.objects hij with hij | hnew
      · exact .inl hij
      · exact .inr (by omega)
    · exact .inr (by omega)
  · have hframes := h.frames_le
    have hframes' := h'.frames_le
    rw [h'.frames, h.frames, or_assoc]
    exact or_congr_right (by omega)
  · have hnot : f ∉ c₁.frames := by
      rw [h.frames, not_or]
      exact ⟨hf, fun hnew => hnew.1.not_gt hlt⟩
    rw [h'.kept (hlt.trans_le h.frames_le) hnot, h.kept hlt hf]

/-! ## 2. Effects that simulate one another -/

/-- **Two runs ended alike**, the first of them started from `s`, or it was nested too deeply. -/
inductive Outcome {α β : Type} (c : Correspondence) (R : Correspondence → α → β → Prop)
    (s : Store) : EStateM.Result Stop Store α → EStateM.Result Stop Store β → Prop where
  | ok {c' a b s₁ s₁'} (hgrows : s.Grows c c' s₁) (hstores : s₁.Corresponds c' s₁')
    (h : R c' a b) : Outcome c R s (.ok a s₁) (.ok b s₁')
  | failed {c' failure failure' s₁ s₁'} (hgrows : s.Grows c c' s₁)
    (hstores : s₁.Corresponds c' s₁') (h : failure.fault.Alike failure'.fault) :
    Outcome c R s (.error (.failed failure) s₁) (.error (.failed failure') s₁')
  | tooDeep {s₁ result} : Outcome c R s (.error .tooDeep s₁) result

/-- **A run that follows one that succeeded.** -/
theorem Outcome.after {α β : Type} {R : Correspondence → α → β → Prop}
    {result : EStateM.Result Stop Store α} {result' : EStateM.Result Stop Store β}
    (hgrows : s.Grows c c₁ s₁) (h : Outcome c₁ R s₁ result result') :
    Outcome c R s result result' := by
  cases h with
  | ok hgrows' hstores h => exact .ok (hgrows.trans hgrows') hstores h
  | failed hgrows' hstores h => exact .failed (hgrows.trans hgrows') hstores h
  | tooDeep => exact .tooDeep

/-- **Two runs that ended alike go on**, from wherever they ended. -/
theorem Outcome.bind {α β γ δ : Type} {R : Correspondence → α → β → Prop}
    {Q : Correspondence → γ → δ → Prop} {effect : Effect α} {effect' : Effect β}
    {next : α → Effect γ} {next' : β → Effect δ} (h : Outcome c R s (effect s) (effect' s'))
    (hnext : ∀ {c' a b s₁ s₁'}, effect s = .ok a s₁ → effect' s' = .ok b s₁' → s.Grows c c' s₁ →
      s₁.Corresponds c' s₁' → R c' a b → Outcome c' Q s₁ (next a s₁) (next' b s₁')) :
    Outcome c Q s ((effect >>= next) s) ((effect' >>= next') s') := by
  cases hrun : effect s with
  | ok a s₁ =>
    rw [Effect.bind_of_ok hrun]
    rw [hrun] at h
    cases hrun' : effect' s' with
    | ok b s₁' =>
      rw [Effect.bind_of_ok hrun']
      rw [hrun'] at h
      cases h with
      | ok hgrows hstores hR => exact .after hgrows (hnext hrun hrun' hgrows hstores hR)
    | error =>
      rw [hrun'] at h
      cases h
  | error stop s₁ =>
    rw [Effect.bind_of_error hrun]
    rw [hrun] at h
    cases stop with
    | tooDeep => exact .tooDeep
    | failed failure =>
      cases hrun' : effect' s' with
      | ok =>
        rw [hrun'] at h
        cases h
      | error stop' s₁' =>
        rw [Effect.bind_of_error hrun']
        rw [hrun'] at h
        cases h with
        | failed hgrows hstores h => exact .failed hgrows hstores h

theorem Effect.fault_inside (failure : Failure) (form : Value) :
    (failure.inside form).fault = failure.fault := by
  unfold Failure.inside
  split
  · split <;> rfl
  · rfl

section Inside

variable {α β : Type} {R : Correspondence → α → β → Prop} {effect : Effect α} {effect' : Effect β}

/-- What a failure was noted inside of makes no difference to how a run ended. -/
theorem Outcome.inside_left (h : Outcome c R s (effect s₁) (effect' s₁')) (form : Value) :
    Outcome c R s (Effect.inside form effect s₁) (effect' s₁') := by
  simp only [Effect.inside, EStateM.adaptExcept]
  generalize effect s₁ = result, effect' s₁' = result' at h
  cases h with
  | ok hgrows hstores h => exact .ok hgrows hstores h
  | failed hgrows hstores h => exact .failed hgrows hstores ((Effect.fault_inside _ form).symm ▸ h)
  | tooDeep => exact .tooDeep

theorem Outcome.inside_right (h : Outcome c R s (effect s₁) (effect' s₁')) (form : Value) :
    Outcome c R s (effect s₁) (Effect.inside form effect' s₁') := by
  simp only [Effect.inside, EStateM.adaptExcept]
  generalize effect s₁ = result, effect' s₁' = result' at h
  cases h with
  | ok hgrows hstores h => exact .ok hgrows hstores h
  | failed hgrows hstores h => exact .failed hgrows hstores ((Effect.fault_inside _ form).symm ▸ h)
  | tooDeep => exact .tooDeep

end Inside

namespace Effect

variable {α β γ δ : Type} {R : Correspondence → α → β → Prop} {Q : Correspondence → γ → δ → Prop}
  {effect : Effect α} {effect' : Effect β}

/-- **From all stores that correspond the two effects end alike.** -/
def Simulates (c : Correspondence) (R : Correspondence → α → β → Prop) (effect : Effect α)
    (effect' : Effect β) : Prop :=
  ∀ s s', s.Corresponds c s' → Outcome c R s (effect s) (effect' s')

theorem simulates_pure {a : α} {b : β} (h : R c a b) : Simulates c R (pure a) (pure b) :=
  fun s _ hstores => .ok (.refl c s) hstores h

theorem simulates_fail {f g : Fault} (h : f.Alike g) :
    Simulates c R (fail f : Effect α) (fail g : Effect β) :=
  fun s _ hstores => .failed (.refl c s) hstores h

theorem simulates_ofExcept {x : Except Fault α} {y : Except Fault β}
    (h : ResultsCorrespond Fault.Alike (R c) x y) : Simulates c R (ofExcept x) (ofExcept y) := by
  cases h with
  | ok h => exact simulates_pure h
  | error h => exact simulates_fail h

theorem Simulates.bind {next : α → Effect γ} {next' : β → Effect δ}
    (h : Simulates c R effect effect')
    (hnext : ∀ c', c ≤ c' → ∀ a b, R c' a b → Simulates c' Q (next a) (next' b)) :
    Simulates c Q (effect >>= next) (effect' >>= next') :=
  fun s s' hstores => (h s s' hstores).bind fun _ _ hgrows hstores₁ hR =>
    hnext _ hgrows.le _ _ hR _ _ hstores₁

/-- A result without a store, or a refusal, comes first. -/
theorem simulates_ofExcept_bind {S : α → β → Prop} {x : Except Fault α} {y : Except Fault β}
    {next : α → Effect γ} {next' : β → Effect δ} (h : ResultsCorrespond Fault.Alike S x y)
    (hnext : ∀ a b, S a b → Simulates c Q (next a) (next' b)) :
    Simulates c Q (ofExcept x >>= next) (ofExcept y >>= next') := by
  cases h with
  | ok h => exact hnext _ _ h
  | error h => exact simulates_fail h

/-- What a failure was noted inside of makes no difference. -/
theorem Simulates.inside_left (h : Simulates c R effect effect') (form : Value) :
    Simulates c R (Effect.inside form effect) effect' :=
  fun s s' hstores => (h s s' hstores).inside_left form

theorem Simulates.inside_right (h : Simulates c R effect effect') (form : Value) :
    Simulates c R effect (Effect.inside form effect') :=
  fun s s' hstores => (h s s' hstores).inside_right form

theorem Simulates.inside (h : Simulates c R effect effect') (form form' : Value) :
    Simulates c R (Effect.inside form effect) (Effect.inside form' effect') :=
  (h.inside_left form).inside_right form'

/-- **One step for each element of two lists.** -/
theorem simulates_mapM {A : Correspondence → α → γ → Prop} {B : Correspondence → β → δ → Prop}
    (hA : ∀ {c c' a b}, c ≤ c' → A c a b → A c' a b)
    (hB : ∀ {c c' a b}, c ≤ c' → B c a b → B c' a b) {f : α → Effect β} {g : γ → Effect δ}
    (h : ∀ c', c ≤ c' → ∀ a b, A c' a b → Simulates c' B (f a) (g b)) {as : List α} {bs : List γ}
    (has : List.Forall₂ (A c) as bs) :
    Simulates c (fun c => List.Forall₂ (B c)) (as.mapM f) (bs.mapM g) := by
  induction as generalizing bs c with
  | nil =>
    cases has
    rw [List.mapM_nil, List.mapM_nil]
    exact simulates_pure .nil
  | cons a as ih =>
    cases has with
    | cons hab hrest =>
      rw [List.mapM_cons, List.mapM_cons]
      refine (h c (le_refl c) _ _ hab).bind fun c₁ hc₁ b d hbd => ?_
      have hrest₁ := hrest.imp fun _ _ hab => hA hc₁ hab
      refine (ih (fun c' hc' => h c' (hc₁.trans hc')) hrest₁).bind fun c₂ hc₂ bs ds hbs => ?_
      exact simulates_pure (.cons (hB hc₂ hbd) hbs)

end Effect

/-! ## 3. What makes no difference -/

/-- **Only the journal has changed, or where objects are said to have been written.** -/
structure Store.Quiet (s s₁ : Store) : Prop where
  spans : s₁.spans.size = s.spans.size
  frames : s₁.frames = s.frames
  output : s₁.output = s.output

theorem Store.Quiet.bindings (h : s.Quiet s₁) (f : Nat) : s₁.bindings f = s.bindings f := by
  rw [Store.bindings, h.frames, Store.bindings]

theorem Store.Quiet.grows (h : s.Quiet s₁) (c : Correspondence) : s.Grows c c s₁ :=
  .of_frames_eq (le_refl c) rfl .inl h.spans.ge (congrArg Array.size h.frames) fun _ => h.bindings _

theorem Store.Corresponds.quiet (hstores : s.Corresponds c s') (h : s.Quiet s₁)
    (h' : s'.Quiet s₁') : s₁.Corresponds c s₁' := by
  refine ⟨?_, ?_, fun f hf => ?_, ?_⟩
  · rw [h.spans, h'.spans]
    exact hstores.objects
  · rw [h.frames, h'.frames]
    exact hstores.frames
  · rw [h.bindings, h'.bindings]
    exact hstores.bindings f hf
  · rw [h.output, h'.output]
    exact hstores.output

theorem Store.quiet_record (s : Store) (e : Event) : s.Quiet (s.record e) :=
  ⟨rfl, rfl, rfl⟩

theorem Store.quiet_place (s : Store) (v : Value) (span : Option Span) :
    s.Quiet (s.place v span) := by
  unfold Store.place
  split
  · exact ⟨rfl, rfl, rfl⟩
  · exact ⟨Array.size_setIfInBounds, rfl, rfl⟩

namespace Effect

variable {α β γ δ : Type}

/-- **The effect succeeds, and changes nothing that makes a difference.** -/
def Quiet (effect : Effect α) : Prop :=
  ∀ s, ∃ a s₁, effect s = .ok a s₁ ∧ s.Quiet s₁

theorem simulates_quiet {effect : Effect α} {effect' : Effect β} (h : Quiet effect)
    (h' : Quiet effect') : Simulates c (fun _ _ _ => True) effect effect' := by
  intro s s' hstores
  obtain ⟨a, s₁, hrun, hquiet⟩ := h s
  obtain ⟨b, s₁', hrun', hquiet'⟩ := h' s'
  rw [hrun, hrun']
  exact .ok (hquiet.grows c) (hstores.quiet hquiet hquiet') trivial

theorem quiet_record (e : Event) : Quiet (record e) :=
  fun s => ⟨_, s.record e, rfl, s.quiet_record e⟩

/-- What is reported makes no difference. -/
theorem simulates_record (e e' : Event) :
    Simulates c (fun _ _ _ => True) (record e) (record e') :=
  simulates_quiet (quiet_record e) (quiet_record e')

theorem simulates_modifyGet {R : Correspondence → α → β → Prop} {f : Store → α × Store}
    {g : Store → β × Store}
    (h : ∀ s s', s.Corresponds c s' → ∃ c', s.Grows c c' (f s).2 ∧
      (f s).2.Corresponds c' (g s').2 ∧ R c' (f s).1 (g s').1) :
    Simulates c R (modifyGet f) (modifyGet g) := by
  intro s s' hstores
  obtain ⟨c', hgrows, hstores', hR⟩ := h s s' hstores
  exact .ok hgrows hstores' hR

theorem simulates_modify {f g : Store → Store}
    (h : ∀ s s', s.Corresponds c s' → s.Grows c c (f s) ∧ (f s).Corresponds c (g s')) :
    Simulates c (fun _ _ _ => True) (modify f) (modify g) :=
  fun s s' hstores => .ok (h s s' hstores).1 (h s s' hstores).2 trivial

theorem simulates_get : Simulates c (fun c s s' => s.Corresponds c s') get get :=
  fun s _ hstores => .ok (.refl c s) hstores hstores

end Effect

/-! ## 4. Making objects -/

/-- **The correspondence in which two objects made at the same time stand for one another.** -/
def Correspondence.addObject (c : Correspondence) {n m : Nat} (h : Aligned c.objects n m) :
    Correspondence :=
  { c with
    objects := fun i j => c.objects i j ∨ i = n ∧ j = m
    unique := by
      constructor
      · rintro i i' j (hij | ⟨rfl, rfl⟩) (hij' | ⟨rfl, hj⟩)
        · exact c.unique.1 hij hij'
        · subst hj
          exact h.right (k := 0) hij
        · exact (h.right (k := 0) hij').symm
        · rfl
      · rintro i j j' (hij | ⟨rfl, rfl⟩) (hij' | ⟨hi, rfl⟩)
        · exact c.unique.2 hij hij'
        · subst hi
          exact h.left (k := 0) hij
        · exact (h.left (k := 0) hij').symm
        · rfl }

theorem Correspondence.le_addObject (c : Correspondence) {n m : Nat}
    (h : Aligned c.objects n m) : c ≤ c.addObject h :=
  ⟨fun _ _ hij => .inl hij, subset_rfl, rfl⟩

theorem Aligned.addObject {n m : Nat} (h : Aligned c.objects n m) :
    Aligned (c.addObject h).objects (n + 1) (m + 1) := by
  refine ⟨fun {k j} hobject => ?_, fun {i k} hobject => ?_⟩
  · rcases hobject with hobject | ⟨heq, -⟩
    · exact h.mono.left hobject
    · omega
  · rcases hobject with hobject | ⟨-, heq⟩
    · exact h.mono.right hobject
    · omega

/-- **A relation of values that a pair has if what it holds does.** -/
structure PairsInherit (R : Correspondence → Value → Value → Prop) : Prop where
  mono : ∀ {c c' v w}, c ≤ c' → R c v w → R c' v w
  pair : ∀ {c i j head head' tail tail'}, c.objects i j → R c head head' → R c tail tail' →
    R c (.pair i head tail) (.pair j head' tail')

theorem Value.Corresponds.inherited : PairsInherit Value.Corresponds :=
  ⟨fun hc h => h.mono hc, .pair⟩

theorem Bindings.Corresponds.mono {bs bs' : Bindings} (h : Bindings.Corresponds c bs bs')
    (hc : c ≤ c') : Bindings.Corresponds c' bs bs' :=
  h.imp fun _ _ h => ⟨h.1, h.2.mono hc⟩

namespace Effect

/-- **Two objects made at the same time** stand for one another. -/
theorem simulates_allocate {R : Correspondence → Value → Value → Prop} {make make' : Nat → Value}
    {span span' : Option Span}
    (h : ∀ c', c ≤ c' → ∀ i j, c'.objects i j → R c' (make i) (make' j)) :
    Simulates c R (modifyGet (·.allocate make span)) (modifyGet (·.allocate make' span')) := by
  refine simulates_modifyGet fun s s' hstores => ?_
  have hle := c.le_addObject hstores.objects
  refine ⟨c.addObject hstores.objects, ?_, ?_, h _ hle _ _ (.inr ⟨rfl, rfl⟩)⟩
  · refine .of_frames_eq hle rfl (fun {i j} hij => ?_) ?_ rfl fun _ => rfl
    · rcases hij with hij | ⟨rfl, -⟩
      · exact .inl hij
      · exact .inr ⟨le_refl _, by simp [Store.allocate]⟩
    · simp [Store.allocate]
  · refine ⟨?_, hstores.frames, fun f hf => ?_, hstores.output⟩
    · simpa [Store.allocate] using hstores.objects.addObject
    · exact (hstores.bindings f hf).mono hle

theorem simulates_newAtom {value : Atom} (h : value ∈ c.atoms) :
    Simulates c Value.Corresponds (newAtom value) (newAtom value) :=
  simulates_allocate fun _ hc _ _ hij => .atom hij (Correspondence.atoms_eq hc ▸ h)

theorem simulates_newPair {head head' tail tail' : Value} (hhead : head.Corresponds c head')
    (htail : tail.Corresponds c tail') :
    Simulates c Value.Corresponds (newPair head tail) (newPair head' tail') :=
  simulates_allocate fun _ hc _ _ hij => .pair hij (hhead.mono hc) (htail.mono hc)

/-- **New lists of items that are related** are related, and so are their endings. -/
theorem simulates_newListWithTail {R : Correspondence → Value → Value → Prop}
    (hR : PairsInherit R) {items items' : List Value} {tail tail' : Value}
    (hitems : List.Forall₂ (R c) items items') (htail : R c tail tail') :
    Simulates c R (modifyGet (·.newListWithTail items tail))
      (modifyGet (·.newListWithTail items' tail')) := by
  induction hitems with
  | nil => exact simulates_pure htail
  | @cons item item' items items' hitem _ ih =>
    change Simulates c R
      (modifyGet (·.newListWithTail items tail) >>= fun rest => newPair item rest)
      (modifyGet (·.newListWithTail items' tail') >>= fun rest => newPair item' rest)
    refine ih.bind fun c₁ hc₁ rest rest' hrest => ?_
    exact simulates_allocate fun c₂ hc₂ _ _ hij =>
      hR.pair hij (hR.mono (hc₁.trans hc₂) hitem) (hR.mono hc₂ hrest)

theorem simulates_newList {items items' : List Value}
    (hitems : List.Forall₂ (Value.Corresponds c) items items') :
    Simulates c Value.Corresponds (newList items) (newList items') :=
  simulates_newListWithTail Value.Corresponds.inherited hitems .nil

theorem simulates_newQuote {v v' : Value} (h : v.Corresponds c v') :
    Simulates c Value.Corresponds (modifyGet (·.newQuote v)) (modifyGet (·.newQuote v')) := by
  change Simulates c Value.Corresponds
    (newAtom (.symbol "quote") >>= fun quote => newList [quote, v])
    (newAtom (.symbol "quote") >>= fun quote => newList [quote, v'])
  refine (simulates_newAtom (c.made .quote)).bind fun _ hc _ _ hquote => ?_
  exact simulates_newList (.cons hquote (.cons (h.mono hc) .nil))

theorem simulates_newQuotes {vs vs' : List Value}
    (h : List.Forall₂ (Value.Corresponds c) vs vs') :
    Simulates c (fun c => List.Forall₂ (Value.Corresponds c)) (modifyGet (·.newQuotes vs))
      (modifyGet (·.newQuotes vs')) := by
  induction vs generalizing vs' c with
  | nil =>
    cases h
    exact simulates_pure .nil
  | cons v vs ih =>
    cases h with
    | @cons _ v' _ vs' hv hvs =>
      change Simulates c _
        (modifyGet (·.newQuote v) >>= fun quoted =>
          modifyGet (·.newQuotes vs) >>= fun rest => pure (quoted :: rest))
        (modifyGet (·.newQuote v') >>= fun quoted =>
          modifyGet (·.newQuotes vs') >>= fun rest => pure (quoted :: rest))
      refine (simulates_newQuote hv).bind fun c₁ hc₁ _ _ hquoted => ?_
      refine (ih (Value.Corresponds.mono_all hvs hc₁)).bind fun c₂ hc₂ _ _ hrest => ?_
      exact simulates_pure (.cons (hquoted.mono hc₂) hrest)

/-- **A datum becomes objects that correspond**, with atoms that there are. -/
theorem simulates_load (datum : Datum) (h : ∀ value, datum.HasAtom value → value ∈ c.atoms) :
    Simulates c Value.Corresponds (modifyGet (·.load datum)) (modifyGet (·.load datum)) := by
  induction datum generalizing c with
  | nil => exact simulates_pure .nil
  | atom value span =>
    exact simulates_allocate fun _ hc _ _ hij =>
      .atom hij (Correspondence.atoms_eq hc ▸ h value rfl)
  | pair head tail span ihHead ihTail =>
    change Simulates c Value.Corresponds
      (modifyGet (·.load head) >>= fun head => modifyGet (·.load tail) >>= fun tail =>
        modifyGet (·.allocate (.pair · head tail) span))
      (modifyGet (·.load head) >>= fun head => modifyGet (·.load tail) >>= fun tail =>
        modifyGet (·.allocate (.pair · head tail) span))
    refine (ihHead fun value hvalue => h value (.inl hvalue)).bind fun c₁ hc₁ _ _ hhead => ?_
    have htail : ∀ value, tail.HasAtom value → value ∈ c₁.atoms := fun value hvalue =>
      Correspondence.atoms_eq hc₁ ▸ h value (.inr hvalue)
    refine (ihTail htail).bind fun c₂ hc₂ _ _ htail => ?_
    exact simulates_allocate fun _ hc _ _ hij =>
      .pair hij ((hhead.mono hc₂).mono hc) (htail.mono hc)

/-- **An answer of the host becomes objects that correspond.** -/
theorem simulates_ofHost (value : HostValue) :
    Simulates c Value.Corresponds (modifyGet (·.ofHost value)) (modifyGet (·.ofHost value)) := by
  have made_string : ∀ text, Simulates c Value.Corresponds (newString text) (newString text) :=
    fun text => simulates_newAtom (c.made (.string text))
  cases value with
  | undefined => exact simulates_pure .nil
  | boolean b => exact simulates_newAtom (c.made (.boolean b))
  | integer n => exact simulates_newAtom (c.made (.integer n))
  | float x => exact simulates_newAtom (c.made (.float x))
  | string text => exact made_string text
  | datum text =>
    simp only [Store.ofHost]
    split
    · next datum hread =>
      split
      · exact made_string text
      · exact simulates_load datum fun value hvalue =>
          c.made (.read hread (List.mem_singleton_self datum) hvalue)
    · exact made_string text

end Effect

/-! ## 5. Frames -/

/-- Entries for the same names, in the same order, give a name things that correspond. -/
theorem rel_lookup {α β : Type} {R : α → β → Prop} {as : List (String × α)}
    {bs : List (String × β)} (h : List.Forall₂ (PairsCorrespond (· = ·) R) as bs) (name : String) :
    Option.Rel R (as.lookup name) (bs.lookup name) := by
  rcases lookup_of_forall₂ (R := fun _ => R) h name with
    ⟨a, b, ha, hb, -, hab⟩ | ⟨hnone, hnone', -⟩
  · rw [ha, hb]
    exact .some hab
  · rw [hnone, hnone']
    exact .none

section Bindings

variable {bs bs' : Bindings}

theorem Bindings.Corresponds.find? (h : Bindings.Corresponds c bs bs') (name : String) :
    Option.Rel (Value.Corresponds c) (bs.find? name) (bs'.find? name) :=
  rel_lookup h name

theorem Bindings.Corresponds.insert (h : Bindings.Corresponds c bs bs') {v v' : Value}
    (hv : v.Corresponds c v') (name : String) :
    Bindings.Corresponds c (bs.insert name v) (bs'.insert name v') := by
  induction h with
  | nil => exact .cons ⟨rfl, hv⟩ .nil
  | @cons entry entry' bs bs' hentry hrest ih =>
    obtain ⟨other, w⟩ := entry
    obtain ⟨other', w'⟩ := entry'
    obtain ⟨rfl, hw⟩ := hentry
    simp only [Bindings.insert]
    split
    · exact .cons ⟨rfl, hv⟩ hrest
    · exact .cons ⟨rfl, hw⟩ ih

end Bindings

namespace Store.Corresponds

/-- **What a frame of the correspondence binds corresponds to something.** -/
theorem exists_of_mem_bindings (h : s.Corresponds c s') {f : Nat} (hf : f ∈ c.frames)
    {entry : String × Value} (hentry : entry ∈ s.bindings f) :
    ∃ w, entry.2.Corresponds c w := by
  have hbindings := h.bindings f hf
  obtain ⟨n, hn, rfl⟩ := List.getElem_of_mem hentry
  exact ⟨_, ((List.forall₂_iff_get.mp hbindings).2 n hn (hbindings.length_eq ▸ hn)).2⟩

/-- **A name has values that correspond** in frames of the correspondence. -/
theorem findIn? (h : s.Corresponds c s') {frames : List Nat} (hframes : ∀ f ∈ frames, f ∈ c.frames)
    (name : String) :
    Option.Rel (Value.Corresponds c) (s.findIn? frames name) (s'.findIn? frames name) := by
  induction frames with
  | nil => exact .none
  | cons f frames ih =>
    have hfirst := (h.bindings f (hframes f List.mem_cons_self)).find? name
    have hrest := ih fun g hg => hframes g (List.mem_cons_of_mem _ hg)
    simp only [Store.findIn?, List.findSome?_cons] at hrest ⊢
    rcases rel_cases hfirst with ⟨hnone, hnone'⟩ | ⟨v, v', hv, hv', hcorresponds⟩
    · rw [hnone, hnone']
      exact hrest
    · rw [hv, hv']
      exact .some hcorresponds

theorem lookup? (h : s.Corresponds c s') {scope : Scope} (hscope : scope.Within c.frames)
    (name : String) :
    Option.Rel (Value.Corresponds c) (s.lookup? scope name) (s'.lookup? scope name) :=
  h.findIn? hscope name

theorem lookupLocal? (h : s.Corresponds c s') {scope : Scope} (hscope : scope.Within c.frames)
    (name : String) :
    Option.Rel (Value.Corresponds c) (s.lookupLocal? scope name) (s'.lookupLocal? scope name) :=
  h.findIn? (fun f hf => hscope f (List.mem_append_left _ hf)) name

theorem binds_eq (h : s.Corresponds c s') {f : Nat} (hf : f ∈ c.frames) (name : String) :
    s.binds f name = s'.binds f name := by
  rw [Store.binds, Store.binds]
  rcases rel_cases ((h.bindings f hf).find? name) with ⟨hnone, hnone'⟩ | ⟨_, _, hv, hv', -⟩
  · rw [hnone, hnone']
  · rw [hv, hv']
    rfl

/-- **The same frame is the nearest one** that binds a name. -/
theorem holder?_eq (h : s.Corresponds c s') {scope : Scope} (hscope : scope.Within c.frames)
    (name : String) : s.holder? scope name = s'.holder? scope name := by
  have hframes : ∀ f ∈ scope.frames, f ∈ c.frames := hscope
  simp only [Store.holder?]
  generalize scope.frames = frames at hframes
  induction frames with
  | nil => rfl
  | cons f frames ih =>
    have hrest := ih fun g hg => hframes g (List.mem_cons_of_mem _ hg)
    rw [List.find?_cons, List.find?_cons, h.binds_eq (hframes f List.mem_cons_self), hrest]

end Store.Corresponds

theorem Store.bindings_bind (s : Store) (f g : Nat) (name : String) (v : Value) :
    (s.bind f name v).bindings g =
      if f = g ∧ g < s.frames.size then (s.bindings g).insert name v else s.bindings g := by
  simp only [Store.bind, Store.bindings, Array.getElem?_modify]
  by_cases hlt : g < s.frames.size
  · by_cases heq : f = g <;> simp [heq, hlt]
  · simp [hlt]

/-- **A new frame binds nothing**, just as it did before it was made. -/
theorem Store.bindings_newFrame (s : Store) (f : Nat) : s.newFrame.2.bindings f = s.bindings f := by
  simp only [Store.newFrame, Store.bindings, Array.getElem?_push]
  split
  · next heq => simp [heq]
  · rfl

/-- **The correspondence with one more frame.** -/
def Correspondence.addFrame (c : Correspondence) (f : Nat) : Correspondence :=
  { c with frames := insert f c.frames }

theorem Correspondence.le_addFrame (c : Correspondence) (f : Nat) : c ≤ c.addFrame f :=
  ⟨le_refl _, Set.subset_insert f c.frames, rfl⟩

namespace Store.Corresponds

theorem bind (h : s.Corresponds c s') {f : Nat} {v v' : Value} (hv : v.Corresponds c v')
    (name : String) : (s.bind f name v).Corresponds c (s'.bind f name v') := by
  refine ⟨h.objects, ?_, fun g hg => ?_, h.output⟩
  · simpa [Store.bind] using h.frames
  · rw [Store.bindings_bind, Store.bindings_bind, h.frames]
    split
    · exact (h.bindings g hg).insert hv name
    · exact h.bindings g hg

theorem newFrame (h : s.Corresponds c s') :
    s.newFrame.2.Corresponds (c.addFrame s.frames.size) s'.newFrame.2 := by
  have hle := c.le_addFrame s.frames.size
  refine ⟨h.objects, ?_, fun f hf => ?_, h.output⟩
  · simp [Store.newFrame, h.frames]
  · rw [Store.bindings_newFrame, Store.bindings_newFrame]
    rcases hf with rfl | hf
    · have hnone : s.bindings s.frames.size = [] := by simp [Store.bindings]
      have hnone' : s'.bindings s.frames.size = [] := by simp [Store.bindings, h.frames]
      rw [hnone, hnone']
      exact .nil
    · exact (h.bindings f hf).mono hle

end Store.Corresponds

theorem Store.Grows.bind (s : Store) {f : Nat} (hf : f ∈ c.frames) (name : String) (v : Value) :
    s.Grows c c (s.bind f name v) := by
  have hsize : (s.bind f name v).frames.size = s.frames.size := by simp [Store.bind]
  refine .of_frames_eq (le_refl c) rfl .inl (le_refl _) hsize fun {g} hg => ?_
  rw [Store.bindings_bind, if_neg]
  rintro ⟨rfl, -⟩
  exact hg hf

theorem Store.Grows.newFrame (c : Correspondence) (s : Store) :
    s.Grows c (c.addFrame s.frames.size) s.newFrame.2 := by
  have hsize : s.newFrame.2.frames.size = s.frames.size + 1 := by simp [Store.newFrame]
  refine ⟨c.le_addFrame _, .inl, fun {f} => ?_, le_refl _, ?_, fun _ _ => s.bindings_newFrame _⟩
  · rw [hsize, Nat.lt_succ_iff, ← le_antisymm_iff, or_comm, eq_comm]
    exact Set.mem_insert_iff
  · exact hsize ▸ Nat.le_succ _

namespace Effect

theorem simulates_lookup {scope : Scope} (hscope : scope.Within c.frames) (name : String) :
    Simulates c Value.Corresponds (lookup scope name) (lookup scope name) := by
  refine simulates_get.bind fun c₁ hc₁ s s' hstores => ?_
  rcases rel_cases (hstores.lookup? (hscope.mono hc₁) name) with
    ⟨hnone, hnone'⟩ | ⟨v, v', hv, hv', hcorresponds⟩
  · rw [hnone, hnone']
    exact simulates_fail (.refl _)
  · rw [hv, hv']
    exact simulates_pure hcorresponds

theorem simulates_bind {f : Nat} (hf : f ∈ c.frames) {v v' : Value} (hv : v.Corresponds c v')
    (name : String) : Simulates c (fun _ _ _ => True) (bind f name v) (bind f name v') :=
  simulates_modify fun s _ hstores => ⟨.bind s hf name v, hstores.bind hv name⟩

theorem simulates_assign {scope : Scope} (hscope : scope.Within c.frames) {v v' : Value}
    (hv : v.Corresponds c v') (name : String) :
    Simulates c (fun _ _ _ => True) (modify (·.assign scope name v))
      (modify (·.assign scope name v')) := by
  refine simulates_modify fun s s' hstores => ?_
  unfold Store.assign
  rw [← hstores.holder?_eq hscope name]
  split
  · next f hholder =>
    have hf : f ∈ c.frames := hscope f (List.mem_of_find?_eq_some hholder)
    exact ⟨.bind s hf name v, hstores.bind hv name⟩
  · -- the warning makes no difference, and the binding is made in the global frame
    refine ⟨((s.quiet_record _).grows c).trans (.bind _ hscope.root name v), ?_⟩
    exact (hstores.quiet (s.quiet_record _) (s'.quiet_record _)).bind hv name

/-- **A new frame** has the same number on both sides. -/
theorem simulates_enter {scope : Scope} (hscope : scope.Within c.frames) :
    Simulates c (fun c a b => a = b ∧ a.Within c.frames) (modifyGet (·.enter scope))
      (modifyGet (·.enter scope)) := by
  refine simulates_modifyGet fun s s' hstores => ?_
  refine ⟨c.addFrame s.frames.size, .newFrame c s, hstores.newFrame, ?_, fun f hf => ?_⟩
  · simp only [Store.enter, Store.newFrame, hstores.frames]
  · rcases List.mem_cons.mp hf with rfl | hf
    · exact Set.mem_insert _ _
    · exact Set.mem_insert_of_mem _ (hscope f hf)

theorem simulates_print (text : String) :
    Simulates c (fun _ _ _ => True) (modify (·.print text)) (modify (·.print text)) := by
  refine simulates_modify fun s s' hstores => ⟨.of_frames_eq (le_refl c) rfl .inl (le_refl _) rfl
    fun _ => rfl, hstores.objects, hstores.frames, hstores.bindings, ?_⟩
  simp only [Store.print, hstores.output]

end Effect

end Lisp
