/-
# Runs that end alike

Two runs from one store that make different objects number them differently, so what they come to
is compared through a correspondence in which all that was there before stands for itself
(`EndAlike`): they end with the same value, or with faults of one kind in the same words; all frames
hold the same; and they printed the same.  A run that was nested too deeply has not ended.  So of
two ways to run a program it is said that either ends as soon as the other does (`RunsAlike`).

Such a comparison needs that nothing is in use before it was made (`Store.Sound`).  That is so in
every store that programs are run in: contexts are set up in that way, and evaluation keeps it.
-/
import Lisp.Context
import Lisp.Proofs.EvaluatorSimulation

namespace Lisp

variable {c : Correspondence} {s s₁ s₂ : Store} {v w : Value} {bound : Nat} {frames : Set Nat}

/-! ## 1. What was made -/

/-- **Every object and frame of the value was made** in the store. -/
structure Value.ExistsIn (s : Store) (v : Value) : Prop where
  objects : ∀ i, v.HasObject i → i < s.spans.size
  frames : ∀ f, v.HasFrame f → f < s.frames.size

/-- **All that frames hold was made** in the store. -/
def Store.Sound (s : Store) : Prop :=
  ∀ f, ∀ entry ∈ s.bindings f, entry.2.ExistsIn s

/-- **Objects below the bound stand for themselves**, in these frames and with any atoms. -/
def Correspondence.below (bound : Nat) (frames : Set Nat) : Correspondence where
  objects i j := i = j ∧ i < bound
  frames := frames
  atoms := Set.univ
  unique := ⟨fun _ _ _ h h' => h.1.trans h'.1.symm, fun _ _ _ h h' => h.1.symm.trans h'.1⟩
  made _ := trivial

open Correspondence (below)

theorem Correspondence.below_mono {bound' : Nat} (h : bound ≤ bound') :
    below bound frames ≤ below bound' frames :=
  ⟨fun _ _ hij => ⟨hij.1, hij.2.trans_le h⟩, subset_rfl, rfl⟩

theorem Value.corresponds_below (hobjects : ∀ i, v.HasObject i → i < bound)
    (hframes : ∀ f, v.HasFrame f → f ∈ frames) : v.Corresponds (below bound frames) v :=
  corresponds_self rfl (fun i hi => ⟨rfl, hobjects i hi⟩) hframes

theorem Value.ExistsIn.corresponds (h : v.ExistsIn s) :
    v.Corresponds (below s.spans.size Set.univ) v :=
  Value.corresponds_below h.objects fun f _ => Set.mem_univ f

theorem Scope.within_univ (scope : Scope) : scope.Within Set.univ :=
  fun f _ => Set.mem_univ f

/-- **More objects were made**, and all else is as before but for the journal. -/
structure Store.Extends (s s₁ : Store) : Prop where
  spans : s.spans.size ≤ s₁.spans.size
  frames : s₁.frames = s.frames
  output : s₁.output = s.output

namespace Store.Extends

theorem refl (s : Store) : s.Extends s :=
  ⟨le_refl _, rfl, rfl⟩

theorem trans (h : s.Extends s₁) (h' : s₁.Extends s₂) : s.Extends s₂ :=
  ⟨h.spans.trans h'.spans, h'.frames.trans h.frames, h'.output.trans h.output⟩

theorem bindings (h : s.Extends s₁) (f : Nat) : s₁.bindings f = s.bindings f := by
  rw [Store.bindings, h.frames, Store.bindings]

theorem existsIn (h : s.Extends s₁) (hv : v.ExistsIn s) : v.ExistsIn s₁ :=
  ⟨fun i hi => (hv.objects i hi).trans_le h.spans, fun f hf => h.frames ▸ hv.frames f hf⟩

theorem sound (h : s.Extends s₁) (hs : s.Sound) : s₁.Sound := by
  intro f entry hentry
  rw [h.bindings] at hentry
  exact h.existsIn (hs f entry hentry)

end Store.Extends

theorem Store.extends_allocate (s : Store) (make : Nat → Value) (span : Option Span) :
    s.Extends (s.allocate make span).2 := by
  refine ⟨?_, rfl, rfl⟩
  simp [Store.allocate]

/-- **Two stores that grew out of one** hold the same as far as objects below the bound go. -/
theorem Store.Sound.corresponds (hs : s.Sound) (h₁ : s.Extends s₁) (h₂ : s.Extends s₂)
    (hbound : s.spans.size ≤ bound) (hbound₁ : bound ≤ s₁.spans.size)
    (hbound₂ : bound ≤ s₂.spans.size) (hframes : ∀ f < s.frames.size, f ∈ frames) :
    s₁.Corresponds (below bound frames) s₂ := by
  refine ⟨⟨fun {k j} hij => ?_, fun {i k} hij => ?_⟩, ?_, fun f _ => ?_, ?_⟩
  · have := hij.2
    omega
  · have := hij.1
    have := hij.2
    omega
  · rw [h₁.frames, h₂.frames]
  · rw [h₁.bindings, h₂.bindings, Bindings.Corresponds, List.forall₂_same]
    intro entry hentry
    have hexists := hs f entry hentry
    exact ⟨rfl, Value.corresponds_below (fun i hi => (hexists.objects i hi).trans_le hbound)
      fun g hg => hframes g (hexists.frames g hg)⟩
  · rw [h₁.output, h₂.output]

/-! ## 2. Evaluation uses only what was made -/

/-- **Everything that was made stands for itself.** -/
def Store.made (s : Store) : Correspondence :=
  below s.spans.size {f | f < s.frames.size}

theorem Store.Sound.corresponds_made (hs : s.Sound) : s.Corresponds s.made s :=
  hs.corresponds (.refl s) (.refl s) (le_refl _) (le_refl _) (le_refl _) fun _ hf => hf

theorem Value.ExistsIn.corresponds_made (h : v.ExistsIn s) : v.Corresponds s.made v :=
  corresponds_below h.objects h.frames

/-- What corresponds to something after a run was made in it or before. -/
theorem Store.Grows.existsIn (h : s.Grows s.made c s₁) (hv : v.Corresponds c w) :
    v.ExistsIn s₁ := by
  refine ⟨fun i hi => ?_, fun f hf => ?_⟩
  · obtain ⟨j, hij⟩ := hv.exists_object hi
    rcases h.objects hij with hold | hnew
    · exact hold.2.trans_le h.spans_le
    · exact hnew.2
  · rcases h.frames.mp (hv.mem_frames hf) with hold | hnew
    · exact Nat.lt_of_lt_of_le hold h.frames_le
    · exact hnew.2

theorem Store.Grows.sound (h : s.Grows s.made c s₁) (hstores : s₁.Corresponds c s₂) :
    s₁.Sound := by
  intro f entry hentry
  by_cases hf : f < s₁.frames.size
  · have hmem : f ∈ c.frames := h.frames.mpr <| by
      rcases Nat.lt_or_ge f s.frames.size with hold | hnew
      · exact .inl hold
      · exact .inr ⟨hnew, hf⟩
    obtain ⟨w, hw⟩ := hstores.exists_of_mem_bindings hmem hentry
    exact h.existsIn hw
  · simp [Store.bindings, hf] at hentry

section Keeping

variable {effect : Effect Value} (hs : s.Sound)
  (h : effect.Simulates s.made Value.Corresponds effect)

include hs h

/-- **A run that is like itself keeps the store sound**, and its result was made in it. -/
theorem Store.Sound.of_ok (hrun : effect s = .ok v s₁) : s₁.Sound ∧ v.ExistsIn s₁ := by
  have houtcome := h s s hs.corresponds_made
  rw [hrun] at houtcome
  cases houtcome with
  | ok hgrows hstores hv => exact ⟨hgrows.sound hstores, hgrows.existsIn hv⟩

theorem Store.Sound.of_failed {failure : Failure} (hrun : effect s = .error (.failed failure) s₁) :
    s₁.Sound := by
  have houtcome := h s s hs.corresponds_made
  rw [hrun] at houtcome
  cases houtcome with
  | failed hgrows hstores => exact hgrows.sound hstores

end Keeping

/-- **An evaluation keeps the store sound.** -/
theorem Store.Sound.evaluate {l : Language} {depth : Nat} {scope : Scope} (hs : s.Sound)
    (hv : v.ExistsIn s) (hscope : scope.Within {f | f < s.frames.size}) :
    match Lisp.evaluate l depth v scope s with
    | .ok w s₁ => s₁.Sound ∧ w.ExistsIn s₁
    | .error (.failed _) s₁ => s₁.Sound
    | .error .tooDeep _ => True := by
  have hsame := (simulates_belowAt l (le_refl depth)).evaluate hv.corresponds_made hscope
  split
  · next hrun => exact hs.of_ok hsame hrun
  · next hrun => exact hs.of_failed hsame hrun
  · trivial

/-- **A datum that is loaded exists**, and the store stays sound. -/
theorem Store.Sound.load (hs : s.Sound) (datum : Datum) :
    (s.load datum).2.Sound ∧ (s.load datum).1.ExistsIn (s.load datum).2 :=
  hs.of_ok (Effect.simulates_load datum fun _ _ => trivial) rfl

/-! ### Contexts -/

theorem Store.sound_empty : Store.empty.Sound := by
  intro f entry hentry
  simp [Store.bindings, Store.empty] at hentry

theorem Store.Sound.newFrame (hs : s.Sound) : s.newFrame.2.Sound := by
  intro f entry hentry
  rw [Store.bindings_newFrame] at hentry
  have hexists := hs f entry hentry
  refine ⟨hexists.objects, fun g hg => (hexists.frames g hg).trans_le ?_⟩
  simp [Store.newFrame]

theorem Bindings.mem_insert {bs : Bindings} {name : String} {entry : String × Value}
    (h : entry ∈ bs.insert name v) : entry = (name, v) ∨ entry ∈ bs := by
  induction bs with
  | nil => exact .inl (List.mem_singleton.mp h)
  | cons first rest ih =>
    simp only [Bindings.insert] at h
    split at h
    · exact (List.mem_cons.mp h).imp_right (List.mem_cons_of_mem _)
    · rcases List.mem_cons.mp h with rfl | h
      · exact .inr List.mem_cons_self
      · exact (ih h).imp_right (List.mem_cons_of_mem _)

theorem Store.Sound.bind (hs : s.Sound) (hv : v.ExistsIn s) (f : Nat) (name : String) :
    (s.bind f name v).Sound := by
  intro g entry hentry
  have hexists : entry.2.ExistsIn s := by
    rw [Store.bindings_bind] at hentry
    split at hentry
    · rcases Bindings.mem_insert hentry with rfl | hentry
      · exact hv
      · exact hs g entry hentry
    · exact hs g entry hentry
  refine ⟨hexists.objects, fun g hg => (hexists.frames g hg).trans_eq ?_⟩
  simp [Store.bind]

theorem Context.sound_bindMarkers (make : Nat → String → Value) (root : Nat) (names : List String)
    (hobjects : ∀ i name j, (make i name).HasObject j → j = i)
    (hframes : ∀ i name f, ¬ (make i name).HasFrame f) (hs : s.Sound) :
    (bindMarkers make root s names).Sound := by
  induction names generalizing s with
  | nil => exact hs
  | cons name names ih =>
    have hextends := s.extends_allocate (make · name) none
    refine ih ((hextends.sound hs).bind ⟨fun i hi => ?_, fun f hf => ?_⟩ root name)
    · rw [hobjects _ _ _ hi]
      simp [Store.allocate]
    · exact absurd hf (hframes _ _ _)

/-- **A context is set up soundly**, in a sound store. -/
theorem Context.sound_ofParts (l : Language) (root : Nat) (hs : s.Sound) :
    (ofParts l root s).2.Sound := by
  have hforms := sound_bindMarkers .formMarker root (l.forms.map (·.1)) (fun _ _ _ h => Eq.symm h)
    (fun _ _ _ => id) hs
  exact sound_bindMarkers .hostMarker root _ (fun _ _ _ h => Eq.symm h) (fun _ _ _ => id) hforms

theorem Context.sound_standard (hs : s.Sound) : (standard s).2.Sound :=
  sound_ofParts .standard s.newFrame.1 hs.newFrame

/-! ## 3. The other way round -/

/-- **The same correspondence, seen from the other run.** -/
def Correspondence.symm (c : Correspondence) : Correspondence :=
  { c with objects := fun i j => c.objects j i, unique := ⟨fun _ _ _ h h' => c.unique.2 h h',
    fun _ _ _ h h' => c.unique.1 h h'⟩ }

theorem Value.Corresponds.symm (h : v.Corresponds c w) : w.Corresponds c.symm v := by
  induction h with
  | nil => exact .nil
  | atom h hatom => exact .atom h hatom
  | pair h _ _ ihHead ihTail => exact .pair h ihHead ihTail
  | procedure h _ _ hscope ihParameters ihBody => exact .procedure h ihParameters ihBody hscope
  | transformer h _ hscope ihRules => exact .transformer h ihRules hscope
  | formMarker h => exact .formMarker h
  | hostMarker h => exact .hostMarker h

theorem Store.Corresponds.symm (h : s₁.Corresponds c s₂) : s₂.Corresponds c.symm s₁ := by
  refine ⟨⟨fun hij => h.objects.right hij, fun hij => h.objects.left hij⟩, h.frames.symm,
    fun f hf => ?_, h.output.symm⟩
  exact (h.bindings f hf).flip.imp fun _ _ h => ⟨h.1.symm, h.2.symm⟩

theorem Correspondence.below_le_symm (h : below bound frames ≤ c) : below bound frames ≤ c.symm :=
  ⟨fun _ _ hij => h.1 _ _ ⟨hij.1.symm, hij.1 ▸ hij.2⟩, h.2.1, h.2.2⟩

/-! ## 4. Runs that end alike -/

/-- **What a run came to.** -/
abbrev Conclusion := EStateM.Result Stop Store Value

/-- **The store that the run left.** -/
def Conclusion.store : Conclusion → Store
  | .ok _ s | .error _ s => s

/-- **The run ended**, and was not nested too deeply. -/
def Ended : Conclusion → Prop
  | .ok .. | .error (.failed _) _ => True
  | .error .tooDeep _ => False

instance : DecidablePred Ended
  | .ok .. | .error (.failed _) _ => .isTrue trivial
  | .error .tooDeep _ => .isFalse id

/-- **The kind of fault that ended the run**, if one did. -/
def Conclusion.faultKind? : Conclusion → Option FaultKind
  | .error (.failed failure) _ => some failure.fault.kind
  | .ok .. | .error .tooDeep _ => none

theorem Conclusion.ended_of_faultKind? {e : Conclusion} {kind : FaultKind}
    (h : faultKind? e = some kind) : Ended e := by
  cases e with
  | ok => trivial
  | error stop =>
    cases stop with
    | failed => trivial
    | tooDeep => cases h

/-- **Two runs from the store `s` ended alike**: with the same value or with faults of one kind in
the same words, and with the same in all frames and the same output.  What is the same may differ
in the numbers of objects that are new. -/
inductive EndAlike (s : Store) : Conclusion → Conclusion → Prop where
  | ok {c : Correspondence} {v w : Value} {s₁ s₂ : Store}
    (hc : below s.spans.size Set.univ ≤ c) (hstores : s₁.Corresponds c s₂)
    (h : v.Corresponds c w) : EndAlike s (.ok v s₁) (.ok w s₂)
  | failed {c : Correspondence} {failure failure' : Failure} {s₁ s₂ : Store}
    (hc : below s.spans.size Set.univ ≤ c) (hstores : s₁.Corresponds c s₂)
    (h : failure.fault.Alike failure'.fault) :
    EndAlike s (.error (.failed failure) s₁) (.error (.failed failure') s₂)

theorem EndAlike.symm {e e' : Conclusion} (h : EndAlike s e e') : EndAlike s e' e := by
  cases h with
  | ok hc hstores h => exact .ok (Correspondence.below_le_symm hc) hstores.symm h.symm
  | failed hc hstores h =>
    exact .failed (Correspondence.below_le_symm hc) hstores.symm ⟨h.1.symm, h.2.symm⟩

theorem EndAlike.faultKind?_eq {e e' : Conclusion} (h : EndAlike s e e') :
    Conclusion.faultKind? e = Conclusion.faultKind? e' := by
  cases h with
  | ok => rfl
  | failed _ _ h => exact congrArg some h.1

theorem Outcome.endAlike {e e' : Conclusion} (hle : below s.spans.size Set.univ ≤ c)
    (h : Outcome c Value.Corresponds s₁ e e') (hended : Ended e) : EndAlike s e e' := by
  cases h with
  | ok hgrows hstores h => exact .ok (hle.trans hgrows.le) hstores h
  | failed hgrows hstores h => exact .failed (hle.trans hgrows.le) hstores h
  | tooDeep => exact hended.elim

/-- **Two ways to run, by how deep they may be nested, end alike**: when either ends, the other
does so alike at every greater depth. -/
structure RunsAlike (s : Store) (run run' : Nat → Conclusion) : Prop where
  forth : ∀ {depth depth'}, depth < depth' → Ended (run depth) →
    EndAlike s (run depth) (run' depth')
  back : ∀ {depth depth'}, depth' ≤ depth → Ended (run' depth') →
    EndAlike s (run depth) (run' depth')

/-- The first way needs one level at least and the second two, and with so many they end alike. -/
theorem RunsAlike.of_outcomes {run run' : Nat → Conclusion}
    (hle : below s.spans.size Set.univ ≤ c) (hzero : ¬ Ended (run 0)) (hzero' : ¬ Ended (run' 0))
    (hone' : ¬ Ended (run' 1))
    (hforth : ∀ {depth depth'}, depth ≤ depth' →
      Outcome c Value.Corresponds s₁ (run (depth + 1)) (run' (depth' + 2)))
    (hback : ∀ {depth depth'}, depth' < depth →
      Outcome c Value.Corresponds s₂ (run' (depth' + 2)) (run (depth + 1))) :
    RunsAlike s run run' := by
  refine ⟨fun {depth depth'} hlt hended => ?_, fun {depth depth'} hdepth hended => ?_⟩
  · cases depth with
    | zero => exact absurd hended hzero
    | succ depth =>
      obtain ⟨depth', rfl⟩ : ∃ k, depth' = k + 2 := ⟨depth' - 2, by omega⟩
      exact (hforth (by omega)).endAlike hle hended
  · match depth', hdepth, hended with
    | 0, _, hended => exact absurd hended hzero'
    | 1, _, hended => exact absurd hended hone'
    | depth' + 2, hdepth, hended =>
      obtain ⟨depth, rfl⟩ : ∃ k, depth = k + 1 := ⟨depth - 1, by omega⟩
      exact ((hback (by omega)).endAlike hle hended).symm

/-- Two ways to run come to two effects on stores that grew out of one, the first after one level
and the second after two. -/
theorem RunsAlike.of_simulates {run run' : Nat → Conclusion} {left right : Nat → Effect Value}
    (hs : s.Sound) (h₁ : s.Extends s₁) (h₂ : s.Extends s₂) (hbound : s.spans.size ≤ bound)
    (hbound₁ : bound ≤ s₁.spans.size) (hbound₂ : bound ≤ s₂.spans.size) (hzero : ¬ Ended (run 0))
    (hrun : ∀ depth, run (depth + 1) = left depth s₁) (hzero' : ¬ Ended (run' 0))
    (hone' : ¬ Ended (run' 1)) (hrun' : ∀ depth, run' (depth + 2) = right depth s₂)
    (hforth : ∀ {depth depth'}, depth ≤ depth' → (left depth).Simulates (below bound Set.univ)
      Value.Corresponds (right depth'))
    (hback : ∀ {depth depth'}, depth' < depth → (right depth').Simulates (below bound Set.univ)
      Value.Corresponds (left depth)) : RunsAlike s run run' := by
  have hforth' {depth depth' : Nat} (hle : depth ≤ depth') : Outcome (below bound Set.univ)
      Value.Corresponds s₁ (run (depth + 1)) (run' (depth' + 2)) := by
    rw [hrun, hrun']
    exact hforth hle s₁ s₂ (hs.corresponds h₁ h₂ hbound hbound₁ hbound₂ fun f _ => Set.mem_univ f)
  have hback' {depth depth' : Nat} (hlt : depth' < depth) : Outcome (below bound Set.univ)
      Value.Corresponds s₂ (run' (depth' + 2)) (run (depth + 1)) := by
    rw [hrun, hrun']
    exact hback hlt s₂ s₁ (hs.corresponds h₂ h₁ hbound hbound₂ hbound₁ fun f _ => Set.mem_univ f)
  exact .of_outcomes (Correspondence.below_mono hbound) hzero hzero' hone' hforth' hback'

end Lisp
