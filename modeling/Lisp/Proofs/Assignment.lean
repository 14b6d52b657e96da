/-
# What an assignment writes

Frames are shared.  A scope is a chain of frames (`Scope.Follows`), and one frame may be part of any
number of chains: to enter a scope adds a chain and keeps the others (`enter_new`).  An assignment
writes a single binding: that of the name in the nearest frame that binds it (`Store.Nearest`), or
in the global frame where none does.  All else is as before (`Store.Rebinds`).

What a scope finds under the name it reads from its own nearest frame that binds it.  So it finds
the new value if that is the frame which was written, or if the name was bound in neither chain and
both have one global frame (`Store.Sees`).  Every other scope finds what it found before:

* if its nearest frame is another one, then the frame that was written lies behind it, or not in
  the chain at all;
* a name that becomes global stays hidden behind the frames that bind it.  No inner frame is
  written then, for a global frame has no parent, and so is an inner frame of no chain.
-/
import Lisp.Proofs.Simulation

namespace Lisp

variable {parent : Nat → Option Nat} {s s₁ : Store} {scope other : Scope} {frames : List Nat}
  {f g : Nat} {name m : String} {v : Value}

/-! ## 1. Chains of frames -/

/-- **The scope is a chain of frames**: each has the next one as its parent, and the last one has
no parent. -/
inductive Scope.Follows (parent : Nat → Option Nat) : Scope → Prop where
  | root {f : Nat} (h : parent f = none) : Follows parent (.ofRoot f)
  | enter {f : Nat} {scope : Scope} (h : Follows parent scope) (hf : parent f = some scope.frame) :
    Follows parent (scope.enter f)

namespace Scope.Follows

theorem parent_root (h : scope.Follows parent) : parent scope.root = none := by
  induction h with
  | root h => exact h
  | enter _ _ ih => exact ih

theorem parent_ne_none (h : scope.Follows parent) (hf : f ∈ scope.locals) : parent f ≠ none := by
  induction h with
  | root => simp [Scope.ofRoot] at hf
  | enter _ hparent ih =>
    rcases List.mem_cons.mp hf with rfl | hf
    · simp [hparent]
    · exact ih hf

/-- **A global frame is an inner frame of no chain.** -/
theorem root_not_mem_locals (h : scope.Follows parent) (h' : other.Follows parent) :
    scope.root ∉ other.locals := by
  intro hmem
  exact h'.parent_ne_none hmem h.parent_root

/-- The parent of a frame that is not in a chain may be any. -/
theorem update (h : scope.Follows parent) (hnew : f ∉ scope.frames) (p : Option Nat) :
    scope.Follows (Function.update parent f p) := by
  induction h with
  | @root g hg =>
    have hne : g ≠ f := by
      rintro rfl
      exact hnew List.mem_cons_self
    exact .root (by rw [Function.update_of_ne hne, hg])
  | @enter g scope _ hg ih =>
    have hne : g ≠ f := by
      rintro rfl
      exact hnew List.mem_cons_self
    exact .enter (ih fun hmem => hnew (List.mem_cons_of_mem _ hmem))
      (by rw [Function.update_of_ne hne, hg])

/-- **Entering a scope keeps all chains**: the new frame has the scope as its parent, and is part
of no other chain. -/
theorem enter_new (h : scope.Follows parent) (hmade : ∀ f ∈ scope.frames, f < s.frames.size) :
    let parent₁ := Function.update parent s.frames.size (some scope.frame)
    (s.enter scope).1.Follows parent₁ ∧
      ∀ other : Scope, other.Follows parent → (∀ f ∈ other.frames, f < s.frames.size) →
        other.Follows parent₁ := by
  intro parent₁
  have hkeep : ∀ other : Scope, other.Follows parent → (∀ f ∈ other.frames, f < s.frames.size) →
      other.Follows parent₁ := fun other hother hold =>
    hother.update (fun hmem => Nat.lt_irrefl _ (hold _ hmem)) _
  exact ⟨.enter (hkeep scope h hmade) (Function.update_self ..), hkeep⟩

end Scope.Follows

/-! ## 2. The nearest frame that binds a name -/

namespace Store

/-- **The frame is the first of several that binds the name.** -/
def Nearest (s : Store) (frames : List Nat) (name : String) (f : Nat) : Prop :=
  ∃ inner outer, frames = inner ++ f :: outer ∧ s.binds f name = true ∧
    ∀ g ∈ inner, s.binds g name = false

/-- **None of the frames binds the name.** -/
def Unbound (s : Store) (frames : List Nat) (name : String) : Prop :=
  ∀ f ∈ frames, s.binds f name = false

theorem Nearest.binds (h : s.Nearest frames name f) : s.binds f name = true := by
  obtain ⟨_, _, _, hbinds, _⟩ := h
  exact hbinds

theorem Nearest.mem (h : s.Nearest frames name f) : f ∈ frames := by
  obtain ⟨inner, outer, rfl, _, _⟩ := h
  simp

theorem holder?_eq_some_iff : s.holder? scope name = some f ↔ s.Nearest scope.frames name f := by
  simp only [holder?, List.find?_eq_some_iff_append, Nearest, Bool.not_eq_true']
  constructor
  · rintro ⟨hbinds, inner, outer, hframes, hinner⟩
    exact ⟨inner, outer, hframes, hbinds, hinner⟩
  · rintro ⟨inner, outer, hframes, hbinds, hinner⟩
    exact ⟨hbinds, inner, outer, hframes, hinner⟩

theorem holder?_eq_none_iff : s.holder? scope name = none ↔ s.Unbound scope.frames name := by
  simp [holder?, Unbound]

theorem nearest_or_unbound (s : Store) (frames : List Nat) (name : String) :
    (∃ f, s.Nearest frames name f) ∨ s.Unbound frames name := by
  induction frames with
  | nil => exact .inr (by simp [Unbound])
  | cons g frames ih =>
    by_cases hbinds : s.binds g name = true
    · exact .inl ⟨g, [], frames, rfl, hbinds, by simp⟩
    · rw [Bool.not_eq_true] at hbinds
      rcases ih with ⟨f, inner, outer, rfl, hf, hinner⟩ | hunbound
      · exact .inl ⟨f, g :: inner, outer, rfl, hf, by simpa [hbinds] using hinner⟩
      · exact .inr (by simpa [Unbound, hbinds] using hunbound)

theorem binds_eq_false_iff : s.binds f name = false ↔ (s.bindings f).find? name = none := by
  simp [binds]

/-- **What is found under a name** is bound to it in the nearest frame. -/
theorem findIn?_of_nearest (h : s.Nearest frames name f) :
    s.findIn? frames name = (s.bindings f).find? name := by
  obtain ⟨inner, outer, rfl, hbinds, hinner⟩ := h
  have hnone : inner.findSome? (fun g => (s.bindings g).find? name) = none := by
    rw [List.findSome?_eq_none_iff]
    exact fun g hg => binds_eq_false_iff.mp (hinner g hg)
  obtain ⟨w, hw⟩ := Option.isSome_iff_exists.mp hbinds
  simp [findIn?, List.findSome?_append, hnone, hw]

theorem findIn?_of_unbound (h : s.Unbound frames name) : s.findIn? frames name = none := by
  rw [findIn?, List.findSome?_eq_none_iff]
  exact fun f hf => binds_eq_false_iff.mp (h f hf)

/-- **A scope looks among its inner frames first**, and then in its global frame. -/
theorem lookup?_eq_or (s : Store) (scope : Scope) (name : String) :
    s.lookup? scope name = (s.lookupLocal? scope name).or ((s.bindings scope.root).find? name) := by
  simp [lookup?, lookupLocal?, findIn?, Scope.frames, List.findSome?_append]

/-! ## 3. One binding is written -/

/-- **The two stores differ in one binding**, that of the name in the frame, which has the value
now. -/
structure Rebinds (s : Store) (f : Nat) (name : String) (v : Value) (s₁ : Store) : Prop where
  find? : ∀ g m, (s₁.bindings g).find? m =
    if g = f ∧ m = name then some v else (s.bindings g).find? m
  frames : s₁.frames.size = s.frames.size
  spans : s₁.spans = s.spans
  output : s₁.output = s.output

end Store

theorem Bindings.find?_cons (first : String) (old : Value) (rest : Bindings) (m : String) :
    Bindings.find? ((first, old) :: rest) m = if m = first then some old else rest.find? m := by
  by_cases h : m = first
  · simp [Bindings.find?, h]
  · simp [Bindings.find?, List.lookup_cons, beq_eq_false_iff_ne.mpr h, h]

theorem Bindings.find?_insert (bs : Bindings) (name m : String) (v : Value) :
    (bs.insert name v).find? m = if m = name then some v else bs.find? m := by
  induction bs with
  | nil => exact Bindings.find?_cons name v [] m
  | cons entry rest ih =>
    obtain ⟨first, old⟩ := entry
    by_cases hfirst : first = name
    · subst hfirst
      rw [Bindings.insert, if_pos rfl, Bindings.find?_cons, Bindings.find?_cons]
      split <;> rfl
    · rw [Bindings.insert, if_neg hfirst, Bindings.find?_cons, Bindings.find?_cons, ih]
      by_cases hm : m = first
      · subst hm
        simp [hfirst]
      · simp [hm]

namespace Store

theorem rebinds_bind (hf : f < s.frames.size) (name : String) (v : Value) :
    s.Rebinds f name v (s.bind f name v) := by
  refine ⟨fun g m => ?_, by simp [bind], rfl, rfl⟩
  rw [bindings_bind]
  by_cases hg : g = f
  · subst hg
    simp [hf, Bindings.find?_insert]
  · have hne : ¬ (f = g ∧ g < s.frames.size) := fun h => hg h.1.symm
    simp [hg, hne]

namespace Rebinds

theorem binds_eq (h : s.Rebinds f name v s₁) (g : Nat) (m : String) :
    s₁.binds g m = (decide (g = f ∧ m = name) || s.binds g m) := by
  by_cases hwritten : g = f ∧ m = name <;> simp [binds, h.find?, hwritten]

/-- A scope whose nearest frame was written finds the new value. -/
theorem findIn?_of_nearest (h : s.Rebinds f name v s₁) (hnearest : s.Nearest frames name f) :
    s₁.findIn? frames name = some v := by
  obtain ⟨inner, outer, rfl, hbinds, hinner⟩ := hnearest
  have hnearest₁ : s₁.Nearest (inner ++ f :: outer) name f := by
    refine ⟨inner, outer, rfl, by simp [h.binds_eq], fun g hg => ?_⟩
    have hne : g ≠ f := by
      rintro rfl
      simp [hinner g hg] at hbinds
    simp [h.binds_eq, hne, hinner g hg]
  rw [Store.findIn?_of_nearest hnearest₁, h.find?, if_pos ⟨rfl, rfl⟩]

/-- Frames find what they found before if their nearest frame is another one, and the frame that
was written had bound the name already or is none of them. -/
theorem findIn?_eq (h : s.Rebinds f name v s₁) (hold : s.binds f name = true ∨ f ∉ frames)
    (hother : ¬ (m = name ∧ s.Nearest frames name f)) :
    s₁.findIn? frames m = s.findIn? frames m := by
  by_cases hm : m = name
  · subst hm
    -- up to the nearest frame that binds the name, none is the one that was written
    have hne : ∀ g ∈ frames, s.binds g m = false → g ≠ f := by
      rintro g hg hbinds rfl
      rcases hold with hold | hold
      · simp [hbinds] at hold
      · exact hold hg
    rcases s.nearest_or_unbound frames m with ⟨g, hg⟩ | hunbound
    · have hgf : g ≠ f := by
        rintro rfl
        exact hother ⟨rfl, hg⟩
      have hg₁ : s₁.Nearest frames m g := by
        obtain ⟨inner, outer, rfl, hbinds, hinner⟩ := hg
        refine ⟨inner, outer, rfl, by simp [h.binds_eq, hbinds], fun k hk => ?_⟩
        have hkf : k ≠ f := hne k (List.mem_append_left _ hk) (hinner k hk)
        simp [h.binds_eq, hkf, hinner k hk]
      rw [Store.findIn?_of_nearest hg, Store.findIn?_of_nearest hg₁, h.find?,
        if_neg fun hwritten => hgf hwritten.1]
    · have hunbound₁ : s₁.Unbound frames m := by
        intro g hg
        simp [h.binds_eq, hne g hg (hunbound g hg), hunbound g hg]
      rw [findIn?_of_unbound hunbound, findIn?_of_unbound hunbound₁]
  · simp [Store.findIn?, h.find?, hm]

end Rebinds

/-! ## 4. Assignments -/

/-- **The frame that an assignment writes.** -/
inductive Target (s : Store) (scope : Scope) (name : String) : Nat → Prop where
  | nearest {f : Nat} (h : s.Nearest scope.frames name f) : Target s scope name f
  | global (h : s.Unbound scope.frames name) : Target s scope name scope.root

/-- **A scope sees what is assigned to the name in another**: it reads the name from the frame that
is written, or else it has it from nowhere, like the other, and they share the global frame. -/
inductive Sees (s : Store) (scope : Scope) (name : String) (other : Scope) : Prop where
  | nearest {f : Nat} (h : s.Nearest scope.frames name f) (h' : s.Nearest other.frames name f) :
    Sees s scope name other
  | global (h : s.Unbound scope.frames name) (h' : s.Unbound other.frames name)
    (hroot : other.root = scope.root) : Sees s scope name other

theorem Nearest.unique (h : s.Nearest scope.frames name f) (h' : s.Nearest scope.frames name g) :
    f = g := by
  rw [← holder?_eq_some_iff] at h h'
  exact Option.some.inj (h.symm.trans h')

theorem Nearest.not_unbound (h : s.Nearest frames name f) : ¬ s.Unbound frames name := by
  intro hunbound
  have hbinds := h.binds
  simp [hunbound f h.mem] at hbinds

theorem Target.eq_of_nearest (h : s.Target scope name f) (hg : s.Nearest scope.frames name g) :
    f = g := by
  cases h with
  | nearest hf => exact hf.unique hg
  | global hunbound => exact absurd hunbound hg.not_unbound

theorem Target.eq_root (h : s.Target scope name f) (hunbound : s.Unbound scope.frames name) :
    f = scope.root := by
  cases h with
  | nearest hf => exact absurd hunbound hf.not_unbound
  | global => rfl

theorem rebinds_assign (hmade : ∀ f ∈ scope.frames, f < s.frames.size) (name : String)
    (v : Value) : ∃ f, s.Target scope name f ∧ s.Rebinds f name v (s.assign scope name v) := by
  rcases s.nearest_or_unbound scope.frames name with ⟨f, hf⟩ | hunbound
  · refine ⟨f, .nearest hf, ?_⟩
    rw [assign, holder?_eq_some_iff.mpr hf]
    exact rebinds_bind (hmade f hf.mem) name v
  · refine ⟨scope.root, .global hunbound, ?_⟩
    rw [assign, holder?_eq_none_iff.mpr hunbound]
    have hroot : scope.root < s.frames.size := hmade _ (by simp [Scope.frames])
    have hwrite := (rebinds_bind (s := s.record (.implicitGlobal name)) hroot name v)
    exact ⟨hwrite.find?, hwrite.frames, hwrite.spans, hwrite.output⟩

theorem journal_assign (s : Store) (scope : Scope) (name : String) (v : Value) :
    s.Unbound scope.frames name ∧
        (s.assign scope name v).journal = .implicitGlobal name :: s.journal ∨
      ¬ s.Unbound scope.frames name ∧ (s.assign scope name v).journal = s.journal := by
  rcases s.nearest_or_unbound scope.frames name with ⟨f, hf⟩ | hunbound
  · refine .inr ⟨hf.not_unbound, ?_⟩
    rw [assign, holder?_eq_some_iff.mpr hf]
    rfl
  · refine .inl ⟨hunbound, ?_⟩
    rw [assign, holder?_eq_none_iff.mpr hunbound]
    rfl

section Target

variable (hscope : scope.Follows parent) (hother : other.Follows parent)
  (htarget : s.Target scope name f) (h : s.Rebinds f name v s₁)

include hscope hother htarget h

/-- **Among inner frames only the frame that was written matters.**  A name that became global is
not found there. -/
theorem Rebinds.lookupLocal?_eq (hnot : ¬ (m = name ∧ s.Nearest other.locals name f)) :
    s₁.lookupLocal? other m = s.lookupLocal? other m := by
  refine h.findIn?_eq ?_ hnot
  cases htarget with
  | nearest hf => exact .inl hf.binds
  | global => exact .inr (hscope.root_not_mem_locals hother)

/-- **A scope that sees the assignment finds the new value.** -/
theorem Rebinds.lookup?_of_sees (hsees : s.Sees scope name other) :
    s₁.lookup? other name = some v := by
  cases hsees with
  | nearest hg hg' =>
    rw [← htarget.eq_of_nearest hg] at hg'
    exact h.findIn?_of_nearest hg'
  | global hunbound hunbound' hroot =>
    have hlocals : s.Unbound other.locals name := fun g hg =>
      hunbound' g (List.mem_append_left _ hg)
    have hlocal := h.lookupLocal?_eq hscope hother htarget (m := name)
      fun hnearest => hnearest.2.not_unbound hlocals
    rw [lookup?_eq_or, hlocal, lookupLocal?, findIn?_of_unbound hlocals, hroot, h.find?,
      if_pos ⟨(htarget.eq_root hunbound).symm, rfl⟩, Option.none_or]

/-- **Every other scope finds what it found before**, and so does each under another name. -/
theorem Rebinds.lookup?_eq (hnot : ¬ (m = name ∧ s.Sees scope name other)) :
    s₁.lookup? other m = s.lookup? other m := by
  cases htarget with
  | nearest hf =>
    exact h.findIn?_eq (.inl hf.binds) fun hnearest => hnot ⟨hnearest.1, .nearest hf hnearest.2⟩
  | global hunbound =>
    have hfree : s.binds scope.root name = false := hunbound _ (by simp [Scope.frames])
    have hlocal := h.lookupLocal?_eq hscope hother (.global hunbound) (m := m) fun hnearest =>
      hscope.root_not_mem_locals hother hnearest.2.mem
    rw [lookup?_eq_or, lookup?_eq_or, hlocal, h.find?]
    split
    · next hwritten =>
      -- the name is hidden behind an inner frame, since the scope does not see the new binding
      obtain ⟨hroot, rfl⟩ := hwritten
      rcases s.nearest_or_unbound other.locals m with ⟨g, hg⟩ | hlocals
      · obtain ⟨w, hw⟩ := Option.isSome_iff_exists.mp hg.binds
        simp [lookupLocal?, Store.findIn?_of_nearest hg, hw]
      · refine absurd ⟨rfl, .global hunbound (fun g hg => ?_) hroot⟩ hnot
        rcases List.mem_append.mp hg with hg | hg
        · exact hlocals g hg
        · rw [List.mem_singleton.mp hg, hroot]
          exact hfree
    · rfl

end Target

theorem sees_self (s : Store) (scope : Scope) (name : String) : s.Sees scope name scope := by
  rcases s.nearest_or_unbound scope.frames name with ⟨f, hf⟩ | hunbound
  · exact .nearest hf hf
  · exact .global hunbound hunbound rfl

/-- **An assignment writes exactly one binding**: in the nearest frame that binds the name, or in
the global frame, with a warning, if none does.  The scope finds the new value then, and so do the
scopes that see the assignment; what is found under other names and in other scopes, in all frames
or only in inner ones, and whether a frame binds a name is as before. -/
theorem assign_writes_one_binding (hscope : scope.Follows parent)
    (hmade : ∀ f ∈ scope.frames, f < s.frames.size) (name : String) (v : Value) :
    let s₁ := s.assign scope name v
    ∃ f, s.Target scope name f ∧ s.Rebinds f name v s₁ ∧
      (s.Unbound scope.frames name ∧ s₁.journal = .implicitGlobal name :: s.journal ∨
        ¬ s.Unbound scope.frames name ∧ s₁.journal = s.journal) ∧
      s₁.lookup? scope name = some v ∧
      ∀ other, other.Follows parent →
        (s.Sees scope name other → s₁.lookup? other name = some v) ∧
        (∀ m, ¬ (m = name ∧ s.Sees scope name other) →
          s₁.lookup? other m = s.lookup? other m) ∧
        (s.Nearest other.locals name f → s₁.lookupLocal? other name = some v) ∧
        (∀ m, ¬ (m = name ∧ s.Nearest other.locals name f) →
          s₁.lookupLocal? other m = s.lookupLocal? other m) ∧
        ∀ m, s₁.binds other.frame m =
          (decide (other.frame = f ∧ m = name) || s.binds other.frame m) := by
  intro s₁
  obtain ⟨f, htarget, hrebinds⟩ := rebinds_assign hmade name v
  refine ⟨f, htarget, hrebinds, s.journal_assign scope name v,
    hrebinds.lookup?_of_sees hscope hscope htarget (s.sees_self scope name), fun other hother => ?_⟩
  refine ⟨fun hsees => hrebinds.lookup?_of_sees hscope hother htarget hsees,
    fun m hnot => hrebinds.lookup?_eq hscope hother htarget hnot,
    fun hnearest => hrebinds.findIn?_of_nearest hnearest,
    fun m hnot => hrebinds.lookupLocal?_eq hscope hother htarget hnot,
    fun m => hrebinds.binds_eq other.frame m⟩

/-- Frame 1 and the global frame 0 both bind `x`.  Assigned to from frame 3, which is inside of
frame 1, it has a new value there and in frame 1, and the old one for frame 2 beside it. -/
theorem assign_writes_one_binding_shared :
    let parent : Nat → Option Nat := fun f => if f = 0 then none else some (if f = 3 then 1 else 0)
    let s : Store := ⟨#[none], #[[("x", .nil)], [("x", .nil)], [], []], "", []⟩
    let five : Value := .atom 0 (.integer 5)
    let inner : Scope := ⟨[3, 1], 0⟩
    let s₁ := s.assign inner "x" five
    inner.Follows parent ∧ (∀ f ∈ inner.frames, f < s.frames.size) ∧
      s₁.lookup? inner "x" = some five ∧ s₁.lookup? ⟨[1], 0⟩ "x" = some five ∧
      s₁.lookup? ⟨[2], 0⟩ "x" = some .nil ∧ s₁.binds 3 "x" = false := by
  intro parent s five inner s₁
  have hroot : (Scope.ofRoot 0).Follows parent := .root rfl
  have hone : Scope.Follows parent ⟨[1], 0⟩ := .enter hroot rfl
  have htwo : Scope.Follows parent ⟨[2], 0⟩ := .enter hroot rfl
  have hinner : inner.Follows parent := .enter hone rfl
  have hmade : ∀ f ∈ inner.frames, f < s.frames.size := by decide
  have hnearest : s.Nearest inner.frames "x" 1 := holder?_eq_some_iff.mp rfl
  have hsees : s.Sees inner "x" ⟨[1], 0⟩ := .nearest hnearest (holder?_eq_some_iff.mp rfl)
  have hbeside : ¬ s.Sees inner "x" ⟨[2], 0⟩ := by
    rintro (⟨hg, hg'⟩ | ⟨hunbound, _, _⟩)
    · rw [hg.unique hnearest, ← holder?_eq_some_iff] at hg'
      exact absurd hg' (by decide)
    · exact hnearest.not_unbound hunbound
  obtain ⟨f, htarget, _, _, hself, hothers⟩ := assign_writes_one_binding hinner hmade "x" five
  refine ⟨hinner, hmade, hself, (hothers _ hone).1 hsees, ?_, ?_⟩
  · rw [(hothers _ htwo).2.1 "x" fun hnot => hbeside hnot.2]
    rfl
  · have hbinds := (hothers _ hinner).2.2.2.2 "x"
    rw [htarget.eq_of_nearest hnearest] at hbinds
    exact hbinds

end Store

end Lisp
