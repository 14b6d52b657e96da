/-
# What an evaluation can reach

An evaluation has the frames of its scope and of its expression, and through what is bound in
these it has others (`Store.Reaches`).  It changes no other frame, and hands on no other frame but
those that it makes (`Store.Touches`).  So two programs that have no frame in common stay apart,
whatever the one of them evaluates (`Evaluations.lookup?_eq`).

The proof compares a run with itself, in the correspondence that has just these frames.  All that
the evaluator does keeps to the frames of the correspondence, which were the reached ones at the
start, and no more are added than are made.
-/
import Lisp.Proofs.Endings

namespace Lisp

variable {s s₁ s₂ : Store} {frames : Set Nat} {v : Value} {scope : Scope}

/-! ## 1. Frames that are reached -/

/-- **The frames that are reached** from some: those of what is bound in them, and so on.  A scope
lists its frames with all their parents, so whatever holds a scope has these too. -/
inductive Store.Reaches (s : Store) (start : Set Nat) : Nat → Prop where
  | start {f : Nat} (h : f ∈ start) : Store.Reaches s start f
  | bound {f g : Nat} {entry : String × Value} (h : Store.Reaches s start f)
    (hentry : entry ∈ s.bindings f) (hframe : entry.2.HasFrame g) : Store.Reaches s start g

/-- **The frames of an expression in a scope.** -/
def Value.framesIn (v : Value) (scope : Scope) : Set Nat :=
  {f | f ∈ scope.frames ∨ v.HasFrame f}

/-- **What frames that are reached hold has only such frames.** -/
def Store.Closed (s : Store) (frames : Set Nat) : Prop :=
  ∀ f ∈ frames, ∀ entry ∈ s.bindings f, ∀ g, entry.2.HasFrame g → g ∈ frames

theorem Store.closed_reaches (s : Store) (start : Set Nat) : s.Closed {f | s.Reaches start f} :=
  fun _ hf _ hentry _ hg => .bound hf hentry hg

theorem Store.Closed.mem_of_reaches (h : s.Closed frames) {start : Set Nat}
    (hstart : start ⊆ frames) {f : Nat} (hf : s.Reaches start f) : f ∈ frames := by
  induction hf with
  | start hf => exact hstart hf
  | bound _ hentry hg ih => exact h _ ih _ hentry _ hg

/-! ## 2. A run compared with itself -/

/-- **Everything in these frames stands for itself.** -/
def Correspondence.inFrames (frames : Set Nat) : Correspondence where
  objects := Eq
  frames := frames
  atoms := Set.univ
  unique := ⟨fun _ _ _ h h' => h.trans h'.symm, fun _ _ _ h h' => h.symm.trans h'⟩
  made _ := trivial

open Correspondence (inFrames)

theorem Value.corresponds_inFrames (h : ∀ f, v.HasFrame f → f ∈ frames) :
    v.Corresponds (inFrames frames) v :=
  corresponds_self rfl (fun _ _ => rfl) h

theorem Store.Closed.corresponds (h : s.Closed frames) : s.Corresponds (inFrames frames) s := by
  refine ⟨⟨Eq.symm, id⟩, rfl, fun f hf => ?_, rfl⟩
  rw [Bindings.Corresponds, List.forall₂_same]
  exact fun entry hentry => ⟨rfl, Value.corresponds_inFrames (h f hf entry hentry)⟩

/-- **A run touched only these frames**, from which it started, and those that it made. -/
structure Store.Touches (s : Store) (frames : Set Nat) (s₁ : Store) : Prop where
  frames_le : s.frames.size ≤ s₁.frames.size
  kept : ∀ f < s.frames.size, f ∉ frames → s₁.bindings f = s.bindings f
  closed : s₁.Closed {f | f ∈ frames ∨ s.frames.size ≤ f ∧ f < s₁.frames.size}

theorem Store.Grows.touches {c : Correspondence} (h : s.Grows (inFrames frames) c s₁)
    (hstores : s₁.Corresponds c s₂) : s.Touches frames s₁ := by
  refine ⟨h.frames_le, fun f hlt hf => h.kept hlt hf, fun f hf entry hentry g hg => ?_⟩
  obtain ⟨w, hw⟩ := hstores.exists_of_mem_bindings (h.frames.mpr hf) hentry
  exact h.frames.mp (hw.mem_frames hg)

/-- **A run that is like itself touches only frames of the correspondence**, and its value has no
others. -/
theorem touches_of_simulates {effect : Effect Value}
    (h : effect.Simulates (inFrames frames) Value.Corresponds effect) (hclosed : s.Closed frames)
    (hended : Ended (effect s)) :
    s.Touches frames (Conclusion.store (effect s)) ∧
      ∀ v s₁, effect s = .ok v s₁ → ∀ f, v.HasFrame f →
        f ∈ frames ∨ s.frames.size ≤ f ∧ f < s₁.frames.size := by
  have houtcome := h s s hclosed.corresponds
  generalize effect s = e at hended houtcome
  cases houtcome with
  | ok hgrows hstores hv =>
    refine ⟨hgrows.touches hstores, ?_⟩
    rintro v s₁ ⟨⟩ f hf
    exact hgrows.frames.mp (hv.mem_frames hf)
  | failed hgrows hstores => exact ⟨hgrows.touches hstores, nofun⟩
  | tooDeep => exact hended.elim

theorem touches_evaluate {l : Language} {depth : Nat} {x : Value}
    (hx : ∀ f, x.HasFrame f → f ∈ frames) (hscope : scope.Within frames) (hclosed : s.Closed frames)
    (hended : Ended (evaluate l depth x scope s)) :
    s.Touches frames (Conclusion.store (evaluate l depth x scope s)) ∧
      ∀ v s₁, evaluate l depth x scope s = .ok v s₁ → ∀ f, v.HasFrame f →
        f ∈ frames ∨ s.frames.size ≤ f ∧ f < s₁.frames.size :=
  touches_of_simulates ((simulates_belowAt l (le_refl depth)).evaluate
    (Value.corresponds_inFrames hx) hscope) hclosed hended

theorem touches_apply {l : Language} {depth : Nat} {f args : Value}
    (hf : ∀ g, f.HasFrame g → g ∈ frames) (hargs : ∀ g, args.HasFrame g → g ∈ frames)
    (hscope : scope.Within frames) (hclosed : s.Closed frames)
    (hended : Ended (apply l depth f args scope s)) :
    s.Touches frames (Conclusion.store (apply l depth f args scope s)) :=
  (touches_of_simulates ((simulates_belowAt l (le_refl depth)).apply
    (Value.corresponds_inFrames hf) (Value.corresponds_inFrames hargs) hscope) hclosed hended).1

/-! ## 3. Programs that stay apart -/

/-- **One evaluation after another**, each of an expression and in a scope with only these frames,
whether it succeeds or fails. -/
inductive Evaluations (own : Set Nat) (s : Store) : Store → Prop where
  | start : Evaluations own s s
  | load {s₁ : Store} (h : Evaluations own s s₁) (datum : Datum) :
    Evaluations own s (s₁.load datum).2
  | evaluate {s₁ : Store} (h : Evaluations own s s₁) {l : Language} {depth : Nat} {x : Value}
    {scope : Scope} (hx : ∀ f, x.HasFrame f → f ∈ own) (hscope : scope.Within own)
    (hended : Ended (evaluate l depth x scope s₁)) :
    Evaluations own s (Conclusion.store (evaluate l depth x scope s₁))
  | apply {s₁ : Store} (h : Evaluations own s s₁) {l : Language} {depth : Nat} {f args : Value}
    {scope : Scope} (hf : ∀ g, f.HasFrame g → g ∈ own) (hargs : ∀ g, args.HasFrame g → g ∈ own)
    (hscope : scope.Within own) (hended : Ended (apply l depth f args scope s₁)) :
    Evaluations own s (Conclusion.store (apply l depth f args scope s₁))

variable {own : Set Nat}

/-- **Only own frames have changed**, and they hold nothing that has others. -/
structure Store.Keeps (s : Store) (own : Set Nat) (s₁ : Store) : Prop where
  frames_le : s.frames.size ≤ s₁.frames.size
  others : ∀ f ∉ own, s₁.bindings f = s.bindings f
  closed : s₁.Closed own

theorem Store.Keeps.touches (h : s.Keeps own s₁) (hnew : ∀ f, s.frames.size ≤ f → f ∈ own)
    (htouches : s₁.Touches own s₂) : s.Keeps own s₂ := by
  -- what one more run makes is made from now on, and so is own
  have hown : {f | f ∈ own ∨ s₁.frames.size ≤ f ∧ f < s₂.frames.size} = own :=
    Set.ext fun f => ⟨fun hf => hf.elim id fun hf => hnew f (h.frames_le.trans hf.1), .inl⟩
  refine ⟨h.frames_le.trans htouches.frames_le, fun f hf => ?_, hown ▸ htouches.closed⟩
  have hlt : f < s.frames.size := Nat.lt_of_not_le fun hge => hf (hnew f hge)
  rw [htouches.kept f (hlt.trans_le h.frames_le) hf, h.others f hf]

/-- **Evaluations change no frame but their own**, to which all that are made from now on belong. -/
theorem Evaluations.keeps (h : Evaluations own s s₁) (hnew : ∀ f, s.frames.size ≤ f → f ∈ own)
    (hclosed : s.Closed own) : s.Keeps own s₁ := by
  induction h with
  | start => exact ⟨le_refl _, fun _ _ => rfl, hclosed⟩
  | load h datum ih =>
    have hload : Effect.Simulates (inFrames own) Value.Corresponds (modifyGet (·.load datum))
        (modifyGet (·.load datum)) := Effect.simulates_load datum fun _ _ => trivial
    exact ih.touches hnew (touches_of_simulates hload ih.closed trivial).1
  | evaluate h hx hscope hended ih =>
    exact ih.touches hnew (touches_evaluate hx hscope ih.closed hended).1
  | apply h hf hargs hscope hended ih =>
    exact ih.touches hnew (touches_apply hf hargs hscope ih.closed hended)

/-- **The frames of one program**: those that it reaches from its global frame, and those that are
made from now on. -/
def Store.ownFrames (s : Store) (root : Nat) : Set Nat :=
  {f | s.Reaches {root} f ∨ s.frames.size ≤ f}

theorem Store.closed_ownFrames (s : Store) (root : Nat) : s.Closed (s.ownFrames root) := by
  rintro f (hf | hf) entry hentry g hg
  · exact .inl (.bound hf hentry hg)
  · simp [Store.bindings, hf] at hentry

theorem Store.lookup?_congr (h : ∀ f ∈ scope.frames, s₁.bindings f = s.bindings f)
    (name : String) : s₁.lookup? scope name = s.lookup? scope name := by
  simp only [Store.lookup?, Store.findIn?]
  generalize scope.frames = frames at h
  induction frames with
  | nil => rfl
  | cons f frames ih =>
    rw [List.findSome?_cons, List.findSome?_cons, h f List.mem_cons_self,
      ih fun g hg => h g (List.mem_cons_of_mem _ hg)]

/-- **What one program does changes no lookup in another**, if they have no frame in common. -/
theorem Evaluations.lookup?_eq {root other : Nat} (h : Evaluations (s.ownFrames root) s s₁)
    (hapart : ∀ f, s.Reaches {root} f → ¬ s.Reaches {other} f)
    (hmade : ∀ f, s.Reaches {other} f → f < s.frames.size)
    (hscope : scope.Within {f | s.Reaches {other} f}) (name : String) :
    s₁.lookup? scope name = s.lookup? scope name := by
  have hkeeps := h.keeps (fun f hf => .inr hf) (s.closed_ownFrames root)
  refine Store.lookup?_congr (fun f hf => hkeeps.others f ?_) name
  have hother := hscope f hf
  rintro (hroot | hnew)
  · exact hapart f hroot hother
  · exact absurd (hmade f hother) hnew.not_gt

/-! ### Texts -/

theorem Store.not_hasFrame_load (s : Store) (datum : Datum) (f : Nat) :
    ¬ (s.load datum).1.HasFrame f := by
  induction datum generalizing s with
  | nil | atom => exact id
  | pair head tail span ihHead ihTail => exact fun h => h.elim (ihHead s) (ihTail (s.load head).2)

section Texts

variable (c : Context) (hroot : c.root ∈ own)

include hroot

theorem Evaluations.evaluateData {value : Value} {data : List Datum} (h : Evaluations own s s₁)
    (hended : Ended (c.evaluateData value data s₁)) :
    Evaluations own s (Conclusion.store (c.evaluateData value data s₁)) := by
  induction data generalizing s₁ value with
  | nil => exact h
  | cons datum rest ih =>
    have hglobals : c.globals.Within own := by
      intro f hf
      obtain rfl : f = c.root := List.mem_singleton.mp hf
      exact hroot
    have hrun : c.evaluateData value (datum :: rest) s₁ = (c.evaluateValue (s₁.load datum).1 >>=
        fun value => c.evaluateData value rest) (s₁.load datum).2 := rfl
    have hform : Ended (c.evaluateValue (s₁.load datum).1 (s₁.load datum).2) → Evaluations own s
        (Conclusion.store (c.evaluateValue (s₁.load datum).1 (s₁.load datum).2)) :=
      (h.load datum).evaluate (fun f hf => absurd hf (s₁.not_hasFrame_load datum f)) hglobals
    rw [hrun] at hended ⊢
    cases hvalue : c.evaluateValue (s₁.load datum).1 (s₁.load datum).2 with
    | ok value s₂ =>
      rw [Effect.bind_of_ok hvalue] at hended ⊢
      rw [hvalue] at hform
      exact ih (hform trivial) hended
    | error stop s₂ =>
      rw [Effect.bind_of_error hvalue] at hended ⊢
      rw [hvalue] at hform
      exact hform hended

/-- **A text that a context evaluates** is a row of evaluations, whether it can be read or not. -/
theorem Evaluations.evaluateText {text : String} (h : Evaluations own s s₁)
    (hended : Ended (c.evaluateText text s₁)) :
    Evaluations own s (Conclusion.store (c.evaluateText text s₁)) := by
  cases hread : readAll 0 text with
  | error e =>
    have hrun : c.evaluateText text = Effect.fail (.unreadable e) := by
      rw [Context.evaluateText, Context.evaluateSource, hread]
    rw [hrun]
    exact h
  | ok data =>
    have hrun : c.evaluateText text = c.evaluateData .nil data := by
      rw [Context.evaluateText, Context.evaluateSource, hread]
    rw [hrun] at hended ⊢
    exact h.evaluateData c hroot hended

end Texts

/-! ### Contexts -/

/-- A frame that is about to be made holds nothing. -/
theorem Store.closed_next (s : Store) : s.Closed {s.frames.size} := by
  rintro f rfl entry hentry
  simp [Store.bindings] at hentry

theorem Context.closed_bindMarkers (make : Nat → String → Value) (root : Nat) (names : List String)
    (hmake : ∀ i name f, ¬ (make i name).HasFrame f) (h : s.Closed frames) :
    (bindMarkers make root s names).Closed frames ∧
      (bindMarkers make root s names).frames.size = s.frames.size := by
  induction names generalizing s with
  | nil => exact ⟨h, rfl⟩
  | cons name names ih =>
    have hbound : ((s.allocate (make · name) none).2.bind root name
        (make s.spans.size name)).Closed frames := by
      intro f hf entry hentry g hg
      rw [Store.bindings_bind] at hentry
      split at hentry
      · rcases Bindings.mem_insert hentry with rfl | hentry
        · exact absurd hg (hmake _ _ _)
        · exact h f hf entry hentry g hg
      · exact h f hf entry hentry g hg
    have hrest := ih hbound
    exact ⟨hrest.1, hrest.2.trans (by simp [Store.bind, Store.allocate])⟩

/-- **Setting up a standard context** makes one frame, and binds nothing that has any. -/
theorem Context.closed_standard {c : Context} (hc : standard s = (c, s₁)) (h : s.Closed frames) :
    s₁.Closed frames ∧ c.root = s.frames.size ∧ s₁.frames.size = s.frames.size + 1 := by
  have hnew : s.newFrame.2.Closed frames := fun f hf entry hentry =>
    h f hf entry (s.bindings_newFrame f ▸ hentry)
  have hforms := closed_bindMarkers .formMarker s.frames.size (Language.standard.forms.map (·.1))
    (fun _ _ _ => id) hnew
  have hhost := closed_bindMarkers .hostMarker s.frames.size (Language.standard.host.map (·.1))
    (fun _ _ _ => id) hforms.1
  obtain ⟨rfl, rfl⟩ := Prod.mk.inj hc
  refine ⟨hhost.1, rfl, (hhost.2.trans hforms.2).trans ?_⟩
  simp [Store.newFrame]

/-- **Two standard contexts in one store stay apart**: no text that the first one evaluates changes
what a name stands for in the second. -/
theorem Context.standard_apart {c c' : Context} {text : String} (hc : standard s = (c, s₁))
    (hc' : standard s₁ = (c', s₂)) (hended : Ended (c.evaluateText text s₂)) (name : String) :
    (Conclusion.store (c.evaluateText text s₂)).lookup? c'.globals name =
      s₂.lookup? c'.globals name := by
  obtain ⟨hclosed, hroot, hsize⟩ := closed_standard hc s.closed_next
  obtain ⟨hkept, -, -⟩ := closed_standard hc' hclosed
  obtain ⟨hclosed', hroot', hsize'⟩ := closed_standard hc' s₁.closed_next
  have hreaches : ∀ f, s₂.Reaches {c.root} f → f = s.frames.size := fun f hf =>
    hkept.mem_of_reaches (Set.singleton_subset_singleton.mpr hroot) hf
  have hreaches' : ∀ f, s₂.Reaches {c'.root} f → f = s₁.frames.size := fun f hf =>
    hclosed'.mem_of_reaches (Set.singleton_subset_singleton.mpr hroot') hf
  have hown : c.root ∈ s₂.ownFrames c.root := .inl (.start rfl)
  have hevaluations := Evaluations.start.evaluateText c hown hended
  have hscope : c'.globals.Within {f | s₂.Reaches {c'.root} f} := fun f hf =>
    .start (by simpa [globals, Scope.frames, Scope.ofRoot] using hf)
  refine hevaluations.lookup?_eq (fun f h h' => ?_) (fun f h => ?_) hscope name
  · have := hreaches f h
    have := hreaches' f h'
    omega
  · have := hreaches' f h
    omega

/-! ## 4. Evaluation touches what it reaches -/

/-- **Evaluation touches only what it can reach.**  It changes no frame that it does not reach, and
its value reaches only frames that were reached or are new.  Hence no sequence of evaluations in
one program changes a lookup in another, if no frame is reached from both; the frames of the other
have to be made before. -/
theorem evaluation_touches_reached :
    (∀ (l : Language) (depth : Nat) (x : Value) (scope : Scope) (s : Store),
      Ended (evaluate l depth x scope s) →
        (∀ f < s.frames.size, ¬ s.Reaches (x.framesIn scope) f →
          (Conclusion.store (evaluate l depth x scope s)).bindings f = s.bindings f) ∧
        ∀ v s₁, evaluate l depth x scope s = .ok v s₁ →
          ∀ f, s₁.Reaches {g | v.HasFrame g} f →
            s.Reaches (x.framesIn scope) f ∨ s.frames.size ≤ f ∧ f < s₁.frames.size) ∧
    ∀ (s s₁ : Store) (root other : Nat), (∀ f, s.Reaches {root} f → ¬ s.Reaches {other} f) →
      (∀ f, s.Reaches {other} f → f < s.frames.size) → Evaluations (s.ownFrames root) s s₁ →
        ∀ scope : Scope, scope.Within {f | s.Reaches {other} f} →
          ∀ name, s₁.lookup? scope name = s.lookup? scope name := by
  refine ⟨fun l depth x scope s hended => ?_, fun s s₁ root other hapart hmade h scope hscope =>
    h.lookup?_eq hapart hmade hscope⟩
  have htouches := touches_evaluate (fun f hf => .start (.inr hf)) (fun f hf => .start (.inl hf))
    (s.closed_reaches (x.framesIn scope)) hended
  refine ⟨htouches.1.kept, fun v s₁ hrun f hf => ?_⟩
  have hclosed := htouches.1.closed
  rw [hrun] at hclosed
  exact hclosed.mem_of_reaches (htouches.2 v s₁ hrun) hf

/-- Defining `x` in one global frame leaves the `x` of another alone. -/
theorem evaluation_touches_reached_define :
    let s : Store := ⟨Array.replicate 9 none, #[[("x", .nil)],
      [("x", .procedure 7 .nil (.pair 8 .nil .nil) (.ofRoot 1))]], "", []⟩
    let form : Value := .pair 1 (.atom 2 (.symbol "define")) (.pair 3 (.atom 4 (.symbol "x"))
      (.pair 5 (.atom 6 (.boolean false)) .nil))
    let s₁ := Conclusion.store (evaluate .standard 3 form (.ofRoot 0) s)
    (s₁.lookup? (.ofRoot 0) "x").map Value.isFalse = some true ∧
      (∀ f < s.frames.size, ¬ s.Reaches (form.framesIn (.ofRoot 0)) f →
        s₁.bindings f = s.bindings f) ∧
      s₁.lookup? (.ofRoot 1) "x" = s.lookup? (.ofRoot 1) "x" := by
  intro s form s₁
  have hended : Ended (evaluate .standard 3 form (.ofRoot 0) s) := by decide +kernel
  have hclosed : s.Closed {0} ∧ s.Closed {1} := by
    constructor
    · rintro f rfl entry hentry g hg
      simp [Store.bindings, s] at hentry
      subst hentry
      cases hg
    · rintro f rfl entry hentry g hg
      simp [Store.bindings, s] at hentry
      subst hentry
      simpa [Value.HasFrame, Scope.frames, Scope.ofRoot] using hg
  have hfirst : ∀ f, s.Reaches {0} f → f = 0 := fun f hf =>
    hclosed.1.mem_of_reaches subset_rfl hf
  have hsecond : ∀ f, s.Reaches {1} f → f = 1 := fun f hf =>
    hclosed.2.mem_of_reaches subset_rfl hf
  have hform : ∀ f, ¬ form.HasFrame f := by simp [form, Value.HasFrame]
  have hscope : ∀ root, (Scope.ofRoot root).Within {f | s.Reaches {root} f} := fun root f hf =>
    .start (by simpa [Scope.frames, Scope.ofRoot] using hf)
  have hevaluations : Evaluations (s.ownFrames 0) s s₁ :=
    Evaluations.start.evaluate (fun f hf => absurd hf (hform f)) (fun f hf => .inl (hscope 0 f hf))
      hended
  have hapart : ∀ f, s.Reaches {0} f → ¬ s.Reaches {1} f := by
    intro f h h'
    have := hfirst f h
    have := hsecond f h'
    omega
  have hmade : ∀ f, s.Reaches {1} f → f < s.frames.size := by
    intro f hf
    rw [hsecond f hf]
    decide
  exact ⟨by decide +kernel, (evaluation_touches_reached.1 _ _ _ _ _ hended).1,
    evaluation_touches_reached.2 s s₁ 0 1 hapart hmade hevaluations _ (hscope 1) _⟩

end Lisp
