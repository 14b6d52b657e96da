/-
# No evaluation makes an unreadable name

Names are made in many places: by the reader, by the expansion of a macro, from the answers of host
functions, which are read, and by the evaluator itself where it writes a quote or a lambda.  All of
these are names that the reader reads as the symbol again, and a raw string never holds its own
delimiter (`Atom.Legible`).

The invariant is that all atoms bound in any frame are legible, those in the code of procedures and
macros included (`Store.Legible`).  It is not carried through the evaluator once more: an evaluation
is like itself in a correspondence that has just the legible atoms, and so has no others at its end
(`legible_of_simulates`).  What this takes is that the atoms which evaluation makes are legible
(`Atom.Made.legible`), and of these only those that are read need an argument.
-/
import Lisp.Proofs.Batches
import Lisp.Proofs.Printing

namespace Lisp

open ParseTree (allTokens allData)

/-! ## 1. Legible atoms -/

/-- **The atom reads back as far as names go**: a symbol from its name, as exactly one form, and a
raw string because it does not hold its delimiter. -/
def Atom.Legible : Atom → Prop
  | .symbol name => ∀ file, ∃ form, readAll file name = .ok [form] ∧
      form.bare = .atom (.symbol name) none
  | .string text raw => raw = true → '`' ∉ text.toList
  | .boolean _ | .integer _ | .float _ => True

theorem SymbolText.legible {name : String} (h : SymbolText name) : (Atom.symbol name).Legible :=
  fun file => by simpa using (h.atomText.writes h.denotes).readAll_eq file

namespace Datum

theorem hasAtom_symbol_iff {name : String} {d : Datum} :
    d.HasAtom (.symbol name) ↔ d.Mentions name := by
  induction d with
  | nil | atom => rfl
  | pair head tail span ihHead ihTail => rw [HasAtom, Mentions, ihHead, ihTail]

theorem hasAtom_bare {value : Atom} {d : Datum} : d.bare.HasAtom value ↔ d.HasAtom value := by
  induction d with
  | nil | atom => rfl
  | pair head tail span ihHead ihTail => rw [bare, HasAtom, HasAtom, ihHead, ihTail]

theorem hasAtom_listWithTail {value : Atom} {items : List Datum} {tail : Datum} :
    (listWithTail items tail).HasAtom value ↔
      (∃ item ∈ items, item.HasAtom value) ∨ tail.HasAtom value := by
  induction items with
  | nil => simp [listWithTail]
  | cons item items ih => simp [listWithTail, HasAtom, ih, or_assoc]

end Datum

theorem Atom.ofChars_ne_string (word : List Char) (text : String) (raw : Bool) :
    Atom.ofChars word ≠ .string text raw := by
  unfold Atom.ofChars Numeral.toAtom
  repeat' split
  all_goals exact Atom.noConfusion

namespace ParseTree

mutual

/-- **Every string of a datum** is written by a token. -/
theorem mem_tokens_of_hasAtom {text : String} {raw : Bool} :
    ∀ d : ParseTree, d.datum.HasAtom (.string text raw) → .string text.toList raw ∈ d.tokens
  | .atom word, h => absurd h (Atom.ofChars_ne_string word text raw)
  | .string written raw', h => by
    obtain ⟨rfl, rfl⟩ := Atom.string.inj h
    simp [tokens]
  | .quote d, h => by
    have hd : d.datum.HasAtom (.string text raw) := by
      simpa [datum, Datum.quoted, Datum.listWithTail, Datum.HasAtom] using h
    simp [tokens, mem_tokens_of_hasAtom d hd]
  | .list items, h => by
    simp only [datum, Datum.hasAtom_listWithTail, Datum.HasAtom, or_false] at h
    simp [tokens, mem_allTokens_of_hasAtom items h]
  | .dotted first others last, h => by
    simp only [datum, Datum.hasAtom_listWithTail, List.mem_cons, exists_eq_or_imp] at h
    rcases h with (h | h) | h
    · simp [tokens, mem_tokens_of_hasAtom first h]
    · simp [tokens, mem_allTokens_of_hasAtom others h]
    · simp [tokens, mem_tokens_of_hasAtom last h]

theorem mem_allTokens_of_hasAtom {text : String} {raw : Bool} :
    ∀ ds : List ParseTree, (∃ x ∈ allData ds, x.HasAtom (.string text raw)) →
      .string text.toList raw ∈ allTokens ds
  | [], h => by simp [allData] at h
  | d :: ds, h => by
    simp only [allData, List.mem_cons, exists_eq_or_imp] at h
    rcases h with h | h
    · simp [allTokens, mem_tokens_of_hasAtom d h]
    · simp [allTokens, mem_allTokens_of_hasAtom ds h]

end

end ParseTree

/-- **What tokens write is legible**: symbols because they were atoms of the text, and raw strings
because their tokens hold no backtick. -/
theorem legible_of_tokens {source : List Char} {ds : List ParseTree} {x : Datum} {value : Atom}
    (htokens : allTokens ds ⊆ tokens source) (hx : x ∈ allData ds) (h : x.HasAtom value) :
    value.Legible := by
  cases value with
  | boolean | integer | float => trivial
  | symbol name =>
    have hmentions : x.Mentions name := Datum.hasAtom_symbol_iff.mp h
    rcases ParseTree.allWriteName_of_mentions ds ⟨x, hx, hmentions⟩ with rfl | ⟨text, htext, hname⟩
    · exact symbolText_quote.legible
    · obtain rfl := eq_of_ofChars_eq_symbol hname
      exact SymbolText.legible ⟨atomText_of_mem_tokens (htokens htext), hname⟩
  | string text raw =>
    rintro rfl
    exact not_mem_of_mem_tokens (htokens (ParseTree.mem_allTokens_of_hasAtom ds ⟨x, hx, h⟩))

/-- **All that is read is legible**, be it in front of an error. -/
theorem legible_of_contents {file : Nat} {text : List Char} {datum : Datum} {value : Atom}
    (hdatum : datum ∈ (Contents.ofChars file text).data) (h : datum.HasAtom value) :
    value.Legible := by
  obtain ⟨done, hdone, hwritten⟩ := written_contents file text
  obtain ⟨ds, htokens, hdata⟩ := hwritten.derivation
  have hbare : datum.bare ∈ allData ds := hdata ▸ List.mem_map_of_mem hdatum
  have hsource : allTokens ds ⊆ tokens text := by
    rw [htokens]
    exact (hdone.map Lexeme.token).subset
  exact legible_of_tokens hsource hbare (Datum.hasAtom_bare.mpr h)

theorem symbolText_lambda : SymbolText "lambda" where
  atomText := show AtomText ['l', 'a', 'm', 'b', 'd', 'a'] from .of_all rfl (by decide) (by decide)
  denotes := by decide

/-- **The atoms that evaluation makes** are legible. -/
theorem Atom.Made.legible {value : Atom} (h : value.Made) : value.Legible := by
  cases h with
  | boolean | integer | float => trivial
  | string => exact nofun
  | quote => exact symbolText_quote.legible
  | lambda => exact symbolText_lambda.legible
  | read hread hdatum h =>
    rw [← (readAll_eq_ok_iff.mp hread).2] at hdatum
    exact legible_of_contents hdatum h

/-! ## 2. Evaluation keeps to legible atoms -/

/-- **Everything in the value is legible**, the code of what can be called included. -/
def Value.Legible (v : Value) : Prop :=
  ∀ value, v.HasAtom value → value.Legible

/-- **All that any frame binds is legible.** -/
def Store.Legible (s : Store) : Prop :=
  ∀ f, ∀ entry ∈ s.bindings f, entry.2.Legible

theorem biUnique_eq : Relator.BiUnique (Eq : Nat → Nat → Prop) :=
  ⟨fun _ _ _ h h' => h.trans h'.symm, fun _ _ _ h h' => h.symm.trans h'⟩

/-- **Everything with legible atoms stands for itself.** -/
def Correspondence.legible : Correspondence where
  objects := Eq
  frames := Set.univ
  atoms := {value | value.Legible}
  unique := biUnique_eq
  made := Atom.Made.legible

variable {s s₁ : Store} {v : Value}

theorem Value.Legible.corresponds (h : v.Legible) : v.Corresponds .legible v :=
  corresponds_of_parts h (fun _ _ => rfl) fun _ _ => trivial

theorem Store.Legible.corresponds (h : s.Legible) : s.Corresponds .legible s := by
  refine ⟨⟨Eq.symm, id⟩, rfl, fun f _ => ?_, rfl⟩
  rw [Bindings.Corresponds, List.forall₂_same]
  exact fun entry hentry => ⟨rfl, (h f entry hentry).corresponds⟩

/-- **What corresponds to anything** has legible atoms only. -/
theorem Value.Corresponds.legible {c : Correspondence} {w : Value} (hc : Correspondence.legible ≤ c)
    (h : v.Corresponds c w) : v.Legible := by
  intro value hvalue
  have hatom := h.mem_atoms hvalue
  rwa [← Correspondence.atoms_eq hc] at hatom

theorem Store.Corresponds.legible {c : Correspondence} {s₂ : Store}
    (hc : Correspondence.legible ≤ c) (h : s₁.Corresponds c s₂) : s₁.Legible := by
  intro f entry hentry
  obtain ⟨w, hw⟩ := h.exists_of_mem_bindings (Correspondence.frames_mono hc trivial) hentry
  exact hw.legible hc

/-- **A run that is like itself leaves legible bindings** where it found such, and so is its
result. -/
theorem legible_of_simulates {effect : Effect Value}
    (h : effect.Simulates .legible Value.Corresponds effect) (hs : s.Legible)
    (hended : Ended (effect s)) :
    (Conclusion.store (effect s)).Legible ∧ ∀ v s₁, effect s = .ok v s₁ → v.Legible := by
  have houtcome := h s s hs.corresponds
  generalize effect s = e at hended houtcome
  cases houtcome with
  | ok hgrows hstores hv =>
    refine ⟨hstores.legible hgrows.le, ?_⟩
    rintro v s₁ ⟨⟩
    exact hv.legible hgrows.le
  | failed hgrows hstores => exact ⟨hstores.legible hgrows.le, nofun⟩
  | tooDeep => exact hended.elim

/-! ## 3. What a context does -/

theorem Store.Legible.bind (hs : s.Legible) (hv : v.Legible) (f : Nat) (name : String) :
    (s.bind f name v).Legible := by
  intro g entry hentry
  rw [Store.bindings_bind] at hentry
  split at hentry
  · rcases Bindings.mem_insert hentry with rfl | hentry
    · exact hv
    · exact hs g entry hentry
  · exact hs g entry hentry

/-- **Data that were read become legible objects**, and nothing else is bound. -/
theorem Store.Legible.load (hs : s.Legible) {file : Nat} {text : List Char} {datum : Datum}
    (hdatum : datum ∈ (Contents.ofChars file text).data) :
    (s.load datum).2.Legible ∧ (s.load datum).1.Legible := by
  have hload : Effect.Simulates .legible Value.Corresponds (modifyGet (·.load datum))
      (modifyGet (·.load datum)) :=
    Effect.simulates_load datum fun value hvalue => legible_of_contents hdatum hvalue
  have hkept := legible_of_simulates hload hs trivial
  exact ⟨hkept.1, hkept.2 _ _ rfl⟩

theorem Store.Legible.newFrame (hs : s.Legible) : s.newFrame.2.Legible := by
  intro f entry hentry
  rw [Store.bindings_newFrame] at hentry
  exact hs f entry hentry

namespace Context

variable (c : Context)

/-- **What a form comes to** is legible, and what is bound stays so. -/
theorem legible_conclude (hs : s.Legible) {file : Nat} {text : List Char} {datum : Datum}
    (hdatum : datum ∈ (Contents.ofChars file text).data) (hended : Ended (c.conclude s datum)) :
    (Conclusion.store (c.conclude s datum)).Legible ∧
      ∀ v s₁, c.conclude s datum = .ok v s₁ → v.Legible := by
  obtain ⟨hloaded, hform⟩ := hs.load hdatum
  have hsame := (simulates_belowAt c.language (le_refl depthLimit)).evaluate hform.corresponds
    (show c.globals.Within Set.univ from c.globals.within_univ)
  exact legible_of_simulates hsame hloaded hended

/-- **The forms of a text**, one after the other. -/
theorem legible_trace (hs : s.Legible) {file : Nat} {text : List Char} {data : List Datum}
    (hdata : data ⊆ (Contents.ofChars file text).data)
    (hended : ∀ e ∈ c.trace s data, Ended e) :
    (Conclusion.storeAfter s (c.trace s data)).Legible ∧
      ∀ v s₁, .ok v s₁ ∈ c.trace s data → v.Legible := by
  induction data generalizing s with
  | nil => exact ⟨hs, nofun⟩
  | cons datum rest ih =>
    obtain ⟨hkept, hvalue⟩ := c.legible_conclude hs (hdata List.mem_cons_self)
      (hended _ List.mem_cons_self)
    obtain ⟨hkepts, hvalues⟩ := ih hkept (fun d hd => hdata (List.mem_cons_of_mem _ hd))
      fun e he => hended e (List.mem_cons_of_mem _ he)
    refine ⟨by rwa [trace, Conclusion.storeAfter_cons], fun v s₁ hv => ?_⟩
    rcases List.mem_cons.mp hv with hv | hv
    · exact hvalue v s₁ hv.symm
    · exact hvalues v s₁ hv

theorem simulates_evaluateData {c' : Correspondence} (hc : Correspondence.legible ≤ c')
    {value value' : Value} (hvalue : value.Corresponds c' value') {data : List Datum}
    (hdata : ∀ datum ∈ data, ∀ a, datum.HasAtom a → a.Legible) :
    Effect.Simulates c' Value.Corresponds (c.evaluateData value data)
      (c.evaluateData value' data) := by
  induction data generalizing c' value value' with
  | nil => exact Effect.simulates_pure hvalue
  | cons datum rest ih =>
    have hatoms : ∀ a, datum.HasAtom a → a ∈ c'.atoms := by
      intro a ha
      rw [← Correspondence.atoms_eq hc]
      exact hdata datum List.mem_cons_self a ha
    refine (Effect.simulates_load datum hatoms).bind fun c₁ hc₁ form form' hform => ?_
    have hscope : c.globals.Within c₁.frames := fun f _ =>
      Correspondence.frames_mono (hc.trans hc₁) trivial
    refine ((simulates_belowAt c.language (le_refl depthLimit)).evaluate hform hscope).bind
      fun c₂ hc₂ next next' hnext => ?_
    exact ih ((hc.trans hc₁).trans hc₂) hnext fun d hd => hdata d (List.mem_cons_of_mem _ hd)

/-- **A text that is evaluated as a batch** gives a legible value and leaves legible bindings. -/
theorem legible_evaluateText (hs : s.Legible) {text : String}
    (hended : Ended (c.evaluateText text s)) :
    (Conclusion.store (c.evaluateText text s)).Legible ∧
      ∀ v s₁, c.evaluateText text s = .ok v s₁ → v.Legible := by
  cases herror : (Contents.ofChars 0 text.toList).error with
  | some e =>
    rw [c.evaluateText_of_error herror]
    exact ⟨hs, nofun⟩
  | none =>
    rw [c.evaluateText_of_no_error herror] at hended ⊢
    exact legible_of_simulates (c.simulates_evaluateData (le_refl _) .nil fun datum hdatum _ =>
      legible_of_contents hdatum) hs hended

theorem legible_bindMarkers (make : Nat → String → Value) (root : Nat) (names : List String)
    (hmake : ∀ i name, (make i name).Legible) (hs : s.Legible) :
    (bindMarkers make root s names).Legible := by
  induction names generalizing s with
  | nil => exact hs
  | cons name names ih =>
    have hallocated : (s.allocate (make · name) none).2.Legible := hs
    exact ih (hallocated.bind (hmake _ _) root name)

theorem legible_formMarker (i : Nat) (name : String) : (Value.formMarker i name).Legible :=
  fun _ h => h.elim

theorem legible_hostMarker (i : Nat) (name : String) : (Value.hostMarker i name).Legible :=
  fun _ h => h.elim

theorem legible_standard : (standard .empty).2.Legible := by
  have hempty : Store.empty.Legible := by
    intro f entry hentry
    simp [Store.bindings, Store.empty] at hentry
  exact legible_bindMarkers _ _ _ legible_hostMarker
    (legible_bindMarkers _ _ _ legible_formMarker hempty.newFrame)

/-! ## 4. States that are reached -/

end Context

/-- **The run ended in this store**, with a value or with a failure. -/
inductive EndsIn {α : Type} (s₁ : Store) : EStateM.Result Stop Store α → Prop where
  | ok (value : α) : EndsIn s₁ (.ok value s₁)
  | failed (failure : Failure) : EndsIn s₁ (.error (.failed failure) s₁)

namespace Context

/-- **A new context and its store, after any uses of it**: texts evaluated as a batch, with or
without their value, or as an interactive line, data that were read bound globally, and host
functions registered, whatever they answer.  Each form has to end, with a value or a failure. -/
inductive Reached : Context → Store → Prop where
  | start : Reached (standard .empty).1 (standard .empty).2
  | evaluateText {c s text s₁} (h : Reached c s) (hended : EndsIn s₁ (c.evaluateText text s)) :
    Reached c s₁
  | loadText {c s text s₁} (h : Reached c s) (hended : EndsIn s₁ (c.loadText text s)) :
    Reached c s₁
  | replLine {c s line} (h : Reached c s)
    (hended : ∀ e ∈ c.trace s (Contents.ofChars 0 line.toList).data, Ended e) :
    Reached c (c.replLine line s).2
  | bind {c s file text data datum} (h : Reached c s) (hread : readAll file text = .ok data)
    (hdatum : datum ∈ data) (name : String) :
    Reached c ((s.load datum).2.bind c.root name (s.load datum).1)
  | defineHost {c s} (h : Reached c s) (name : String) (f : HostFunction) :
    Reached (c.defineHost name f s).1 (c.defineHost name f s).2

theorem endsIn_iff {e : Conclusion} {s₁ : Store} : EndsIn s₁ e ↔ Ended e ∧ e.store = s₁ := by
  constructor
  · rintro (_ | _) <;> exact ⟨trivial, rfl⟩
  · rcases e with ⟨v, s⟩ | ⟨failure | _, s⟩
    · rintro ⟨-, rfl⟩
      exact .ok v
    · rintro ⟨-, rfl⟩
      exact .failed failure
    · exact fun h => h.1.elim

theorem endsIn_of_withoutValue {e : Conclusion} {s₁ : Store} (h : EndsIn s₁ (withoutValue e)) :
    EndsIn s₁ e := by
  rcases e with ⟨v, s⟩ | ⟨stop, s⟩
  · cases h
    exact .ok v
  · cases h with
    | failed failure => exact .failed failure

theorem Reached.store_legible {c : Context} (h : Reached c s) : s.Legible := by
  induction h with
  | start => exact legible_standard
  | evaluateText h hrun ih =>
    obtain ⟨hended, rfl⟩ := endsIn_iff.mp hrun
    exact (legible_evaluateText _ ih hended).1
  | loadText h hrun ih =>
    rw [loadText_eq] at hrun
    obtain ⟨hended, rfl⟩ := endsIn_iff.mp (endsIn_of_withoutValue hrun)
    exact (legible_evaluateText _ ih hended).1
  | replLine h hended ih =>
    rw [replLine_eq]
    exact (legible_trace _ ih (fun _ h => h) hended).1
  | bind h hread hdatum name ih =>
    rw [← (readAll_eq_ok_iff.mp hread).2] at hdatum
    obtain ⟨hloaded, hvalue⟩ := ih.load hdatum
    exact hloaded.bind hvalue _ name
  | defineHost h name f ih => exact legible_bindMarkers _ _ _ legible_hostMarker ih

/-- **No evaluation makes an unreadable name.**  In every state that a new context reaches, each
symbol in what any frame binds, in a value that a text or a form of a line comes to, or in the code
of a procedure or macro among these, is read from its name as exactly that symbol; and no raw string
there holds a backtick. -/
theorem Reached.all_legible {c : Context} {s : Store} (h : Reached c s) :
    (∀ f, ∀ entry ∈ s.bindings f, entry.2.Legible) ∧
      (∀ text v s₁, c.evaluateText text s = .ok v s₁ → v.Legible) ∧
      ∀ line : String, (∀ e ∈ c.trace s (Contents.ofChars 0 line.toList).data, Ended e) →
        ∀ v s₁, .ok v s₁ ∈ c.trace s (Contents.ofChars 0 line.toList).data → v.Legible := by
  have hs := h.store_legible
  refine ⟨hs, fun text v s₁ hrun => ?_,
    fun line hended => (c.legible_trace hs (fun _ h => h) hended).2⟩
  have hended : Ended (c.evaluateText text s) := hrun ▸ trivial
  exact (c.legible_evaluateText hs hended).2 v s₁ hrun

/-- After the definition of a procedure its code and all bindings are legible. -/
theorem Reached.legible_define :
    ∃ c s v s₁, c.evaluateText "(define (f x) '(y `z`)) f" s = .ok v s₁ ∧ Reached c s₁ ∧
      v.Legible ∧ ∀ f, ∀ entry ∈ s₁.bindings f, entry.2.Legible := by
  have hrun : Conclusion.succeeded ((standard .empty).1.evaluateText "(define (f x) '(y `z`)) f"
      (standard .empty).2) = true := by decide +kernel
  have hstart := Reached.start
  generalize (standard .empty).1 = c at hrun hstart
  generalize (standard .empty).2 = s at hrun hstart
  obtain ⟨v, s₁, hdefined⟩ := Conclusion.exists_of_succeeded hrun
  have hended : EndsIn s₁ (c.evaluateText "(define (f x) '(y `z`)) f" s) := by
    rw [hdefined]
    exact .ok v
  have hreached : Reached c s₁ := hstart.evaluateText hended
  exact ⟨c, s, v, s₁, hdefined, hreached, hstart.all_legible.2.1 _ v s₁ hdefined,
    hreached.all_legible.1⟩

end Context

end Lisp
