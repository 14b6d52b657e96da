/-
# Corresponding values

Objects and frames are known by their numbers, and the numbers depend on what else was made before.
Two runs of one program that start from different stores therefore do not give equal values, but
values that correspond (`Value.Corresponds`): the same tree with the same contents, in which the
objects of the one run stand for objects of the other, one for one.

A correspondence also says which frames and which atoms there are in such values.  So even a run
compared with itself says something: that frames which are not in the correspondence at the start
are not in it at the end.

All that the language asks of a value without evaluating it has the same answer for values that
correspond: its kind, its elements, its text, whether it equals another (`Corresponds.equal_eq`),
and whether and with which words it is refused.  Only `equal` looks at the numbers of objects, and
it needs that the correspondence is one to one.
-/
import Lisp.Evaluator
import Lisp.Proofs.Trees
import Mathlib.Data.List.Forall2
import Mathlib.Data.Set.Insert

namespace Lisp

/-! ## 1. Correspondences -/

/-- **The atom occurs in the datum.** -/
def Datum.HasAtom (value : Atom) : Datum → Prop
  | .nil => False
  | .atom other _ => other = value
  | .pair head tail _ => head.HasAtom value ∨ tail.HasAtom value

/-- **The atoms that evaluation makes**, besides those in the forms that it is given. -/
inductive Atom.Made : Atom → Prop where
  | boolean (b : Bool) : Made (.boolean b)
  | integer (n : Int64) : Made (.integer n)
  | float (x : Float) : Made (.float x)
  | string (text : String) : Made (.string text false)
  | quote : Made (.symbol "quote")
  | lambda : Made (.symbol "lambda")
  /-- The text of a datum that a host function answers with is read. -/
  | read {file : Nat} {text : String} {data : List Datum} {datum : Datum} {value : Atom}
    (hread : readAll file text = .ok data) (hdatum : datum ∈ data) (h : datum.HasAtom value) :
    Made value

/-- **Which objects of one run stand for which of another**, one for one, and which frames and
atoms there are in what corresponds.  Frames have the same numbers in both. -/
structure Correspondence where
  objects : Nat → Nat → Prop
  frames : Set Nat
  atoms : Set Atom
  unique : Relator.BiUnique objects
  made : ∀ {value : Atom}, value.Made → value ∈ atoms

namespace Correspondence

/-- A correspondence grows by more objects and more frames. -/
instance : Preorder Correspondence where
  le c c' := c.objects ≤ c'.objects ∧ c.frames ⊆ c'.frames ∧ c.atoms = c'.atoms
  le_refl c := ⟨le_refl _, subset_rfl, rfl⟩
  le_trans _ _ _ h h' := ⟨h.1.trans h'.1, h.2.1.trans h'.2.1, h.2.2.trans h'.2.2⟩

variable {c c' : Correspondence}

theorem objects_mono (h : c ≤ c') {i j : Nat} (hij : c.objects i j) : c'.objects i j :=
  h.1 i j hij

theorem frames_mono (h : c ≤ c') : c.frames ⊆ c'.frames :=
  h.2.1

theorem atoms_eq (h : c ≤ c') : c.atoms = c'.atoms :=
  h.2.2

theorem eq_iff_eq (c : Correspondence) {i i' j j' : Nat} (hi : c.objects i i')
    (hj : c.objects j j') : i = j ↔ i' = j' := by
  constructor
  · rintro rfl
    exact c.unique.2 hi hj
  · rintro rfl
    exact c.unique.1 hi hj

end Correspondence

/-- **All frames of the scope are among these.** -/
def Scope.Within (frames : Set Nat) (scope : Scope) : Prop :=
  ∀ f ∈ scope.frames, f ∈ frames

/-- **Two values are the same, but for the numbers of their objects.** -/
inductive Value.Corresponds (c : Correspondence) : Value → Value → Prop where
  | nil : Corresponds c .nil .nil
  | atom {i j value} (h : c.objects i j) (hatom : value ∈ c.atoms) :
    Corresponds c (.atom i value) (.atom j value)
  | pair {i j head head' tail tail'} (h : c.objects i j) (hhead : Corresponds c head head')
    (htail : Corresponds c tail tail') : Corresponds c (.pair i head tail) (.pair j head' tail')
  | procedure {i j parameters parameters' body body' scope} (h : c.objects i j)
    (hparameters : Corresponds c parameters parameters') (hbody : Corresponds c body body')
    (hscope : scope.Within c.frames) :
    Corresponds c (.procedure i parameters body scope) (.procedure j parameters' body' scope)
  | transformer {i j rules rules' scope} (h : c.objects i j) (hrules : Corresponds c rules rules')
    (hscope : scope.Within c.frames) :
    Corresponds c (.transformer i rules scope) (.transformer j rules' scope)
  | formMarker {i j name} (h : c.objects i j) :
    Corresponds c (.formMarker i name) (.formMarker j name)
  | hostMarker {i j name} (h : c.objects i j) :
    Corresponds c (.hostMarker i name) (.hostMarker j name)

variable {c c' : Correspondence}

theorem Scope.Within.mono {scope : Scope} (h : scope.Within c.frames) (hc : c ≤ c') :
    scope.Within c'.frames :=
  fun f hf => Correspondence.frames_mono hc (h f hf)

theorem Scope.Within.frame {frames : Set Nat} {scope : Scope} (h : scope.Within frames) :
    scope.frame ∈ frames := by
  refine h _ ?_
  obtain ⟨locals, root⟩ := scope
  cases locals <;> simp [Scope.frame, Scope.frames]

theorem Scope.Within.root {frames : Set Nat} {scope : Scope} (h : scope.Within frames) :
    scope.root ∈ frames :=
  h _ (by simp [Scope.frames])

namespace Value

namespace Corresponds

variable {v v' w w' : Value}

/-- **What corresponds still does when the correspondence grows.** -/
theorem mono (h : Corresponds c v w) (hc : c ≤ c') : Corresponds c' v w := by
  induction h with
  | nil => exact .nil
  | atom h hatom =>
    exact .atom (Correspondence.objects_mono hc h) (Correspondence.atoms_eq hc ▸ hatom)
  | pair h _ _ ihHead ihTail => exact .pair (Correspondence.objects_mono hc h) ihHead ihTail
  | procedure h _ _ hscope ihParameters ihBody =>
    exact .procedure (Correspondence.objects_mono hc h) ihParameters ihBody (hscope.mono hc)
  | transformer h _ hscope ih =>
    exact .transformer (Correspondence.objects_mono hc h) ih (hscope.mono hc)
  | formMarker h => exact .formMarker (Correspondence.objects_mono hc h)
  | hostMarker h => exact .hostMarker (Correspondence.objects_mono hc h)

theorem mono_all {vs ws : List Value} (h : List.Forall₂ (Corresponds c) vs ws) (hc : c ≤ c') :
    List.Forall₂ (Corresponds c') vs ws :=
  h.imp fun _ _ h => h.mono hc

/-! ## 2. Kinds and elements -/

theorem isNil_eq (h : Corresponds c v w) : v.isNil = w.isNil := by
  cases h <;> rfl

theorem isPair_eq (h : Corresponds c v w) : v.isPair = w.isPair := by
  cases h <;> rfl

theorem isFalse_eq (h : Corresponds c v w) : v.isFalse = w.isFalse := by
  cases h <;> rfl

theorem symbol?_eq (h : Corresponds c v w) : v.symbol? = w.symbol? := by
  cases h with
  | @atom _ _ value => cases value <;> rfl
  | _ => rfl

theorem isSymbol_eq (h : Corresponds c v w) : v.isSymbol = w.isSymbol := by
  rw [isSymbol, h.symbol?_eq, isSymbol]

theorem isSymbolNamed_eq (h : Corresponds c v w) (name : String) :
    v.isSymbolNamed name = w.isSymbolNamed name := by
  rw [isSymbolNamed, h.symbol?_eq, isSymbolNamed]

theorem symbols_eq (h : Corresponds c v w) (found : List String) :
    Template.symbols found v = Template.symbols found w := by
  induction h generalizing found with
  | pair _ _ _ ihHead ihTail => rw [Template.symbols, Template.symbols, ihHead, ihTail]
  | @atom _ _ value => cases value <;> rfl
  | _ => rfl

/-- **The elements of lists that correspond** do so one by one. -/
theorem elements (h : Corresponds c v w) :
    List.Forall₂ (Corresponds c) v.elements w.elements := by
  induction h with
  | pair _ hhead _ _ ih => exact .cons hhead ih
  | _ => exact .nil

theorem ending (h : Corresponds c v w) : Corresponds c v.ending w.ending := by
  induction h with
  | nil => exact .nil
  | atom h hatom => exact .atom h hatom
  | pair _ _ _ _ ih => exact ih
  | procedure h hparameters hbody hscope => exact .procedure h hparameters hbody hscope
  | transformer h hrules hscope => exact .transformer h hrules hscope
  | formMarker h => exact .formMarker h
  | hostMarker h => exact .hostMarker h

theorem isList_eq (h : Corresponds c v w) : v.isList = w.isList :=
  h.ending.isNil_eq

theorem length?_eq (h : Corresponds c v w) : v.length? = w.length? := by
  rw [length?, length?, h.ending.isNil_eq, h.elements.length_eq]

theorem drop (h : Corresponds c v w) (count : Nat) :
    Corresponds c (v.drop count) (w.drop count) := by
  induction count generalizing v w with
  | zero => rwa [drop_zero, drop_zero]
  | succ count ih =>
    cases h with
    | pair _ _ htail => exact ih htail
    | nil => exact .nil
    | atom h hatom => exact .atom h hatom
    | procedure h hparameters hbody hscope => exact .procedure h hparameters hbody hscope
    | transformer h hrules hscope => exact .transformer h hrules hscope
    | formMarker h => exact .formMarker h
    | hostMarker h => exact .hostMarker h

theorem afterEllipsis? (h : Corresponds c v w) :
    Option.Rel (Corresponds c) v.afterEllipsis? w.afterEllipsis? := by
  cases h with
  | pair _ hnext hafter =>
    rw [Value.afterEllipsis?, Value.afterEllipsis?, hnext.isSymbolNamed_eq]
    split
    · exact .some hafter
    · exact .none
  | _ => exact .none

theorem indivisible_iff (h : Corresponds c v w) : v.Indivisible ↔ w.Indivisible := by
  rw [Indivisible, Indivisible, h.isNil_eq, h.isPair_eq]

/-! ## 3. Text and equality -/

/-- A pair by itself prints alike, if its elements and the rest of it do.  For `(quote x)` that is
not enough: there `x` has to print alike by itself. -/
theorem charsOnto_pair_eq {i j : Nat} {head head' tail tail' : Value} (h : Corresponds c tail tail')
    (hquote : head.isSymbolNamed "quote" = head'.isSymbolNamed "quote")
    (hhead : head.charsOnto false = head'.charsOnto false)
    (htail : tail.charsOnto true = tail'.charsOnto true)
    (hsecond : ∀ {k l second second' after after'}, tail = .pair k second after →
      tail' = .pair l second' after' → second.charsOnto false = second'.charsOnto false) :
    (Value.pair i head tail).charsOnto false = (Value.pair j head' tail').charsOnto false := by
  funext rest
  rw [charsOnto.eq_def, charsOnto.eq_def false (Value.pair j head' tail')]
  simp only [Bool.false_eq_true, if_false, hquote]
  cases head'.isSymbolNamed "quote" with
  | false => simp only [hhead, htail]
  | true =>
    cases h with
    | pair _ _ hafter =>
      cases hafter with
      | nil => simp only [hsecond rfl rfl]
      | _ => simp only [hhead, htail]
    | _ => simp only [hhead, htail]

/-- **Values that correspond print alike**, and so do their heads. -/
theorem charsOnto_eq (h : Corresponds c v w) :
    (∀ inList, v.charsOnto inList = w.charsOnto inList) ∧
      ∀ {i j head head' tail tail'}, v = .pair i head tail → w = .pair j head' tail' →
        head.charsOnto false = head'.charsOnto false := by
  induction h with
  | pair _ hhead htail ihHead ihTail =>
    refine ⟨fun inList => ?_, ?_⟩
    · cases inList with
      | false =>
        exact charsOnto_pair_eq htail (hhead.isSymbolNamed_eq "quote") (ihHead.1 false)
          (ihTail.1 true) ihTail.2
      | true =>
        funext rest
        rw [charsOnto.eq_def, charsOnto.eq_def true]
        simp only [if_true, ihHead.1, ihTail.1]
    · rintro _ _ _ _ _ _ ⟨⟩ ⟨⟩
      exact ihHead.1 false
  | procedure _ _ _ _ ihParameters =>
    refine ⟨fun inList => ?_, nofun⟩
    funext rest
    simp only [charsOnto, ihParameters.1]
  | _ => exact ⟨fun _ => rfl, nofun⟩

theorem text_eq (h : Corresponds c v w) : v.text = w.text := by
  rw [text, chars, h.charsOnto_eq.1, text, chars]

theorem ofValue_eq (h : Corresponds c v w) : HostValue.ofValue v = HostValue.ofValue w := by
  have htext := h.text_eq
  cases h with
  | @atom _ _ value => cases value <;> simp [HostValue.ofValue, htext]
  | nil => rfl
  | _ => simp [HostValue.ofValue, htext]

theorem id? (h : Corresponds c v w) : Option.Rel c.objects v.id? w.id? := by
  cases h with
  | nil => exact .none
  | atom h | pair h | procedure h | transformer h | formMarker h | hostMarker h => exact .some h

/-- **Two values are one object** if and only if those that they stand for are. -/
theorem same_eq (hv : Corresponds c v v') (hw : Corresponds c w w') : v.same w = v'.same w' := by
  have hvid := hv.id?
  have hwid := hw.id?
  unfold same
  generalize v.id? = vi at hvid ⊢
  generalize v'.id? = vi' at hvid ⊢
  generalize w.id? = wi at hwid ⊢
  generalize w'.id? = wi' at hwid ⊢
  cases hvid with
  | none => cases hwid <;> rfl
  | some hi =>
    cases hwid with
    | none => rfl
    | some hj => simpa using c.eq_iff_eq hi hj

theorem equalContents_eq (hv : Corresponds c v v') (hw : Corresponds c w w') :
    v.equalContents w = v'.equalContents w' := by
  induction hv generalizing w w' with
  | pair h hhead htail ihHead ihTail =>
    cases hw with
    | pair h' hhead' htail' =>
      simp only [equalContents, hhead.same_eq hhead', ihHead hhead', ihTail htail']
    | _ => rfl
  | procedure h =>
    cases hw with
    | procedure h' => simpa [equalContents] using c.eq_iff_eq h h'
    | _ => rfl
  | transformer h =>
    cases hw with
    | transformer h' => simpa [equalContents] using c.eq_iff_eq h h'
    | _ => rfl
  | _ => cases hw <;> rfl

/-- **Values are equal** if and only if those that they stand for are. -/
theorem equal_eq (hv : Corresponds c v v') (hw : Corresponds c w w') :
    v.equal w = v'.equal w' := by
  rw [equal, hv.same_eq hw, hv.equalContents_eq hw, equal]

end Corresponds

end Value

/-! ## 4. Results that can be refusals -/

/-- **Two results correspond**, or two refusals do. -/
inductive ResultsCorrespond {ε α β : Type} (E : ε → ε → Prop) (R : α → β → Prop) :
    Except ε α → Except ε β → Prop where
  | ok {a b} (h : R a b) : ResultsCorrespond E R (.ok a) (.ok b)
  | error {e e'} (h : E e e') : ResultsCorrespond E R (.error e) (.error e')

theorem ResultsCorrespond.bind {ε α β γ δ : Type} {E : ε → ε → Prop} {R : α → β → Prop}
    {Q : γ → δ → Prop} {x : Except ε α} {y : Except ε β} {f : α → Except ε γ} {g : β → Except ε δ}
    (h : ResultsCorrespond E R x y) (hnext : ∀ a b, R a b → ResultsCorrespond E Q (f a) (g b)) :
    ResultsCorrespond E Q (x >>= f) (y >>= g) := by
  cases h with
  | ok h => exact hnext _ _ h
  | error h => exact .error h

theorem ResultsCorrespond.map {ε α β γ δ : Type} {E : ε → ε → Prop} {R : α → β → Prop}
    {Q : γ → δ → Prop} {x : Except ε α} {y : Except ε β} {f : α → γ} {g : β → δ}
    (h : ResultsCorrespond E R x y) (hmap : ∀ a b, R a b → Q (f a) (g b)) :
    ResultsCorrespond E Q (x.map f) (y.map g) := by
  cases h with
  | ok h => exact .ok (hmap _ _ h)
  | error h => exact .error h

/-- Two results are values that correspond, or refusals. -/
theorem ResultsCorrespond.cases {ε α β : Type} {E : ε → ε → Prop} {R : α → β → Prop}
    {x : Except ε α} {y : Except ε β} (h : ResultsCorrespond E R x y) :
    (∃ a b, x = .ok a ∧ y = .ok b ∧ R a b) ∨ ∃ e e', x = .error e ∧ y = .error e' ∧ E e e' := by
  cases h with
  | ok h => exact .inl ⟨_, _, rfl, rfl, h⟩
  | error h => exact .inr ⟨_, _, rfl, rfl, h⟩

/-- **Two results that can be missing** are both missing, or correspond. -/
theorem rel_cases {α β : Type} {R : α → β → Prop} {x : Option α} {y : Option β}
    (h : Option.Rel R x y) :
    x = none ∧ y = none ∨ ∃ a b, x = some a ∧ y = some b ∧ R a b := by
  cases h with
  | none => exact .inl ⟨rfl, rfl⟩
  | some h => exact .inr ⟨_, _, rfl, rfl, h⟩

theorem rel_bind {α β γ δ : Type} {R : α → β → Prop} {Q : γ → δ → Prop} {x : Option α}
    {y : Option β} {f : α → Option γ} {g : β → Option δ} (h : Option.Rel R x y)
    (hnext : ∀ a b, R a b → Option.Rel Q (f a) (g b)) : Option.Rel Q (x >>= f) (y >>= g) := by
  cases h with
  | none => exact .none
  | some h => exact hnext _ _ h

theorem rel_mapM {α β γ δ : Type} {R : α → β → Prop} {Q : γ → δ → Prop} {f : α → Option γ}
    {g : β → Option δ} (h : ∀ a b, R a b → Option.Rel Q (f a) (g b)) {as : List α} {bs : List β}
    (has : List.Forall₂ R as bs) : Option.Rel (List.Forall₂ Q) (as.mapM f) (bs.mapM g) := by
  induction has with
  | nil =>
    rw [List.mapM_nil, List.mapM_nil]
    exact .some .nil
  | cons hab _ ih =>
    rw [List.mapM_cons, List.mapM_cons]
    exact rel_bind (h _ _ hab) fun _ _ hhead => rel_bind ih fun _ _ htail =>
      .some (.cons hhead htail)

/-- **Two faults are of one kind and in the same words.** -/
def Fault.Alike (f g : Fault) : Prop :=
  f.kind = g.kind ∧ f.message = g.message

theorem Fault.Alike.refl (f : Fault) : f.Alike f :=
  ⟨rfl, rfl⟩

/-- **Two faults of a macro are in the same words.** -/
def RuleFault.Alike (f g : RuleFault) : Prop :=
  f.message = g.message

/-- **Two pairs of values correspond**, or what is named with them. -/
def PairsCorrespond {α β γ δ : Type} (R : α → γ → Prop) (Q : β → δ → Prop) (p : α × β)
    (q : γ × δ) : Prop :=
  R p.1 q.1 ∧ Q p.2 q.2

namespace Value.Corresponds

variable {v w : Value}

theorem head (h : Value.Corresponds c v w) :
    ResultsCorrespond Fault.Alike (Value.Corresponds c) v.head w.head := by
  have htext := h.text_eq
  cases h with
  | pair _ hhead => exact .ok hhead
  | _ => exact .error ⟨rfl, congrArg (_ ++ ·) htext⟩

theorem tail (h : Value.Corresponds c v w) :
    ResultsCorrespond Fault.Alike (Value.Corresponds c) v.tail w.tail := by
  have htext := h.text_eq
  cases h with
  | pair _ _ htail => exact .ok htail
  | _ => exact .error ⟨rfl, congrArg (_ ++ ·) htext⟩

/-- The name of a host function is given in the same way, or refused. -/
theorem hostName (h : Value.Corresponds c v w) :
    ResultsCorrespond Fault.Alike (· = ·) (Lisp.hostName v) (Lisp.hostName w) := by
  have htext := h.text_eq
  have refused : (Fault.noHostName v).Alike (.noHostName w) :=
    ⟨rfl, congrArg (_ ++ ·) htext⟩
  cases h with
  | @atom _ _ value =>
    cases value with
    | string | symbol => exact .ok rfl
    | _ => exact .error refused
  | hostMarker => exact .ok rfl
  | _ => exact .error refused

/-! ### Arguments -/

theorem required (h : Value.Corresponds c v w) (name : String) :
    ResultsCorrespond Fault.Alike (PairsCorrespond (Value.Corresponds c) (Value.Corresponds c))
      (Arguments.required name v) (Arguments.required name w) := by
  cases h with
  | pair _ hhead htail => exact .ok ⟨hhead, htail⟩
  | _ => exact .error (.refl _)

theorem optional (h : Value.Corresponds c v w) :
    PairsCorrespond (Value.Corresponds c) (Value.Corresponds c) (Arguments.optional v)
      (Arguments.optional w) := by
  cases h with
  | pair _ hhead htail => exact ⟨hhead, htail⟩
  | _ => exact ⟨.nil, .nil⟩

theorem finished (h : Value.Corresponds c v w) :
    ResultsCorrespond Fault.Alike (fun _ _ => True) (Arguments.finished v)
      (Arguments.finished w) := by
  rw [Arguments.finished, Arguments.finished, h.isNil_eq]
  split
  · exact .ok trivial
  · exact .error ⟨rfl, congrArg (_ ++ ·) h.text_eq⟩

theorem single (h : Value.Corresponds c v w) (name : String) :
    ResultsCorrespond Fault.Alike (Value.Corresponds c) (Arguments.single name v)
      (Arguments.single name w) :=
  (h.required name).bind fun _ _ hpair => hpair.2.finished.bind fun _ _ _ => .ok hpair.1

theorem double (h : Value.Corresponds c v w) (first second : String) :
    ResultsCorrespond Fault.Alike (PairsCorrespond (Value.Corresponds c) (Value.Corresponds c))
      (Arguments.double first second v) (Arguments.double first second w) :=
  (h.required first).bind fun _ _ hfirst => (hfirst.2.required second).bind fun _ _ hsecond =>
    hsecond.2.finished.bind fun _ _ _ => .ok ⟨hfirst.1, hsecond.1⟩

/-! ### Procedures -/

/-- **Parameter specifications that correspond** name the same parameters. -/
theorem ofSpec (h : Value.Corresponds c v w) :
    ResultsCorrespond Fault.Alike (· = ·) (Parameters.ofSpec v) (Parameters.ofSpec w) := by
  induction h with
  | nil => exact .ok rfl
  | @atom i j value h hatom =>
    cases value with
    | symbol => exact .ok rfl
    | _ => exact .error (.refl _)
  | @pair _ _ head head' _ _ _ hhead _ _ ihTail =>
    have refused : (Fault.parameterNoSymbol head).Alike (.parameterNoSymbol head') :=
      ⟨rfl, congrArg (_ ++ ·) hhead.text_eq⟩
    cases hhead with
    | @atom _ _ value =>
      cases value with
      | symbol =>
        refine ihTail.bind ?_
        rintro others _ rfl
        exact .ok rfl
      | _ => exact .error refused
    | _ => exact .error refused
  | procedure h hparameters hbody hscope =>
    have htext := (procedure h hparameters hbody hscope).text_eq
    exact .error ⟨rfl, congrArg (_ ++ ·) htext⟩
  | _ => exact .error (.refl _)

theorem checkProcedure (h : Value.Corresponds c v w) {body body' : Value}
    (hbody : Value.Corresponds c body body') :
    ResultsCorrespond Fault.Alike (· = ·) (Lisp.checkProcedure v body)
      (Lisp.checkProcedure w body') := by
  refine h.ofSpec.bind ?_
  rintro parameters _ rfl
  rw [hbody.isList_eq]
  split
  · exact .ok rfl
  · exact .error ⟨rfl, congrArg (_ ++ ·) hbody.text_eq⟩

end Value.Corresponds

/-- **What stands at the head of two forms corresponds.** -/
inductive Callable.Corresponds (c : Correspondence) : Callable → Callable → Prop where
  | special (form : SpecialForm) : Corresponds c (.special form) (.special form)
  | transformer {rules rules' scope} (hrules : rules.Corresponds c rules')
    (hscope : scope.Within c.frames) :
    Corresponds c (.transformer rules scope) (.transformer rules' scope)
  | procedure {parameters parameters' body body' scope}
    (hparameters : parameters.Corresponds c parameters') (hbody : body.Corresponds c body')
    (hscope : scope.Within c.frames) :
    Corresponds c (.procedure parameters body scope) (.procedure parameters' body' scope)
  | host (name : String) : Corresponds c (.host name) (.host name)

theorem Value.Corresponds.callable {v w : Value} (h : v.Corresponds c w) (l : Language) :
    ResultsCorrespond Fault.Alike (Callable.Corresponds c) (Callable.ofValue l v)
      (Callable.ofValue l w) := by
  have htext := h.text_eq
  have refused : (Fault.notApplicable v).Alike (.notApplicable w) :=
    ⟨rfl, congrArg (_ ++ ·) htext⟩
  cases h with
  | nil | atom | pair => exact .error refused
  | procedure _ hparameters hbody hscope => exact .ok (.procedure hparameters hbody hscope)
  | transformer _ hrules hscope => exact .ok (.transformer hrules hscope)
  | hostMarker => exact .ok (.host _)
  | @formMarker _ _ name =>
    simp only [Callable.ofValue]
    cases l.form? name with
    | some form => exact .ok (.special form)
    | none => exact .error (.refl _)

/-! ## 5. Objects and frames of a value -/

namespace Value

/-- **The object occurs in the value.** -/
def HasObject (i : Nat) : Value → Prop
  | .nil => False
  | .atom id _ | .formMarker id _ | .hostMarker id _ => id = i
  | .pair id head tail => id = i ∨ head.HasObject i ∨ tail.HasObject i
  | .procedure id parameters body _ => id = i ∨ parameters.HasObject i ∨ body.HasObject i
  | .transformer id rules _ => id = i ∨ rules.HasObject i

/-- **The frame is one of those that code in the value runs in.** -/
def HasFrame (f : Nat) : Value → Prop
  | .nil | .atom .. | .formMarker .. | .hostMarker .. => False
  | .pair _ head tail => head.HasFrame f ∨ tail.HasFrame f
  | .procedure _ parameters body scope =>
    parameters.HasFrame f ∨ body.HasFrame f ∨ f ∈ scope.frames
  | .transformer _ rules scope => rules.HasFrame f ∨ f ∈ scope.frames

/-- **The atom occurs in the value**, be it in the code of something that can be called. -/
def HasAtom (value : Atom) : Value → Prop
  | .nil | .formMarker .. | .hostMarker .. => False
  | .atom _ other => other = value
  | .pair _ head tail => head.HasAtom value ∨ tail.HasAtom value
  | .procedure _ parameters body _ => parameters.HasAtom value ∨ body.HasAtom value
  | .transformer _ rules _ => rules.HasAtom value

variable {v w : Value}

/-- **A value corresponds to itself** if its objects do, and its frames and atoms are there. -/
theorem corresponds_of_parts (hatoms : ∀ value, v.HasAtom value → value ∈ c.atoms)
    (hobjects : ∀ i, v.HasObject i → c.objects i i) (hframes : ∀ f, v.HasFrame f → f ∈ c.frames) :
    v.Corresponds c v := by
  induction v with
  | nil => exact .nil
  | atom => exact .atom (hobjects _ rfl) (hatoms _ rfl)
  | pair _ _ _ ihHead ihTail =>
    exact .pair (hobjects _ (.inl rfl))
      (ihHead (fun _ h => hatoms _ (.inl h)) (fun i hi => hobjects i (.inr (.inl hi)))
        fun f hf => hframes f (.inl hf))
      (ihTail (fun _ h => hatoms _ (.inr h)) (fun i hi => hobjects i (.inr (.inr hi)))
        fun f hf => hframes f (.inr hf))
  | procedure _ _ _ _ ihParameters ihBody =>
    exact .procedure (hobjects _ (.inl rfl))
      (ihParameters (fun _ h => hatoms _ (.inl h)) (fun i hi => hobjects i (.inr (.inl hi)))
        fun f hf => hframes f (.inl hf))
      (ihBody (fun _ h => hatoms _ (.inr h)) (fun i hi => hobjects i (.inr (.inr hi)))
        fun f hf => hframes f (.inr (.inl hf)))
      fun f hf => hframes f (.inr (.inr hf))
  | transformer _ _ _ ih =>
    exact .transformer (hobjects _ (.inl rfl))
      (ih hatoms (fun i hi => hobjects i (.inr hi)) fun f hf => hframes f (.inl hf))
      fun f hf => hframes f (.inr hf)
  | formMarker => exact .formMarker (hobjects _ rfl)
  | hostMarker => exact .hostMarker (hobjects _ rfl)

theorem corresponds_self (hatoms : c.atoms = Set.univ)
    (hobjects : ∀ i, v.HasObject i → c.objects i i) (hframes : ∀ f, v.HasFrame f → f ∈ c.frames) :
    v.Corresponds c v :=
  corresponds_of_parts (fun _ _ => hatoms ▸ trivial) hobjects hframes

theorem Corresponds.exists_object (h : v.Corresponds c w) {i : Nat} (hi : v.HasObject i) :
    ∃ j, c.objects i j := by
  induction h with
  | nil => cases hi
  | atom h | formMarker h | hostMarker h => exact ⟨_, hi ▸ h⟩
  | pair h _ _ ihHead ihTail =>
    rcases hi with rfl | hi | hi
    · exact ⟨_, h⟩
    · exact ihHead hi
    · exact ihTail hi
  | procedure h _ _ _ ihParameters ihBody =>
    rcases hi with rfl | hi | hi
    · exact ⟨_, h⟩
    · exact ihParameters hi
    · exact ihBody hi
  | transformer h _ _ ih =>
    rcases hi with rfl | hi
    · exact ⟨_, h⟩
    · exact ih hi

theorem Corresponds.mem_atoms (h : v.Corresponds c w) {value : Atom} (hvalue : v.HasAtom value) :
    value ∈ c.atoms := by
  induction h with
  | nil | formMarker | hostMarker => cases hvalue
  | atom _ hatom => exact hvalue ▸ hatom
  | pair _ _ _ ihHead ihTail => exact hvalue.elim ihHead ihTail
  | procedure _ _ _ _ ihParameters ihBody => exact hvalue.elim ihParameters ihBody
  | transformer _ _ _ ih => exact ih hvalue

theorem Corresponds.mem_frames (h : v.Corresponds c w) {f : Nat} (hf : v.HasFrame f) :
    f ∈ c.frames := by
  induction h with
  | nil | atom | formMarker | hostMarker => cases hf
  | pair _ _ _ ihHead ihTail => exact hf.elim ihHead ihTail
  | procedure _ _ _ hscope ihParameters ihBody =>
    rcases hf with hf | hf | hf
    · exact ihParameters hf
    · exact ihBody hf
    · exact hscope f hf
  | transformer _ _ hscope ih => exact hf.elim ih (hscope f)

end Value

end Lisp
