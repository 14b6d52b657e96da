/-
# Runs that take back their reports

An evaluation reports in the journal that it begins, and nothing when it ends.  So the journal alone
does not tell which evaluations are in progress.  Here a run is compared with one that does the same
but takes back what it reported as soon as it has succeeded: of that run the journal shows, after a
failure, exactly the evaluations that had begun and not ended (`inProgress`).

One relation between the two runs carries all that back-traces need (`Effect.Retraces`): they come
to the same, in stores that differ in the journal alone; numbers go on standing for one object each;
and a failure is noted inside of what the second journal shows to be in progress (`Stop.Noted`).  An
effect that begins no evaluation has nothing to take back and is related to itself.
-/
import Lisp.Proofs.Objects
import Mathlib.Data.List.Destutter

namespace Lisp

open Value (AllAmong)

variable {objects objects' objects₁ : List Value} {v : Value} {s s₁ : Store}

/-! ## 1. Evaluations in progress -/

/-- **The form whose evaluation the event reports to begin.** -/
def Event.form? : Event → Option Value
  | .evaluating expr => if expr.isPair then some expr else none
  | _ => none

/-- **The forms whose evaluation a journal reports**, the latest first. -/
def inProgress (journal : List Event) : List Value :=
  journal.filterMap Event.form?

/-- **A row with one entry for each run of one object.** -/
def collapse (row : List Value) : List Value :=
  row.destutter fun v w => v.same w = false

/-- **A row with an object at its end**, where it is noted once in a run. -/
def addLast (row : List Value) (v : Value) : List Value :=
  match row.getLast? with
  | some last => if last.same v then row else row ++ [v]
  | none => [v]

theorem inProgress_append (journal earlier : List Event) :
    inProgress (journal ++ earlier) = inProgress journal ++ inProgress earlier :=
  List.filterMap_append

theorem isPair_of_mem_inProgress {journal : List Event} (h : v ∈ inProgress journal) :
    v.isPair = true := by
  obtain ⟨event, -, hform⟩ := List.mem_filterMap.mp h
  cases event with
  | evaluating expr =>
    simp only [Event.form?, Option.ite_none_right_eq_some, Option.some.injEq] at hform
    exact hform.2 ▸ hform.1
  | _ => cases hform

theorem addLast_cons {row : List Value} (hrow : row ≠ []) (v w : Value) :
    addLast (v :: row) w = v :: addLast row w := by
  rw [addLast, addLast, List.getLast?_cons, List.getLast?_eq_some_getLast hrow, Option.getD_some]
  dsimp only
  split <;> rfl

theorem addLast_append (inner : List Value) {row : List Value} (hrow : row ≠ []) (v : Value) :
    addLast (inner ++ row) v = inner ++ addLast row v := by
  induction inner with
  | nil => rfl
  | cons first inner ih =>
    rw [List.cons_append, addLast_cons (List.append_ne_nil_of_right_ne_nil inner hrow), ih,
      List.cons_append]

/-- **Runs are collapsed one object at a time.** -/
theorem collapse_append_singleton (row : List Value) (v : Value) :
    collapse (row ++ [v]) = addLast (collapse row) v := by
  cases row with
  | nil => rfl
  | cons first row =>
    unfold collapse
    rw [List.cons_append, List.destutter_cons', List.destutter_cons']
    induction row generalizing first with
    | nil =>
      rw [List.nil_append, List.destutter'_singleton, List.destutter'_nil, addLast,
        List.getLast?_singleton]
      dsimp only
      cases first.same v <;> rfl
    | cons next row ih =>
      rw [List.cons_append, List.destutter'_cons, List.destutter'_cons]
      split
      · rw [ih, addLast_cons (List.destutter'_ne_nil _ _)]
      · rw [ih]

/-- **A failure is noted one form at a time.** -/
theorem Failure.reverse_trace_inside (failure : Failure) (form : Value) :
    (failure.inside form).trace.reverse = addLast failure.trace.reverse form := by
  unfold Failure.inside addLast
  rw [List.getLast?_reverse]
  cases htrace : failure.trace with
  | nil => rfl
  | cons last trace =>
    dsimp only [List.head?_cons]
    split
    · rw [htrace]
    · rw [List.reverse_cons]

/-- **A failure is noted inside of the evaluations in progress**, innermost first, and before them
inside of what is no form, if it was an extractor or a symbol that failed. -/
def Stop.Noted (objects : List Value) (events : List Event) : Stop → Prop
  | .failed failure => ∃ inner, (∀ v ∈ inner, v.isPair = false ∧ v.Among objects) ∧
      failure.trace.reverse = inner ++ collapse (inProgress events)
  | .tooDeep => True

namespace Stop.Noted

variable {stop : Stop} {events : List Event}

theorem of_fault (fault : Fault) : Noted objects [] (.failed ⟨fault, []⟩) :=
  ⟨[], nofun, rfl⟩

theorem of_value (fault : Fault) (hpair : v.isPair = false) (hv : v.Among objects) :
    Noted objects [] (.failed ⟨fault, [v]⟩) := by
  refine ⟨[v], fun u hu => ?_, rfl⟩
  obtain rfl := List.mem_singleton.mp hu
  exact ⟨hpair, hv⟩

theorem append (h : stop.Noted objects events) {earlier : List Event}
    (hquiet : inProgress earlier = []) : stop.Noted objects (events ++ earlier) := by
  cases stop with
  | tooDeep => trivial
  | failed failure =>
    unfold Noted
    rw [inProgress_append, hquiet, List.append_nil]
    exact h

/-- **One form further out.**  It was not noted yet as what is no form. -/
theorem inside (h : stop.Noted objects events) {form : Value} (hpair : form.isPair = true)
    (hform : form.Among objects) :
    (stop.inside form).Noted objects (events ++ [.evaluating form]) := by
  cases stop with
  | tooDeep => trivial
  | failed failure =>
    obtain ⟨inner, hinner, htrace⟩ := h
    refine ⟨inner, hinner, ?_⟩
    have hbegun : inProgress [Event.evaluating form] = [form] := by
      simp [inProgress, Event.form?, hpair]
    rw [Failure.reverse_trace_inside, htrace, inProgress_append, hbegun, collapse_append_singleton]
    by_cases hnone : collapse (inProgress events) = []
    · -- the last of what is no form would have to be the form itself
      rw [hnone, List.append_nil, addLast]
      cases hlast : inner.getLast? with
      | none =>
        rw [List.getLast?_eq_none_iff.mp hlast]
        rfl
      | some last =>
        obtain ⟨hother, hamong⟩ := hinner last (List.mem_of_getLast? hlast)
        have hdiffer : ¬ last.same form = true := by
          intro hsame
          rw [hamong.eq_of_same hform hsame, hpair] at hother
          cases hother
        dsimp only
        rw [if_neg hdiffer]
        rfl
    · rw [addLast_append inner hnone]

end Stop.Noted

/-! ## 2. Two runs that differ in their reports -/

section Results

variable {α β : Type}

/-- **Two runs ended in the same way**, in stores that differ in the journal alone.  Of the second
run, which started with the journal `journal`, the reports tell what is in progress: nothing after a
success, and after a failure that which the failure was noted inside of. -/
inductive SameEnd (objects : List Value) (R : List Value → α → Prop) (journal : List Event) :
    EStateM.Result Stop Store α → EStateM.Result Stop Store α → Prop where
  | ok {objects' a s₁ events} (hle : objects <+: objects') (hs : s₁.HasObjects objects')
    (h : R objects' a) (hquiet : inProgress events = []) :
    SameEnd objects R journal (.ok a s₁) (.ok a (s₁.withJournal (events ++ journal)))
  | error {objects' stop s₁ events} (hle : objects <+: objects') (hs : s₁.HasObjects objects')
    (h : stop.Noted objects' events) :
    SameEnd objects R journal (.error stop s₁) (.error stop (s₁.withJournal (events ++ journal)))

namespace SameEnd

variable {R : List Value → α → Prop} {a : α} {journal : List Event}

/-- **Nothing was reported**, or it was taken back. -/
theorem of_ok (hle : objects <+: objects') (hs : s₁.HasObjects objects') (h : R objects' a) :
    SameEnd objects R journal (.ok a s₁) (.ok a (s₁.withJournal journal)) := by
  rw [← List.nil_append journal]
  exact .ok hle hs h rfl

/-- **Something other than an evaluation was reported.** -/
theorem of_ok_record {e : Event} (he : e.form? = none) (hle : objects <+: objects')
    (hs : s₁.HasObjects objects') (h : R objects' a) :
    SameEnd objects R journal (.ok a s₁) (.ok a (s₁.withJournal (e :: journal))) := by
  rw [← List.singleton_append]
  exact .ok hle hs h (by simp [inProgress, he])

theorem of_error {stop : Stop} (hs : s.HasObjects objects) (h : stop.Noted objects []) :
    SameEnd objects R journal (.error stop s) (.error stop (s.withJournal journal)) := by
  rw [← List.nil_append journal]
  exact .error (List.prefix_refl _) hs h

/-- **What follows a success** can go on from its journal. -/
theorem after {events : List Event} {result result' : EStateM.Result Stop Store α}
    (h : SameEnd objects₁ R (events ++ journal) result result') (hle : objects <+: objects₁)
    (hquiet : inProgress events = []) : SameEnd objects R journal result result' := by
  cases h with
  | ok hle' hs h hquiet' =>
    rw [← List.append_assoc]
    refine .ok (hle.trans hle') hs h ?_
    rw [inProgress_append, hquiet, hquiet', List.append_nil]
  | error hle' hs h =>
    rw [← List.append_assoc]
    exact .error (hle.trans hle') hs (h.append hquiet)

end SameEnd

end Results

namespace Effect

variable {α β : Type} {R : List Value → α → Prop} {Q : List Value → β → Prop}
  {effect effect' : Effect α}

/-- **The second effect does what the first does**, and its reports tell what is in progress. -/
def Retraces (objects : List Value) (R : List Value → α → Prop) (effect effect' : Effect α) :
    Prop :=
  ∀ s journal, s.HasObjects objects →
    SameEnd objects R journal (effect s) (effect' (s.withJournal journal))

/-- **The effect begins no evaluation**, and numbers go on standing for one object each. -/
abbrev Conserves (objects : List Value) (R : List Value → α → Prop) (effect : Effect α) : Prop :=
  Retraces objects R effect effect

theorem conserves_pure {a : α} (h : R objects a) : Conserves objects R (pure a) :=
  fun _ _ hs => .of_ok (List.prefix_refl _) hs h

theorem conserves_throw {failure : Failure} (h : Stop.Noted objects [] (.failed failure)) :
    Conserves objects R (throw (.failed failure)) :=
  fun _ _ hs => .of_error hs h

theorem conserves_fail (fault : Fault) : Conserves objects R (fail fault) :=
  conserves_throw (.of_fault fault)

theorem conserves_ofExcept {x : Except Fault α} (h : ∀ a, x = .ok a → R objects a) :
    Conserves objects R (ofExcept x) := by
  cases x with
  | ok a => exact conserves_pure (h a rfl)
  | error fault => exact conserves_fail fault

/-- **What takes a value apart** fails, if it does, inside of what is no form. -/
theorem conserves_inside_ofExcept {x : Except Fault α} (h : ∀ a, x = .ok a → R objects a)
    (hv : v.Among objects) (hpair : ∀ fault, x = .error fault → v.isPair = false) :
    Conserves objects R (inside v (ofExcept x)) := by
  cases x with
  | ok a => exact conserves_pure (h a rfl)
  | error fault => exact conserves_throw (.of_value fault (hpair fault rfl) hv)

theorem conserves_modifyGet {f : Store → α × Store}
    (h : ∀ s journal, s.HasObjects objects →
      (∃ objects', objects <+: objects' ∧ (f s).2.HasObjects objects' ∧ R objects' (f s).1) ∧
        f (s.withJournal journal) = ((f s).1, (f s).2.withJournal journal)) :
    Conserves objects R (modifyGet f) := by
  intro s journal hs
  obtain ⟨⟨objects', hle, hs₁, hR⟩, hblind⟩ := h s journal hs
  change SameEnd objects R journal (.ok (f s).1 (f s).2)
    (.ok (f (s.withJournal journal)).1 (f (s.withJournal journal)).2)
  rw [hblind]
  exact .of_ok hle hs₁ hR

theorem Retraces.bind {next next' : α → Effect β} (h : Retraces objects R effect effect')
    (hnext : ∀ objects', objects <+: objects' → ∀ a, R objects' a →
      Retraces objects' Q (next a) (next' a)) :
    Retraces objects Q (effect >>= next) (effect' >>= next') := by
  intro s journal hs
  have hfirst := h s journal hs
  generalize hrun : effect s = result at hfirst
  generalize hrun' : effect' (s.withJournal journal) = result' at hfirst
  cases hfirst with
  | ok hle hs₁ hR hquiet =>
    rw [bind_of_ok hrun, bind_of_ok hrun']
    exact (hnext _ hle _ hR _ _ hs₁).after hle hquiet
  | error hle hs₁ hnoted =>
    rw [bind_of_error hrun, bind_of_error hrun']
    exact .error hle hs₁ hnoted

/-- A result without a store, or a refusal, comes first. -/
theorem retraces_ofExcept_bind {x : Except Fault α} {next next' : α → Effect β}
    (hnext : ∀ a, x = .ok a → Retraces objects Q (next a) (next' a)) :
    Retraces objects Q (ofExcept x >>= next) (ofExcept x >>= next') := by
  cases x with
  | ok a => exact hnext a rfl
  | error fault => exact conserves_fail fault

/-- **What reads the store** must not read the journal. -/
theorem retraces_get_bind {next next' : Store → Effect β}
    (hnext : ∀ s, s.HasObjects objects → Retraces objects Q (next s) (next' s))
    (hblind : ∀ s journal, next' (s.withJournal journal) = next' s) :
    Retraces objects Q (get >>= next) (get >>= next') := by
  intro s journal hs
  change SameEnd objects Q journal (next s s)
    (next' (s.withJournal journal) (s.withJournal journal))
  rw [hblind]
  exact hnext s hs s journal hs

/-- **A report of something other than an evaluation** tells of nothing in progress. -/
theorem conserves_record {e : Event} (h : e.form? = none) :
    Conserves objects (fun _ _ => True) (record e) :=
  fun s _ hs => .of_ok_record h (List.prefix_refl _) (hs.withJournal (e :: s.journal)) trivial

/-- **One step for each element of a list.** -/
theorem conserves_mapM {A : List Value → α → Prop}
    (hA : ∀ {objects objects' a}, A objects a → objects <+: objects' → A objects' a)
    (hQ : ∀ {objects objects' b}, Q objects b → objects <+: objects' → Q objects' b)
    {f : α → Effect β}
    (h : ∀ objects', objects <+: objects' → ∀ a, A objects' a → Conserves objects' Q (f a))
    {as : List α} (has : ∀ a ∈ as, A objects a) :
    Conserves objects (fun objects bs => ∀ b ∈ bs, Q objects b) (as.mapM f) := by
  induction as generalizing objects with
  | nil =>
    rw [List.mapM_nil]
    exact conserves_pure (List.forall_mem_nil _)
  | cons a as ih =>
    rw [List.mapM_cons]
    obtain ⟨hfirst, hrest⟩ := List.forall_mem_cons.mp has
    refine (h objects (List.prefix_refl _) a hfirst).bind fun objects₁ hle₁ b hb => ?_
    refine (ih (fun objects' hle' => h objects' (hle₁.trans hle')) fun a ha =>
      hA (hrest a ha) hle₁).bind fun objects₂ hle₂ bs hbs => ?_
    exact conserves_pure (List.forall_mem_cons.mpr ⟨hQ hb hle₂, hbs⟩)

end Effect

/-! ## 3. Making objects -/

namespace Effect

/-- **A new object** is the entry under its number. -/
theorem conserves_allocate {make : Nat → Value} {span : Option Span}
    (h : ∀ objects', objects <+: objects' → ∀ i, objects'[i]? = some (make i) →
      (make i).Among objects') :
    Conserves objects Value.Among (modifyGet (·.allocate make span)) := by
  refine conserves_modifyGet fun s journal hs => ⟨⟨_, List.prefix_append _ _,
    hs.allocate make span, h _ (List.prefix_append _ _) _ ?_⟩, rfl⟩
  rw [← hs.size, List.getElem?_concat_length]

theorem conserves_newAtom (value : Atom) : Conserves objects Value.Among (newAtom value) :=
  conserves_allocate fun _ _ _ hi => hi

theorem conserves_newPair {head tail : Value} (hhead : head.Among objects)
    (htail : tail.Among objects) : Conserves objects Value.Among (newPair head tail) :=
  conserves_allocate fun _ hle _ hi => ⟨hi, hhead.mono hle, htail.mono hle⟩

theorem conserves_newListWithTail {items : List Value} {tail : Value}
    (hitems : AllAmong objects items) (htail : tail.Among objects) :
    Conserves objects Value.Among (modifyGet (·.newListWithTail items tail)) := by
  induction items with
  | nil => exact conserves_pure htail
  | cons item items ih =>
    obtain ⟨hitem, hitems⟩ := List.forall_mem_cons.mp hitems
    change Conserves objects Value.Among
      (modifyGet (·.newListWithTail items tail) >>= fun rest => newPair item rest)
    exact (ih hitems).bind fun objects₁ hle rest hrest => conserves_newPair (hitem.mono hle) hrest

theorem conserves_newList {items : List Value} (hitems : AllAmong objects items) :
    Conserves objects Value.Among (newList items) :=
  conserves_newListWithTail hitems trivial

theorem conserves_newQuote (hv : v.Among objects) :
    Conserves objects Value.Among (modifyGet (·.newQuote v)) := by
  change Conserves objects Value.Among
    (newAtom (.symbol "quote") >>= fun quote => newList [quote, v])
  refine (conserves_newAtom _).bind fun objects₁ hle quote hquote => conserves_newList ?_
  exact List.forall_mem_cons.mpr ⟨hquote, List.forall_mem_singleton.mpr (hv.mono hle)⟩

theorem conserves_newQuotes {vs : List Value} (hvs : AllAmong objects vs) :
    Conserves objects AllAmong (modifyGet (·.newQuotes vs)) := by
  induction vs generalizing objects with
  | nil => exact conserves_pure (List.forall_mem_nil _)
  | cons v vs ih =>
    obtain ⟨hv, hvs⟩ := List.forall_mem_cons.mp hvs
    change Conserves objects AllAmong
      (modifyGet (·.newQuote v) >>= fun quoted =>
        modifyGet (·.newQuotes vs) >>= fun rest => pure (quoted :: rest))
    refine (conserves_newQuote hv).bind fun objects₁ hle₁ quoted hquoted => ?_
    refine (ih (AllAmong.mono hvs hle₁)).bind fun objects₂ hle₂ rest hrest => ?_
    exact conserves_pure (List.forall_mem_cons.mpr ⟨hquoted.mono hle₂, hrest⟩)

/-- **The objects of a datum are made**, each under a number of its own. -/
theorem conserves_load (datum : Datum) :
    Conserves objects Value.Among (modifyGet (·.load datum)) := by
  induction datum generalizing objects with
  | nil => exact conserves_pure trivial
  | atom value span => exact conserves_allocate fun _ _ _ hi => hi
  | pair head tail span ihHead ihTail =>
    change Conserves objects Value.Among
      (modifyGet (·.load head) >>= fun head => modifyGet (·.load tail) >>= fun tail =>
        modifyGet (·.allocate (.pair · head tail) span))
    refine ihHead.bind fun objects₁ hle₁ head hhead => ?_
    refine ihTail.bind fun objects₂ hle₂ tail htail => ?_
    exact conserves_allocate fun _ hle _ hi => ⟨hi, (hhead.mono hle₂).mono hle, htail.mono hle⟩

theorem conserves_ofHost (value : HostValue) :
    Conserves objects Value.Among (modifyGet (·.ofHost value)) := by
  cases value with
  | undefined => exact conserves_pure trivial
  | boolean | integer | float | string => exact conserves_newAtom _
  | datum text =>
    simp only [Store.ofHost]
    split
    · split
      · exact conserves_newAtom _
      · exact conserves_load _
    · exact conserves_newAtom _

end Effect

/-! ## 4. Frames -/

namespace Effect

/-- **A change to the store that makes no object** and does not touch the journal. -/
theorem conserves_modify {f : Store → Store}
    (h : ∀ s, s.HasObjects objects → (f s).HasObjects objects)
    (hblind : ∀ s journal, f (s.withJournal journal) = (f s).withJournal journal) :
    Conserves objects (fun _ _ => True) (modify f) := by
  refine conserves_modifyGet fun s journal hs => ⟨⟨_, List.prefix_refl _, h s hs, trivial⟩, ?_⟩
  exact congrArg (Prod.mk PUnit.unit) (hblind s journal)

theorem conserves_print (text : String) :
    Conserves objects (fun _ _ => True) (modify (·.print text)) :=
  conserves_modify (fun _ hs => ⟨hs.size, hs.bound⟩) fun _ _ => rfl

theorem conserves_bind (hv : v.Among objects) (f : Nat) (name : String) :
    Conserves objects (fun _ _ => True) (bind f name v) :=
  conserves_modify (fun _ hs => hs.bind hv f name) fun _ _ => rfl

theorem conserves_enter (scope : Scope) :
    Conserves objects (fun _ _ => True) (modifyGet (·.enter scope)) :=
  conserves_modifyGet fun _ _ hs => ⟨⟨_, List.prefix_refl _, hs.newFrame, trivial⟩, rfl⟩

/-- **An assignment** to a name that is bound nowhere reports that, and no evaluation. -/
theorem conserves_assign (hv : v.Among objects) (scope : Scope) (name : String) :
    Conserves objects (fun _ _ => True) (modify (·.assign scope name v)) := by
  intro s journal hs
  change SameEnd objects _ journal (.ok () (s.assign scope name v))
    (.ok () ((s.withJournal journal).assign scope name v))
  have hholder : (s.withJournal journal).holder? scope name = s.holder? scope name := rfl
  unfold Store.assign
  rw [hholder]
  split
  · next f _ => exact .of_ok (List.prefix_refl _) (hs.bind hv f name) trivial
  · have hrecorded : (s.record (.implicitGlobal name)).HasObjects objects := ⟨hs.size, hs.bound⟩
    exact .of_ok_record rfl (List.prefix_refl _) (hrecorded.bind hv scope.root name) trivial

theorem conserves_lookup (scope : Scope) (name : String) :
    Conserves objects Value.Among (lookup scope name) := by
  refine retraces_get_bind (fun s hs => ?_) fun _ _ => rfl
  split
  · next w hw => exact conserves_pure (hs.findIn? hw)
  · exact conserves_fail _

/-- **A name that is not bound** is noted inside of the symbol. -/
theorem conserves_inside_lookup (hv : v.Among objects) (hpair : v.isPair = false) (scope : Scope)
    (name : String) : Conserves objects Value.Among (inside v (lookup scope name)) := by
  change Conserves objects Value.Among (get >>= fun s => inside v <|
    match s.lookup? scope name with
    | some w => pure w
    | none => fail (.unbound name))
  refine retraces_get_bind (fun s hs => ?_) fun _ _ => rfl
  split
  · next w hw => exact conserves_pure (hs.findIn? hw)
  · exact conserves_throw (.of_value _ hpair hv)

end Effect

/-! ## 5. Taking reports back -/

namespace Effect

variable {α : Type} {R : List Value → α → Prop} {effect effect' : Effect α}

/-- **The effect, with its reports taken back** if it succeeds. -/
def retracting (effect : Effect α) : Effect α := fun s =>
  match effect s with
  | .ok a s₁ => .ok a (s₁.withJournal s.journal)
  | .error stop s₁ => .error stop s₁

theorem journal_of_retracting {a : α} (h : retracting effect s = .ok a s₁) :
    s₁.journal = s.journal := by
  unfold retracting at h
  split at h
  · cases h
    rfl
  · cases h

theorem Retraces.retracting (h : Retraces objects R effect effect') :
    Retraces objects R effect (retracting effect') := by
  intro s journal hs
  have hend := h s journal hs
  unfold Effect.retracting
  generalize effect s = result, effect' (s.withJournal journal) = result' at hend
  cases hend with
  | ok hle hs₁ hR => exact .of_ok hle hs₁ hR
  | error hle hs₁ hnoted => exact .error hle hs₁ hnoted

/-- **The evaluation of a form** is in progress until it has succeeded, and a failure inside of it
is noted inside of the form. -/
theorem Retraces.evaluating {form : Value} (hpair : form.isPair = true)
    (hform : form.Among objects) (h : Retraces objects R effect effect') :
    Retraces objects R (record (.evaluating form) >>= fun _ => inside form effect)
      (Effect.retracting (record (.evaluating form) >>= fun _ => inside form effect')) := by
  intro s journal hs
  have hbegun : (s.record (.evaluating form)).HasObjects objects := ⟨hs.size, hs.bound⟩
  have hend := h (s.record (.evaluating form)) (.evaluating form :: journal) hbegun
  change SameEnd objects R journal (inside form effect (s.record (.evaluating form)))
    (match inside form effect' ((s.record (.evaluating form)).withJournal
        (.evaluating form :: journal)) with
      | .ok a s₁ => .ok a (s₁.withJournal journal)
      | .error stop s₁ => .error stop s₁)
  simp only [inside, EStateM.adaptExcept]
  generalize effect _ = result, effect' _ = result' at hend
  cases hend with
  | ok hle hs₁ hR => exact .of_ok hle hs₁ hR
  | @error _ stop _ events hle hs₁ hnoted =>
    rw [List.append_cons]
    exact .error hle hs₁ (hnoted.inside hpair (hform.mono hle))

end Effect

end Lisp
