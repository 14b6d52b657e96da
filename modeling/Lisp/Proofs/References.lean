/-
# References in an expansion

In the scope of its definition a macro puts an expression for its value in the place of a symbol
that this scope binds.  Whether that can be told from the symbol depends on where it stands.  It
cannot in a place where it is evaluated, as long as the name still has the value that it had when
the use was expanded (`ReadsAlike`): then the use ends as the expansion does in which all symbols
were left alone (`evaluate_use_runsAlike`).

The form around such a place evaluates other operands before and after it.  Those that come before
must leave the names of the scope with their values, and what is asked of them is an invariant of
the stores in which this is so (`Store.Fixes`); those that come after may do anything.

A place that is not evaluated tells the two apart: there a symbol is the name of a variable, or
stands for itself (`evaluate_use_assigning`).
-/
import Lisp.Proofs.Resolution

namespace Lisp

open Correspondence (below)
open Effect

variable {l : Language} {s t : Store} {scope : Scope} {I : Store → Prop} {c c' : Correspondence}
  {v w u : Value}

/-! ## 1. Names that keep their values -/

/-- **As long as it holds, the names of a scope have the values that they have in `s`**, where it
holds.  It goes on to hold when objects are made. -/
structure Store.Fixes (s : Store) (scope : Scope) (I : Store → Prop) : Prop where
  start : I s
  lasting : Lasting I
  lookup?_eq : ∀ t, I t → ∀ name, t.lookup? scope name = s.lookup? scope name

/-- Nothing but objects is made. -/
theorem Store.fixes_extends (s : Store) (scope : Scope) : s.Fixes scope s.Extends :=
  ⟨.refl s, s.lasting_extends, fun _ ht name => ht.findIn?_eq scope.frames name⟩

theorem Effect.lookup_of_some {name : String} (h : t.lookup? scope name = some u) :
    lookup scope name t = .ok u t := by
  rw [lookup, bind_of_ok (rfl : (get : Effect Store) t = .ok t t), h]
  rfl

/-- **An expression for a value evaluates to the value**, as long as names keep their values. -/
theorem evaluate_standsFor (hquote : l.form? "quote" = some .quote) (hfix : s.Fixes scope I)
    (hv : v.StandsFor s scope u) (ht : I t) (depth : Nat) :
    evaluate l (depth + 1) v scope t = .ok u (t.record (.evaluating v)) := by
  cases hv with
  | @name i name u h =>
    have hlookup : (t.record (.evaluating (.atom i (.symbol name)))).lookup? scope name = some u :=
      (hfix.lookup?_eq t ht name).trans h
    have hrun := lookup_of_some hlookup
    change Effect.inside _ (lookup scope name) (t.record _) = _
    simp only [Effect.inside, EStateM.adaptExcept, hrun]
  | quoted h => exact evaluate_quote hquote h depth scope t
  | itself hsymbol hpair =>
    cases v with
    | atom i value =>
      cases value with
      | symbol => cases hsymbol
      | _ => rfl
    | pair => cases hpair
    | _ => rfl

/-- A reference is read without any effect on an invariant. -/
theorem Value.StandsFor.keeps (hquote : l.form? "quote" = some .quote) (hfix : s.Fixes scope I)
    (hv : v.StandsFor s scope u) (depth : Nat) : (evaluate l depth v scope).Keeps I := by
  intro t a t₁ ht hrun
  cases depth with
  | zero => cases hrun
  | succ depth =>
    rw [evaluate_standsFor hquote hfix hv ht] at hrun
    cases hrun
    exact ⟨trivial, hfix.lasting _ _ (t.extends_record _) ht⟩

/-! ## 2. Expressions that read alike -/

/-- **The values that take their arguments evaluated.** -/
def Value.TakesValues : Value → Prop
  | .procedure .. | .hostMarker .. => True
  | _ => False

/-- **The expression is the head of a call**: it is no special form, and what it evaluates to takes
its arguments evaluated. -/
structure Value.HeadsCall (l : Language) (scope : Scope) (I : Store → Prop) (head : Value) :
    Prop where
  plain : l.reserved? head = none
  gives : ∀ depth, (evaluate l depth head scope).Gives I TakesValues

/-- **Evaluating the expression leaves an invariant as it is.** -/
def Value.Keeps (l : Language) (scope : Scope) (I : Store → Prop) (v : Value) : Prop :=
  ∀ depth, (evaluate l depth v scope).Keeps I

/-- **How many operands a special form has that evaluates them all, in order**, and then only looks
at their values. -/
def SpecialForm.operands? : SpecialForm → Option Nat
  | .cons | .apply => some 2
  | .textOf | .hostReference | .head | .tail | .isNil => some 1
  | _ => none

mutual

/-- **Two expressions read alike**: they are the same but in places that are evaluated, and there
they have expressions for one value, one of them a symbol. -/
inductive Value.ReadsAlike (l : Language) (s : Store) (scope : Scope) (I : Store → Prop) :
    Value → Value → Prop where
  | same {v w : Value} (h : v.bare = w.bare) : ReadsAlike l s scope I v w
  | read {v w u : Value} (hv : v.StandsFor s scope u) (hw : w.StandsFor s scope u)
    (hsymbol : v.isSymbol ∨ w.isSymbol) : ReadsAlike l s scope I v w
  | call {i j : Nat} {head head' args args' : Value} (hhead : head.HeadsCall l scope I)
    (hhead' : head'.HeadsCall l scope I) (hlist : args.isList = true) (hlist' : args'.isList = true)
    (hheads : ReadsAlike l s scope I head head') (hargs : RowReadsAlike l s scope I args args') :
    ReadsAlike l s scope I (.pair i head args) (.pair j head' args')
  | operands {i j n : Nat} {form : SpecialForm} {head head' args args' : Value}
    (hhead : l.reserved? head = some form) (hhead' : l.reserved? head' = some form)
    (hform : form.operands? = some n) (hlength : args.length? = some n)
    (hlength' : args'.length? = some n) (hargs : RowReadsAlike l s scope I args args') :
    ReadsAlike l s scope I (.pair i head args) (.pair j head' args')
  /-- A host function is called by its name. -/
  | hostCall {i j k m : Nat} {head head' name name' args args' : Value}
    (hhead : l.reserved? head = some .callHost) (hhead' : l.reserved? head' = some .callHost)
    (hkeeps : name.Keeps l scope I) (hkeeps' : name'.Keeps l scope I)
    (hname : ReadsAlike l s scope I name name') (hargs : RowReadsAlike l s scope I args args') :
    ReadsAlike l s scope I (.pair i head (.pair j name args))
      (.pair k head' (.pair m name' args'))
  /-- The value of a variable that is defined or assigned to. -/
  | binding {i i' j j' k k' m m' : Nat} {name : String} {form : SpecialForm}
    {head head' expr expr' : Value} (hhead : l.reserved? head = some form)
    (hhead' : l.reserved? head' = some form) (hform : form = .define ∨ form = .assign)
    (hexpr : ReadsAlike l s scope I expr expr') :
    ReadsAlike l s scope I
      (.pair i head (.pair j (.atom k (.symbol name)) (.pair m expr .nil)))
      (.pair i' head' (.pair j' (.atom k' (.symbol name)) (.pair m' expr' .nil)))
  /-- There is no alternative. -/
  | consequence {i i' j j' k k' : Nat} {head head' test test' consequent consequent' : Value}
    (hhead : l.reserved? head = some .conditional)
    (hhead' : l.reserved? head' = some .conditional) (hkeeps : test.Keeps l scope I)
    (hkeeps' : test'.Keeps l scope I) (htest : ReadsAlike l s scope I test test')
    (hconsequent : ReadsAlike l s scope I consequent consequent') :
    ReadsAlike l s scope I (.pair i head (.pair j test (.pair k consequent .nil)))
      (.pair i' head' (.pair j' test' (.pair k' consequent' .nil)))
  | conditional {i i' j j' k k' m m' : Nat}
    {head head' test test' consequent consequent' alternative alternative' : Value}
    (hhead : l.reserved? head = some .conditional)
    (hhead' : l.reserved? head' = some .conditional) (hkeeps : test.Keeps l scope I)
    (hkeeps' : test'.Keeps l scope I) (htest : ReadsAlike l s scope I test test')
    (hconsequent : ReadsAlike l s scope I consequent consequent')
    (halternative : ReadsAlike l s scope I alternative alternative') :
    ReadsAlike l s scope I
      (.pair i head (.pair j test (.pair k consequent (.pair m alternative .nil))))
      (.pair i' head' (.pair j' test' (.pair k' consequent' (.pair m' alternative' .nil))))

/-- **Two chains of operands read alike.**  An operand after which nothing is the same must keep the
invariant. -/
inductive Value.RowReadsAlike (l : Language) (s : Store) (scope : Scope) (I : Store → Prop) :
    Value → Value → Prop where
  | same {row row' : Value} (h : row.bare = row'.bare) : RowReadsAlike l s scope I row row'
  | last {i j : Nat} {v w rest rest' : Value} (h : ReadsAlike l s scope I v w)
    (hrest : rest.bare = rest'.bare) : RowReadsAlike l s scope I (.pair i v rest) (.pair j w rest')
  | cons {i j : Nat} {v w rest rest' : Value} (h : ReadsAlike l s scope I v w)
    (hkeeps : v.Keeps l scope I) (hkeeps' : w.Keeps l scope I)
    (hrest : RowReadsAlike l s scope I rest rest') :
    RowReadsAlike l s scope I (.pair i v rest) (.pair j w rest')

end

mutual

theorem Value.ReadsAlike.symm : ∀ {v w : Value}, v.ReadsAlike l s scope I w →
    w.ReadsAlike l s scope I v
  | _, _, .same h => .same h.symm
  | _, _, .read hv hw hsymbol => .read hw hv hsymbol.symm
  | _, _, .call hhead hhead' hlist hlist' hheads hargs =>
    .call hhead' hhead hlist' hlist hheads.symm hargs.symm
  | _, _, .operands hhead hhead' hform hlength hlength' hargs =>
    .operands hhead' hhead hform hlength' hlength hargs.symm
  | _, _, .hostCall hhead hhead' hkeeps hkeeps' hname hargs =>
    .hostCall hhead' hhead hkeeps' hkeeps hname.symm hargs.symm
  | _, _, .binding hhead hhead' hform hexpr => .binding hhead' hhead hform hexpr.symm
  | _, _, .consequence hhead hhead' hkeeps hkeeps' htest hconsequent =>
    .consequence hhead' hhead hkeeps' hkeeps htest.symm hconsequent.symm
  | _, _, .conditional hhead hhead' hkeeps hkeeps' htest hconsequent halternative =>
    .conditional hhead' hhead hkeeps' hkeeps htest.symm hconsequent.symm halternative.symm

theorem Value.RowReadsAlike.symm : ∀ {v w : Value}, v.RowReadsAlike l s scope I w →
    w.RowReadsAlike l s scope I v
  | _, _, .same h => .same h.symm
  | _, _, .last h hrest => .last h.symm hrest.symm
  | _, _, .cons h hkeeps hkeeps' hrest => .cons h.symm hkeeps' hkeeps hrest.symm

end

namespace Value.Resolved

/-- Where no reference differs the numbers of objects do not matter. -/
theorem corresponds (h : v.Resolved s scope c w) (hbare : v.bare = w.bare) : v.Corresponds c w := by
  induction h with
  | same h => exact h
  | pair hij _ _ ihHead ihTail =>
    obtain ⟨-, hhead, htail⟩ := Value.pair.inj hbare
    exact .pair hij (ihHead hhead) (ihTail htail)
  | read _ _ hne => exact absurd (congrArg Option.isSome (Value.symbol?_congr hbare)) hne

theorem of_pair {i j : Nat} {head head' tail tail' : Value}
    (h : (Value.pair i head tail).Resolved s scope c (.pair j head' tail')) :
    head.Resolved s scope c head' ∧ tail.Resolved s scope c tail' := by
  cases h with
  | same h =>
    cases h with
    | pair _ hhead htail => exact ⟨.same hhead, .same htail⟩
  | pair _ hhead htail => exact ⟨hhead, htail⟩
  | read _ _ hne => exact absurd rfl hne

theorem symm (h : v.Resolved s scope c w) : w.Resolved s scope c.symm v := by
  induction h with
  | same h => exact .same h.symm
  | pair hij _ _ ihHead ihTail => exact .pair hij ihHead ihTail
  | read hv hw hne => exact .read hw hv hne.symm

end Value.Resolved

/-! ## 3. One form -/

/-- **How a special form with operands goes on** with their values. -/
def SpecialForm.finish (b : Below) (scope : Scope) : SpecialForm → List Value → Effect Value
  | .cons, [first, rest] => newPair first rest
  | .apply, [f, list] =>
    if list.isList then b.apply f list scope else fail (.applyToNoList list)
  | .textOf, [v] => newString v.text
  | .hostReference, [v] => do
    let name ← ofExcept (hostName v)
    modifyGet (·.allocate (.hostMarker · name) none)
  | .head, [v] => Effect.inside v (ofExcept v.head)
  | .tail, [v] => Effect.inside v (ofExcept v.tail)
  | .isNil, [v] => newAtom (.boolean v.isNil)
  | _, _ => pure .nil

theorem Value.exists_pair_of_length? {v : Value} {n : Nat} (h : v.length? = some (n + 1)) :
    ∃ i head tail, v = .pair i head tail ∧ tail.length? = some n := by
  cases v with
  | pair i head tail =>
    refine ⟨i, head, tail, rfl, ?_⟩
    change (if tail.ending.isNil then some (tail.elements.length + 1) else none) = some (n + 1) at h
    change (if tail.ending.isNil then some tail.elements.length else none) = some n
    by_cases hlist : tail.ending.isNil = true
    · rw [if_pos hlist] at h ⊢
      exact congrArg some (Nat.succ.inj (Option.some.inj h))
    · rw [if_neg hlist] at h
      cases h
  | _ => simp [Value.length?, Value.elements, Value.ending, Value.isNil] at h

theorem Value.eq_nil_of_length? {v : Value} (h : v.length? = some 0) : v = .nil := by
  cases v with
  | nil => rfl
  | pair i head tail =>
    simp [Value.length?, Value.elements] at h
  | _ => simp [Value.length?, Value.ending, Value.isNil] at h

/-- **A special form with operands evaluates them in order** and goes on with their values. -/
theorem perform_operands {form : SpecialForm} {n : Nat} {args : Value}
    (hform : form.operands? = some n) (hlength : args.length? = some n) (b : Below) :
    form.perform l b args scope = b.evaluateAll scope args.elements >>= form.finish b scope := by
  have hone : n = 1 → ∃ i v, args = .pair i v .nil := by
    rintro rfl
    obtain ⟨i, v, rest, rfl, hrest⟩ := Value.exists_pair_of_length? hlength
    rw [Value.eq_nil_of_length? hrest]
    exact ⟨i, v, rfl⟩
  have htwo : n = 2 → ∃ i v j w, args = .pair i v (.pair j w .nil) := by
    rintro rfl
    obtain ⟨i, v, rest, rfl, hrest⟩ := Value.exists_pair_of_length? hlength
    obtain ⟨j, w, others, rfl, hothers⟩ := Value.exists_pair_of_length? hrest
    rw [Value.eq_nil_of_length? hothers]
    exact ⟨i, v, j, w, rfl⟩
  cases form with
  | cons | apply =>
    obtain ⟨i, v, j, w, rfl⟩ := htwo (Option.some.inj hform).symm
    simp only [Value.elements, Below.evaluateAll, bind_assoc, pure_bind]
    rfl
  | textOf | hostReference | head | tail | isNil =>
    obtain ⟨i, v, rfl⟩ := hone (Option.some.inj hform).symm
    simp only [Value.elements, Below.evaluateAll, bind_assoc, pure_bind]
    rfl
  | _ => cases hform

theorem SpecialForm.simulates_finish {b b' : Below} (hb : b.Simulates b')
    (hscope : scope.Within c.frames) (form : SpecialForm) {values values' : List Value}
    (h : List.Forall₂ (Value.Corresponds c) values values') :
    Simulates c Value.Corresponds (form.finish b scope values)
      (form.finish b' scope values') := by
  cases h with
  | nil => cases form <;> exact simulates_pure .nil
  | @cons v v' _ _ hfirst hrest =>
    cases hrest with
    | nil =>
      cases form with
      | textOf =>
        simp only [finish, hfirst.text_eq]
        exact simulates_newAtom (c.made (.string _))
      | hostReference =>
        refine simulates_ofExcept_bind hfirst.hostName ?_
        rintro name _ rfl
        exact simulates_allocate fun _ _ _ _ hij => .hostMarker hij
      | head => exact (simulates_ofExcept hfirst.head).inside v v'
      | tail => exact (simulates_ofExcept hfirst.tail).inside v v'
      | isNil =>
        simp only [finish, hfirst.isNil_eq]
        exact simulates_newAtom (c.made (.boolean _))
      | _ => exact simulates_pure .nil
    | cons hsecond hrest =>
      cases hrest with
      | nil =>
        cases form with
        | cons => exact simulates_newPair hfirst hsecond
        | apply =>
          simp only [finish, hsecond.isList_eq]
          split
          · exact hb.apply hfirst hsecond hscope
          · exact simulates_fail ⟨rfl, congrArg (_ ++ ·) hsecond.text_eq⟩
        | _ => exact simulates_pure .nil
      | cons => cases form <;> exact simulates_pure .nil

section Forms

variable {b b' : Below} {form : SpecialForm} {head head' args args' : Value} {i j : Nat}

/-- **A call**, if its head and its arguments are evaluated alike. -/
theorem simulatesIn_call (hb : b.Simulates b') (hscope : scope.Within c.frames)
    (hplain : l.reserved? head = none) (hplain' : l.reserved? head' = none)
    (hgives : (b.evaluate head scope).Gives I Value.TakesValues)
    (hgives' : (b'.evaluate head' scope).Gives I Value.TakesValues)
    (hlist : args.isList = true) (hlist' : args'.isList = true)
    (hheads : SimulatesIn I c Value.Corresponds (b.evaluate head scope) (b'.evaluate head' scope))
    (hargs : ∀ c', c ≤ c' → SimulatesIn I c' (fun c => List.Forall₂ (Value.Corresponds c))
      (b.evaluateAll scope args.elements) (b'.evaluateAll scope args'.elements)) :
    SimulatesIn I c Value.Corresponds (evaluateForm l b head args scope)
      (evaluateForm l b' head' args' scope) := by
  unfold evaluateForm
  rw [hplain, hplain']
  refine hheads.bind hgives hgives' fun c₁ hc₁ f f' hf htakes _ => ?_
  have hvalues : SimulatesIn I c₁ Value.Corresponds (evaluateArguments b args scope)
      (evaluateArguments b' args' scope) := by
    rw [evaluateArguments, evaluateArguments, if_pos hlist, if_pos hlist']
    exact (hargs c₁ hc₁).andThen fun c₂ hc₂ _ _ hvalues => simulates_newList hvalues
  have happly : SimulatesIn I c₁ Value.Corresponds
      (evaluateArguments b args scope >>= fun values => b.apply f values scope)
      (evaluateArguments b' args' scope >>= fun values => b'.apply f' values scope) :=
    hvalues.andThen fun c₂ hc₂ _ _ hvalues =>
      hb.apply (hf.mono hc₂) hvalues ((hscope.mono hc₁).mono hc₂)
  cases hf with
  | procedure | hostMarker => exact happly
  | _ => exact htakes.elim

/-- **A special form with operands**, if they are evaluated alike. -/
theorem simulatesIn_operands {n : Nat} (hb : b.Simulates b') (hscope : scope.Within c.frames)
    (hhead : l.reserved? head = some form)
    (hhead' : l.reserved? head' = some form) (hform : form.operands? = some n)
    (hlength : args.length? = some n) (hlength' : args'.length? = some n)
    (hargs : SimulatesIn I c (fun c => List.Forall₂ (Value.Corresponds c))
      (b.evaluateAll scope args.elements) (b'.evaluateAll scope args'.elements)) :
    SimulatesIn I c Value.Corresponds (evaluateForm l b head args scope)
      (evaluateForm l b' head' args' scope) := by
  simp only [evaluateForm, hhead, hhead']
  rw [perform_operands hform hlength, perform_operands hform hlength']
  exact hargs.andThen fun c₁ hc₁ _ _ hvalues => form.simulates_finish hb (hscope.mono hc₁) hvalues

/-- **A definition or an assignment**, if the value is evaluated alike. -/
theorem simulatesIn_binding {k k' m m' : Nat} {name : String} {expr expr' : Value}
    (hscope : scope.Within c.frames) (hhead : l.reserved? head = some form)
    (hhead' : l.reserved? head' = some form) (hform : form = .define ∨ form = .assign)
    (hexpr : SimulatesIn I c Value.Corresponds (b.evaluate expr scope) (b'.evaluate expr' scope)) :
    SimulatesIn I c Value.Corresponds
      (evaluateForm l b head (.pair i (.atom k (.symbol name)) (.pair m expr .nil)) scope)
      (evaluateForm l b' head' (.pair j (.atom k' (.symbol name)) (.pair m' expr' .nil))
        scope) := by
  simp only [evaluateForm, hhead, hhead']
  rcases hform with rfl | rfl
  · change SimulatesIn I c Value.Corresponds
      (b.evaluate expr scope >>= fun value => record (.defined name value) >>= fun _ =>
        bind scope.frame name value >>= fun _ => pure value)
      (b'.evaluate expr' scope >>= fun value => record (.defined name value) >>= fun _ =>
        bind scope.frame name value >>= fun _ => pure value)
    refine hexpr.andThen fun c₁ hc₁ value value' hvalue => ?_
    refine (simulates_record _ _).bind fun c₂ hc₂ _ _ _ => ?_
    refine (simulates_bind ((hscope.mono hc₁).mono hc₂).frame (hvalue.mono hc₂) name).bind
      fun c₃ hc₃ _ _ _ => ?_
    exact simulates_pure ((hvalue.mono hc₂).mono hc₃)
  · change SimulatesIn I c Value.Corresponds
      (b.evaluate expr scope >>= fun value => modify (·.assign scope name value) >>= fun _ =>
        pure value)
      (b'.evaluate expr' scope >>= fun value => modify (·.assign scope name value) >>= fun _ =>
        pure value)
    refine hexpr.andThen fun c₁ hc₁ value value' hvalue => ?_
    refine (simulates_assign (hscope.mono hc₁) hvalue name).bind fun c₂ hc₂ _ _ _ => ?_
    exact simulates_pure (hvalue.mono hc₂)

/-- **A call of a host function by its name**, if the name and the arguments are evaluated
alike. -/
theorem simulatesIn_hostCall {name name' : Value} (hhead : l.reserved? head = some .callHost)
    (hhead' : l.reserved? head' = some .callHost) (hkeeps : (b.evaluate name scope).Keeps I)
    (hkeeps' : (b'.evaluate name' scope).Keeps I)
    (hname : SimulatesIn I c Value.Corresponds (b.evaluate name scope) (b'.evaluate name' scope))
    (hargs : ∀ c', c ≤ c' → SimulatesIn I c' (fun c => List.Forall₂ (Value.Corresponds c))
      (b.evaluateAll scope args.elements) (b'.evaluateAll scope args'.elements)) :
    SimulatesIn I c Value.Corresponds (evaluateForm l b head (.pair i name args) scope)
      (evaluateForm l b' head' (.pair j name' args') scope) := by
  simp only [evaluateForm, hhead, hhead']
  let goOn (values : Effect (List Value)) (value : Value) : Effect Value := do
    let name ← ofExcept (hostName value)
    let values ← values
    let values ← newList values
    callHost l name values
  change SimulatesIn I c Value.Corresponds
    (b.evaluate name scope >>= goOn (b.evaluateAll scope args.elements))
    (b'.evaluate name' scope >>= goOn (b'.evaluateAll scope args'.elements))
  refine hname.bind hkeeps hkeeps' fun c₁ hc₁ value value' hvalue _ _ => ?_
  rcases hvalue.hostName.cases with ⟨name, _, hok, hok', rfl⟩ | ⟨fault, fault', hno, hno', halike⟩
  · simp only [goOn, hok, hok']
    refine (hargs c₁ hc₁).andThen fun c₂ hc₂ values values' hvalues => ?_
    exact (simulates_newList hvalues).bind fun c₃ hc₃ _ _ hlist =>
      simulates_callHost l name hlist.elements
  · simp only [goOn, hno, hno']
    exact (simulates_fail halike).within

/-- **A test and two branches**, if they are evaluated alike. -/
theorem simulatesIn_branch {test test' consequent consequent' alternative alternative' : Value}
    (hkeeps : (b.evaluate test scope).Keeps I) (hkeeps' : (b'.evaluate test' scope).Keeps I)
    (htest : SimulatesIn I c Value.Corresponds (b.evaluate test scope) (b'.evaluate test' scope))
    (hconsequent : ∀ c', c ≤ c' → SimulatesIn I c' Value.Corresponds (b.evaluate consequent scope)
      (b'.evaluate consequent' scope))
    (halternative : ∀ c', c ≤ c' → SimulatesIn I c' Value.Corresponds
      (b.evaluate alternative scope) (b'.evaluate alternative' scope)) :
    SimulatesIn I c Value.Corresponds
      (b.evaluate test scope >>= fun value =>
        if value.isFalse then b.evaluate alternative scope else b.evaluate consequent scope)
      (b'.evaluate test' scope >>= fun value =>
        if value.isFalse then b'.evaluate alternative' scope
        else b'.evaluate consequent' scope) := by
  refine htest.bind hkeeps hkeeps' fun c₁ hc₁ value value' hvalue _ _ => ?_
  rw [hvalue.isFalse_eq]
  split
  · exact halternative c₁ hc₁
  · exact hconsequent c₁ hc₁

/-- **A conditional form** comes to its test and its branches; a missing branch is the empty
list. -/
theorem evaluateForm_conditional (hhead : l.reserved? head = some .conditional)
    {test consequent alternative rest : Value} (k : Nat)
    (hrest : Arguments.optional rest = (alternative, .nil)) :
    evaluateForm l b head (.pair i test (.pair k consequent rest)) scope =
      (b.evaluate test scope >>= fun value =>
        if value.isFalse then b.evaluate alternative scope else b.evaluate consequent scope) := by
  simp only [evaluateForm, hhead, SpecialForm.perform]
  change (ofExcept (Arguments.finished (Arguments.optional rest).2) >>= fun _ =>
    b.evaluate test scope >>= fun value =>
      if value.isFalse then b.evaluate (Arguments.optional rest).1 scope
      else b.evaluate consequent scope) = _
  rw [hrest]
  rfl

end Forms

/-- What is reported before a form is evaluated makes no difference. -/
theorem simulatesIn_evaluate_pair (hI : Store.Lasting I) {head head' args args' : Value} {i j : Nat}
    (h : ∀ {depth depth'}, depth ≤ depth' → SimulatesIn I c Value.Corresponds
      (evaluateForm l (belowAt l depth) head args scope)
      (evaluateForm l (belowAt l depth') head' args' scope))
    {depth depth' : Nat} (hdepth : depth ≤ depth') :
    SimulatesIn I c Value.Corresponds (evaluate l depth (.pair i head args) scope)
      (evaluate l depth' (.pair j head' args') scope) := by
  intro t t' ht
  match depth, depth', hdepth with
  | 0, _, _ => exact .tooDeep
  | depth + 1, 0, hdepth => omega
  | depth + 1, depth' + 1, hdepth =>
    have hforms := h (Nat.le_of_succ_le_succ hdepth) _ _
      (ht.record hI (.evaluating (.pair i head args)) (.evaluating (.pair j head' args')))
    exact .after ((t.quiet_record _).grows c) ((hforms.inside_left _).inside_right _)

/-! ## 4. Expressions that read alike -/

theorem Store.Sound.existsIn_of_lookup? (hs : s.Sound) {name : String}
    (h : s.lookup? scope name = some u) : u.ExistsIn s := by
  obtain ⟨f, -, hf⟩ := List.exists_of_findSome?_eq_some h
  exact hs f (name, u) (mem_of_lookup_eq_some hf)

/-- **The value that a symbol stands for** was made. -/
theorem Value.StandsFor.existsIn (hs : s.Sound) (h : v.StandsFor s scope u)
    (hsymbol : v.isSymbol) : u.ExistsIn s := by
  cases h with
  | name h => exact hs.existsIn_of_lookup? h
  | quoted h =>
    obtain ⟨i, j, k, rfl⟩ := h
    cases hsymbol
  | itself hnone => exact absurd hsymbol (by simp [hnone])

/-- **Two expressions for one value** both evaluate to it. -/
theorem simulatesIn_read (hquote : l.form? "quote" = some .quote) (hs : s.Sound)
    (hfix : s.Fixes scope I) (hle : below s.spans.size Set.univ ≤ c) (hv : v.StandsFor s scope u)
    (hw : w.StandsFor s scope u) (hsymbol : v.isSymbol ∨ w.isSymbol) {depth depth' : Nat}
    (hdepth : depth ≤ depth') :
    SimulatesIn I c Value.Corresponds (evaluate l depth v scope) (evaluate l depth' w scope) := by
  intro t t' ht
  have hexists : u.ExistsIn s := hsymbol.elim (hv.existsIn hs) (hw.existsIn hs)
  match depth, depth', hdepth with
  | 0, _, _ => exact .tooDeep
  | depth + 1, 0, hdepth => omega
  | depth + 1, depth' + 1, _ =>
    rw [evaluate_standsFor hquote hfix hv ht.left, evaluate_standsFor hquote hfix hw ht.right]
    exact .ok ((t.quiet_record _).grows c)
      (ht.stores.quiet (t.quiet_record _) (t'.quiet_record _)) (hexists.corresponds.mono hle)

mutual

/-- **Expressions that read alike are evaluated alike**, if apart from references they correspond.
The recursion is on how they read alike; the invariant passes from operand to operand. -/
theorem Value.ReadsAlike.simulatesIn (hquote : l.form? "quote" = some .quote) (hs : s.Sound)
    (hfix : s.Fixes scope I) {v w : Value} (h : v.ReadsAlike l s scope I w) {c : Correspondence}
    (hle : below s.spans.size Set.univ ≤ c) (hresolved : v.Resolved s scope c w)
    {depth depth' : Nat} (hdepth : depth ≤ depth') :
    SimulatesIn I c Value.Corresponds (evaluate l depth v scope) (evaluate l depth' w scope) := by
  have hscope : scope.Within c.frames := Scope.Within.mono scope.within_univ hle
  have hinherited := Value.Resolved.inherited s scope
  match h with
  | .same h =>
    exact ((simulates_belowAt l hdepth).evaluate (hresolved.corresponds h) hscope).within
  | .read hv hw hsymbol => exact simulatesIn_read hquote hs hfix hle hv hw hsymbol hdepth
  | .call hhead hhead' hlist hlist' hheads hargs =>
    obtain ⟨hheads₀, hargs₀⟩ := hresolved.of_pair
    refine simulatesIn_evaluate_pair hfix.lasting (fun hdepth => ?_) hdepth
    refine simulatesIn_call (simulates_belowAt l hdepth) hscope hhead.plain hhead'.plain
      (hhead.gives _) (hhead'.gives _) hlist hlist' ?_ fun c' hc' => ?_
    · exact hheads.simulatesIn hquote hs hfix hle hheads₀ hdepth
    · exact hargs.simulatesIn hquote hs hfix (hle.trans hc') (hinherited.mono hc' hargs₀) hdepth
  | .operands hhead hhead' hform hlength hlength' hargs =>
    refine simulatesIn_evaluate_pair hfix.lasting (fun hdepth => ?_) hdepth
    refine simulatesIn_operands (simulates_belowAt l hdepth) hscope hhead hhead' hform hlength
      hlength' ?_
    exact hargs.simulatesIn hquote hs hfix hle hresolved.of_pair.2 hdepth
  | .binding hhead hhead' hform hexpr =>
    refine simulatesIn_evaluate_pair hfix.lasting (fun hdepth => ?_) hdepth
    refine simulatesIn_binding hscope hhead hhead' hform ?_
    exact hexpr.simulatesIn hquote hs hfix hle hresolved.of_pair.2.of_pair.2.of_pair.1 hdepth
  | .hostCall hhead hhead' hkeeps hkeeps' hname hargs =>
    obtain ⟨hname₀, hargs₀⟩ := hresolved.of_pair.2.of_pair
    refine simulatesIn_evaluate_pair hfix.lasting (fun hdepth => ?_) hdepth
    refine simulatesIn_hostCall hhead hhead' (hkeeps _) (hkeeps' _) ?_ fun c' hc' => ?_
    · exact hname.simulatesIn hquote hs hfix hle hname₀ hdepth
    · exact hargs.simulatesIn hquote hs hfix (hle.trans hc') (hinherited.mono hc' hargs₀) hdepth
  | .consequence hhead hhead' hkeeps hkeeps' htest hconsequent =>
    obtain ⟨htest₀, hbranches⟩ := hresolved.of_pair.2.of_pair
    refine simulatesIn_evaluate_pair hfix.lasting (fun hdepth => ?_) hdepth
    rw [evaluateForm_conditional hhead _ rfl, evaluateForm_conditional hhead' _ rfl]
    refine simulatesIn_branch (hkeeps _) (hkeeps' _) ?_ (fun c' hc' => ?_) fun c' hc' => ?_
    · exact htest.simulatesIn hquote hs hfix hle htest₀ hdepth
    · exact hconsequent.simulatesIn hquote hs hfix (hle.trans hc')
        (hinherited.mono hc' hbranches.of_pair.1) hdepth
    · exact ((simulates_belowAt l hdepth).evaluate .nil (hscope.mono hc')).within
  | .conditional hhead hhead' hkeeps hkeeps' htest hconsequent halternative =>
    obtain ⟨htest₀, hbranches⟩ := hresolved.of_pair.2.of_pair
    obtain ⟨hconsequent₀, hrest⟩ := hbranches.of_pair
    refine simulatesIn_evaluate_pair hfix.lasting (fun hdepth => ?_) hdepth
    rw [evaluateForm_conditional hhead _ rfl, evaluateForm_conditional hhead' _ rfl]
    refine simulatesIn_branch (hkeeps _) (hkeeps' _) ?_ (fun c' hc' => ?_) fun c' hc' => ?_
    · exact htest.simulatesIn hquote hs hfix hle htest₀ hdepth
    · exact hconsequent.simulatesIn hquote hs hfix (hle.trans hc')
        (hinherited.mono hc' hconsequent₀) hdepth
    · exact halternative.simulatesIn hquote hs hfix (hle.trans hc')
        (hinherited.mono hc' hrest.of_pair.1) hdepth

theorem Value.RowReadsAlike.simulatesIn (hquote : l.form? "quote" = some .quote) (hs : s.Sound)
    (hfix : s.Fixes scope I) {row row' : Value} (h : row.RowReadsAlike l s scope I row')
    {c : Correspondence} (hle : below s.spans.size Set.univ ≤ c)
    (hresolved : row.Resolved s scope c row') {depth depth' : Nat} (hdepth : depth ≤ depth') :
    SimulatesIn I c (fun c => List.Forall₂ (Value.Corresponds c))
      ((belowAt l depth).evaluateAll scope row.elements)
      ((belowAt l depth').evaluateAll scope row'.elements) := by
  have hscope : scope.Within c.frames := Scope.Within.mono scope.within_univ hle
  have hbelow := simulates_belowAt l hdepth
  match h with
  | .same h => exact (hbelow.evaluateAll hscope (hresolved.corresponds h).elements).within
  | .last h hsame =>
    obtain ⟨hfirst, hrest⟩ := hresolved.of_pair
    have hothers := (hrest.corresponds hsame).elements
    refine (h.simulatesIn hquote hs hfix hle hfirst hdepth).andThen fun c₁ hc₁ _ _ hvalue => ?_
    refine (hbelow.evaluateAll (hscope.mono hc₁) (Value.Corresponds.mono_all hothers hc₁)).bind
      fun c₂ hc₂ _ _ hvalues => ?_
    exact simulates_pure (.cons (hvalue.mono hc₂) hvalues)
  | .cons h hkeeps hkeeps' hothers =>
    obtain ⟨hfirst, hrest⟩ := hresolved.of_pair
    refine (h.simulatesIn hquote hs hfix hle hfirst hdepth).bind (hkeeps _) (hkeeps' _)
      fun c₁ hc₁ _ _ hvalue _ _ => ?_
    have hrest₁ := (Value.Resolved.inherited s scope).mono hc₁ hrest
    refine (hothers.simulatesIn hquote hs hfix (hle.trans hc₁) hrest₁ hdepth).andThen
      fun c₂ hc₂ _ _ hvalues => ?_
    exact simulates_pure (.cons (hvalue.mono hc₂) hvalues)

end

/-! ## 5. Uses in the scope of the definition -/

/-- Expanding fails with a fault, and is never nested too deeply. -/
theorem failsAs_expand (rules : Value) (scope : Scope) (args : Value) :
    FailsAs (fun _ => True) (expand rules scope args) :=
  (Template.fails_steps fun _ _ => trivial).expand (fun _ => failsAs_fail trivial) rules scope args

/-- **The store in which a use is expanded**: that the use and its keyword are evaluated has been
reported. -/
def Store.atUse (s : Store) (use keyword : Value) : Store :=
  (s.record (.evaluating use)).record (.evaluating keyword)

theorem Store.extends_atUse (s : Store) (use keyword : Value) : s.Extends (s.atUse use keyword) :=
  (s.extends_record _).trans (extends_record _ _)

/-- **A use of a macro is expanded**, and the expansion is evaluated. -/
theorem evaluate_use {keyword : String} {id : Nat} {rules : Value} {home : Scope}
    (hkeyword : l.form? keyword = none)
    (hdefined : s.lookup? scope keyword = some (.transformer id rules home)) (i j depth : Nat)
    (args : Value) :
    let head : Value := .atom j (.symbol keyword)
    evaluate l (depth + 2) (.pair i head args) scope s =
      Effect.inside (.pair i head args)
        (expand rules home args >>= fun v => evaluate l (depth + 1) v scope)
        (s.atUse (.pair i head args) head) := by
  intro head
  have hplain : l.reserved? head = none := hkeyword
  have hrun := lookup_of_some (t := s.atUse (.pair i head args) head) hdefined
  have hhead : evaluate l (depth + 1) head scope (s.record (.evaluating (.pair i head args))) =
      .ok (.transformer id rules home) (s.atUse (.pair i head args) head) := by
    change Effect.inside _ (lookup scope keyword) (s.atUse _ _) = _
    simp only [Effect.inside, EStateM.adaptExcept, hrun]
  have hform : evaluateForm l (belowAt l (depth + 1)) head args scope
      (s.record (.evaluating (.pair i head args))) =
        (expand rules home args >>= fun v => evaluate l (depth + 1) v scope)
          (s.atUse (.pair i head args) head) := by
    simp only [evaluateForm, hplain]
    exact bind_of_ok hhead _
  exact inside_congr hform _

theorem Store.CorrespondsIn.symm {s' : Store} (h : s.CorrespondsIn I c s') :
    s'.CorrespondsIn I c.symm s := by
  refine ⟨h.stores.symm, fun {j i} hij => ?_, h.right, h.left⟩
  by_contra hlt
  obtain ⟨k, rfl⟩ := Nat.exists_eq_add_of_le (Nat.le_of_not_lt hlt)
  have hmade := h.made hij
  have hequal := h.stores.objects.right hij
  omega

/-- **Two stores that grew out of a sound one.** -/
theorem Store.Sound.correspondsIn_both (hs : s.Sound) (hI : Lasting I) (hstart : I s)
    (h₁ : s.Extends s₁) (h₂ : s.Extends s₂) :
    s₁.CorrespondsIn I (below s.spans.size Set.univ) s₂ :=
  ⟨hs.corresponds h₁ h₂ (le_refl _) h₁.spans h₂.spans fun f _ => Set.mem_univ f,
    fun hij => hij.2.trans_le h₁.spans, hI _ _ h₁ hstart, hI _ _ h₂ hstart⟩

/-- **A sound store and one in which more objects were made.** -/
theorem Store.Sound.correspondsIn (hs : s.Sound) (hI : Lasting I) (hstart : I s)
    (h : s.Extends t) : t.CorrespondsIn I (below s.spans.size Set.univ) s :=
  hs.correspondsIn_both hI hstart h (.refl s)

/-- **Expressions that read alike end alike**, the first with one level more. -/
theorem Value.ReadsAlike.runsAlike (hquote : l.form? "quote" = some .quote) (hs : s.Sound)
    (hfix : s.Fixes scope I) (h : v.ReadsAlike l s scope I w) {t' : Store}
    (hle : Correspondence.below s.spans.size Set.univ ≤ c) (ht : t.CorrespondsIn I c t')
    (hresolved : v.Resolved s scope c w) (use : Value) :
    RunsAlike s (fun depth => Effect.inside use (evaluate l (depth + 1) v scope) t)
      fun depth => evaluate l depth w scope t' := by
  refine ⟨fun hlt hended => ?_, fun hdepth hended => ?_⟩
  · have hforth := h.simulatesIn hquote hs hfix hle hresolved (Nat.succ_le_of_lt hlt) t t' ht
    exact (hforth.inside_left use).endAlike hle hended
  · have hback := h.symm.simulatesIn hquote hs hfix (Correspondence.below_le_symm hle)
      hresolved.symm (Nat.le_succ_of_le hdepth) t' t ht.symm
    exact ((hback.inside_right use).endAlike (Correspondence.below_le_symm hle) hended).symm

/-- **A macro that is used in the scope of its definition** ends as the expansion does in which
every symbol of the template is left alone, if the two expansions read alike: with one value or one
fault, the same in all frames and the same output. -/
theorem evaluate_use_runsAlike {keyword : String} {id : Nat} {rules args : Value} (i j : Nat)
    (hquote : l.form? "quote" = some .quote) (hkeyword : l.form? keyword = none) (hs : s.Sound)
    (hdefined : s.lookup? scope keyword = some (.transformer id rules scope))
    (hargs : args.ExistsIn s) (hfix : s.Fixes scope I) :
    let head : Value := .atom j (.symbol keyword)
    let use : Value := .pair i head args
    (∀ v t₁ w t₂, expand rules scope args (s.atUse use head) = .ok v t₁ →
      expand rules scope.global args s = .ok w t₂ → v.ReadsAlike l s scope I w) →
    RunsAlike s (fun depth => evaluate l (depth + 2) use scope s) fun depth =>
      (expand rules scope.global args >>= fun w => evaluate l depth w scope) s := by
  intro head use hreads
  have hextends : s.Extends (s.atUse use head) := s.extends_atUse use head
  have hrules : rules.Corresponds (below s.spans.size Set.univ) rules :=
    Value.corresponds_below
      (fun i hi => (hs.existsIn_of_lookup? hdefined).objects i (.inr hi)) fun f _ => Set.mem_univ f
  have hexpand : Outcome (below s.spans.size Set.univ) (Value.Resolved s scope) (s.atUse use head)
      (expand rules scope args (s.atUse use head)) (expand rules scope.global args s) :=
    simulatesIn_expand_global hrules hargs.corresponds _ _
      (hs.correspondsIn s.lasting_extends (.refl s) hextends)
  have hruns : (fun depth => evaluate l (depth + 2) use scope s) = fun depth =>
      Effect.inside use (expand rules scope args >>= fun v => evaluate l (depth + 1) v scope)
        (s.atUse use head) := funext fun depth => evaluate_use hkeyword hdefined i j depth args
  rw [hruns]
  cases hleft : expand rules scope args (s.atUse use head) with
  | ok v t₁ =>
    cases hright : expand rules scope.global args s with
    | ok w t₂ =>
      have halike := hreads v t₁ w t₂ hleft hright
      have hI := keeps_expand hfix.lasting rules scope args _ _ _
        (hfix.lasting _ _ hextends hfix.start) hleft
      have hI' := keeps_expand hfix.lasting rules scope.global args _ _ _ hfix.start hright
      rw [hleft, hright] at hexpand
      cases hexpand with
      | ok hgrows hstores hresolved =>
        have hafter := (hs.correspondsIn hfix.lasting hfix.start hextends).after hgrows hstores
          hI.2 hI'.2
        have hboth := halike.runsAlike hquote hs hfix hgrows.le hafter hresolved use
        rw [funext fun depth => inside_congr (bind_of_ok hleft _) use,
          funext fun depth => bind_of_ok hright _]
        exact hboth
    | error =>
      rw [hleft, hright] at hexpand
      cases hexpand
  | error stop t₁ =>
    obtain ⟨fault, rfl, -⟩ := failsAs_expand rules scope args _ stop t₁ hleft
    cases hright : expand rules scope.global args s with
    | ok =>
      rw [hleft, hright] at hexpand
      cases hexpand
    | error stop t₂ =>
      rw [hleft, hright] at hexpand
      cases hexpand with
      | failed hgrows hstores halike =>
        have hended : EndAlike s (.error (.failed (Failure.inside ⟨fault, []⟩ use)) t₁)
            (.error (.failed _) t₂) :=
          .failed hgrows.le hstores ((fault_inside _ use).symm ▸ halike)
        have hfail : ∀ depth, Effect.inside use
            (expand rules scope args >>= fun v => evaluate l (depth + 1) v scope)
              (s.atUse use head) = .error (.failed (Failure.inside ⟨fault, []⟩ use)) t₁ := by
          intro depth
          simp only [Effect.inside, EStateM.adaptExcept, bind_of_error hleft, Stop.inside]
        rw [funext hfail, funext fun depth => bind_of_error hright _]
        exact ⟨fun _ _ => hended, fun _ _ => hended⟩

/-- The scope of a procedure that was called. -/
def innerScope : Scope :=
  ⟨[1], 0⟩

/-- The one rule `((_) template)`. -/
def oneRule (template : Value) : Value :=
  .pair 0 .nil (.pair 1 (.pair 2 (.pair 3 (.atom 4 (.symbol "_")) .nil)
    (.pair 5 template .nil)) .nil)

/-- In the inner frame a name is bound, and `m` to the macro of one rule. -/
def innerStore (name : String) (value : Atom) (template : Value) : Store :=
  ⟨Array.replicate 20 none, #[[], [(name, .atom 6 value),
    ("m", .transformer 7 (oneRule template) innerScope)]], "", []⟩

/-- The template `(cons tag tag)`. -/
def consTags : Value :=
  .pair 8 (.atom 9 (.symbol "cons")) (.pair 10 (.atom 11 (.symbol "tag"))
    (.pair 12 (.atom 13 (.symbol "tag")) .nil))

/-- The template `(set! x 5)`. -/
def assignX : Value :=
  .pair 8 (.atom 9 (.symbol "set!")) (.pair 10 (.atom 11 (.symbol "x"))
    (.pair 12 (.atom 13 (.integer 5)) .nil))

/-- The use `(m)`. -/
def useOfM : Value :=
  .pair 14 (.atom 15 (.symbol "m")) .nil

theorem sound_innerStore_consTags : (innerStore "tag" (.symbol "local") consTags).Sound := by
  intro f entry hentry
  rcases f with _ | _ | f
  · simp [Store.bindings, innerStore] at hentry
  · have hcases : entry = ("tag", .atom 6 (.symbol "local")) ∨
        entry = ("m", .transformer 7 (oneRule consTags) innerScope) := by
      simpa [Store.bindings, innerStore] using hentry
    rcases hcases with rfl | rfl
    · refine ⟨fun i hi => ?_, fun g hg => hg.elim⟩
      simp [Value.HasObject] at hi
      simp [innerStore]
      omega
    · refine ⟨fun i hi => ?_, fun g hg => ?_⟩
      · simp [Value.HasObject, oneRule, consTags] at hi
        simp [innerStore]
        omega
      · simp [Value.HasFrame, oneRule, consTags, Scope.frames, innerScope] at hg
        simp [innerStore]
        omega
  · simp [Store.bindings, innerStore] at hentry

/-- With `tag` bound to the symbol `local` the use `(m)` of `((_) (cons tag tag))` gives
`(local . local)`. -/
theorem evaluate_use_runsAlike_cons :
    let s := innerStore "tag" (.symbol "local") consTags
    RunsAlike s (fun depth => evaluate .standard (depth + 2) useOfM innerScope s)
        (fun depth => (expand (oneRule consTags) innerScope.global .nil >>= fun w =>
          evaluate .standard depth w innerScope) s) ∧
      ((evaluate .standard 3 useOfM innerScope).run' s).map Value.text =
        some "(local . local)" := by
  intro s
  have hnil : Value.nil.ExistsIn s := ⟨nofun, nofun⟩
  refine ⟨evaluate_use_runsAlike 14 15 rfl rfl sound_innerStore_consTags rfl hnil
    (s.fixes_extends innerScope) fun v t₁ w t₂ hv hw => ?_, by decide +kernel⟩
  cases hv
  cases hw
  -- the expansions `(cons 'local 'local)` and `(cons tag tag)` differ in both operands
  have htag : s.lookup? innerScope "tag" = some (.atom 6 (.symbol "local")) := rfl
  have hfix := s.fixes_extends innerScope
  refine .operands rfl rfl rfl rfl rfl (.cons (.read (.quoted ⟨_, _, _, rfl⟩) (.name htag)
    (.inr rfl)) ?_ ?_ (.last (.read (.quoted ⟨_, _, _, rfl⟩) (.name htag) (.inr rfl)) rfl))
  · exact fun depth => Value.StandsFor.keeps rfl hfix (.quoted ⟨_, _, _, rfl⟩) depth
  · exact fun depth => Value.StandsFor.keeps rfl hfix (.name htag) depth

/-- **What stands for a value is no name.**  With `x` bound to `1` the use `(m)` of
`((_) (set! x 5))` fails, for it is expanded to `(set! 1 5)`; with the symbol left alone it assigns
to `x`. -/
theorem evaluate_use_assigning :
    let s := innerStore "x" (.integer 1) assignX
    Conclusion.faultKind? (evaluate .standard 3 useOfM innerScope s) = some .invalidForm ∧
      ((expand (oneRule assignX) innerScope.global .nil >>= fun w =>
        evaluate .standard 2 w innerScope).run' s).map Value.text = some "5" ∧
      ¬ RunsAlike s (fun depth => evaluate .standard (depth + 2) useOfM innerScope s)
        (fun depth => (expand (oneRule assignX) innerScope.global .nil >>= fun w =>
          evaluate .standard depth w innerScope) s) := by
  intro s
  have huse : Conclusion.faultKind? (evaluate .standard 3 useOfM innerScope s) =
      some .invalidForm := by decide +kernel
  have hleft : Conclusion.faultKind? ((expand (oneRule assignX) innerScope.global .nil >>= fun w =>
      evaluate .standard 2 w innerScope) s) = none := by decide +kernel
  refine ⟨huse, by decide +kernel, fun h => ?_⟩
  have hforth := h.forth (Nat.lt_succ_self 1) (Conclusion.ended_of_faultKind? huse)
  have hsame := huse.symm.trans (hforth.faultKind?_eq.trans hleft)
  cases hsame

end Lisp
