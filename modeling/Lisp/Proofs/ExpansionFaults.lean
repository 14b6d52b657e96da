/-
# How expanding a macro can fail

A macro can be refused for the form of its rules, and a use of it for matching none of them or for
what an ellipsis in the template is to repeat (`MacroFault`).  There are two more ways to go wrong
that never come about (`macro_fails_as_declared`).

A pattern with an ellipsis divides the elements of a list by counting them, from the front and from
the back.  `Pattern.matchAt?` is the matcher in these terms.  It gives up for good where there is no
element at a position, and never does: the elements are counted before any is taken
(`Pattern.matchAt?_eq`).  In the same way `sub ...` takes from each of its lists the element at the
index of the repetition, and the lists are of one length (`mapM_repetitionAt?`).

A template could ask for the value of a variable that is not bound.  But a context in which a part
of the template is instantiated is that of the match or that of a repetition in such a context
(`TemplateContext.Within`), and all of these bind the variables.
-/
import Lisp.Proofs.MatchFrame
import Mathlib.Data.Nat.PSub

namespace Lisp

open Effect

/-! ## 1. Matching by position -/

/-- **The part of a row from one position to another**, if the row has these positions. -/
def stretch? {α : Type} (row : List α) (start stop : Nat) : Option (List α) :=
  if start ≤ stop ∧ stop ≤ row.length then some (row.extract start stop) else none

theorem stretch?_of_le {α : Type} {row : List α} {start stop : Nat} (h : start ≤ stop)
    (hstop : stop ≤ row.length) : stretch? row start stop = some (row.extract start stop) :=
  if_pos ⟨h, hstop⟩

namespace Pattern

/-- **Matches what ends a list pattern with a chain from a position on.**  The outer result is none
if there is no such position. -/
def endingMatchAt? (ending : Option Leaf) (v : Value) (position : Nat) :
    Option (Option Captures) := do
  let left ← stretch? v.elements position v.elements.length
  match ending with
  | some (.variable name) => some (some [(name, .rest left v.ending)])
  | ending => some (endingMatch? ending (v.drop position))

mutual

/-- **The matcher by position.**  The outer result is none where a position is asked for that the
list does not have; the inner one is the match. -/
def matchAt? : Pattern → Value → Option (Option Captures)
  | .leaf single, v => some (leafMatch? single v)
  | .list parts ending, v =>
    let count := v.elements.length
    if count < parts.count then some none else do
      let own ← partsMatchAt? parts v.elements 0
      let last ← endingMatchAt? ending v (if parts.hasEllipsis then count else parts.count)
      some do
        let captures ← own
        let last ← last
        if parts.hasEllipsis then pure (captures ++ last) else pure (last ++ captures)

/-- **Matches the parts of a list pattern with a row from a position on.**  The parts after an
ellipsis are matched with the last elements, the repeated one with all those in between. -/
def partsMatchAt? : Parts → List Value → Nat → Option (Option Captures)
  | .stop, _, _ => some (some [])
  | .part first rest, row, position => do
    let item ← row[position]?
    let own ← matchAt? first item
    let others ← partsMatchAt? rest row (position + 1)
    some do
      let own ← own
      let others ← others
      pure (others ++ own)
  | .repeated item after, row, position => do
    let back ← row.length.psub after.count
    let others ← partsMatchAt? after row back
    let taken ← stretch? row position back
    let repetitions ← taken.mapM (matchAt? item)
    some do
      let others ← others
      let repetitions ← repetitions.mapM id
      pure (Captures.gather item.names repetitions ++ others)

end

theorem endingMatchAt?_eq (ending : Option Leaf) {v : Value} {position : Nat}
    (h : position ≤ v.elements.length) :
    endingMatchAt? ending v position = some (endingMatch? ending (v.drop position)) := by
  have hleft : v.elements.extract position v.elements.length = (v.drop position).elements := by
    rw [List.extract_eq_take_drop, Value.elements_drop]
    exact List.take_of_length_le (List.length_drop ..).le
  unfold endingMatchAt?
  rw [stretch?_of_le h le_rfl, hleft, ← Value.ending_drop v position]
  match ending with
  | some (.variable _) | none | some .wildcard | some (.literal _) | some (.constant _) => rfl

/-- A chain that the parts match has an element for each part that needs one. -/
theorem count_le_of_partsMatch? : ∀ {parts : Parts} {v left : Value} {captures : Captures},
    partsMatch? parts v = some (captures, left) → parts.count ≤ v.elements.length
  | .stop, _, _, _, _ => Nat.zero_le _
  | .part first rest, v, left, captures, h => by
    obtain ⟨id, head, tail, own, others, rfl, -, hrest, -⟩ := partsMatch?_part_iff.mp h
    exact Nat.succ_le_succ (count_le_of_partsMatch? hrest)
  | .repeated item after, v, left, captures, h => (partsMatch?_repeated_iff.mp h).1

mutual

/-- **Every position is there**, and matching by position is matching. -/
theorem matchAt?_eq : ∀ {p : Pattern}, p.Single → ∀ v, p.matchAt? v = some (p.match? v)
  | .leaf single, _, v => rfl
  | .list parts ending, hsingle, v => by
    rw [matchAt?, match?]
    dsimp only
    by_cases hcount : v.elements.length < parts.count
    · have hnone : partsMatch? parts v = none := by
        by_contra hsome
        obtain ⟨⟨captures, left⟩, h⟩ := Option.ne_none_iff_exists'.mp hsome
        exact absurd (count_le_of_partsMatch? h) (Nat.not_le.mpr hcount)
      rw [if_pos hcount, hnone]
      rfl
    · rw [if_neg hcount]
      have hcount := Nat.not_lt.mp hcount
      have hparts := partsMatchAt?_eq hsingle
        (show 0 + parts.count ≤ v.elements.length by simpa using hcount)
      rw [Value.drop_zero] at hparts
      -- what the matcher leaves of the chain is what is behind these positions
      have hleft : parts.remainder v =
          v.drop (if parts.hasEllipsis then v.elements.length else parts.count) := by
        unfold Parts.remainder
        split
        · rw [Value.drop_length_elements]
        · next h => rw [Parts.count_eq_length_fixed parts (by simpa using h)]
      have hbehind : (if parts.hasEllipsis then v.elements.length else parts.count) ≤
          v.elements.length := by
        split <;> [exact le_rfl; exact hcount]
      have hlast := endingMatchAt?_eq ending hbehind
      rw [hparts, hlast, ← hleft]
      cases h : partsMatch? parts v with
      | none => rfl
      | some result =>
        obtain ⟨captures, left⟩ := result
        obtain rfl := left_of_partsMatch? hsingle h
        rfl

theorem partsMatchAt?_eq : ∀ {parts : Parts}, parts.Single → ∀ {v : Value} {position : Nat},
    position + parts.count ≤ v.elements.length →
      partsMatchAt? parts v.elements position =
        some ((partsMatch? parts (v.drop position)).map (·.1))
  | .stop, _, v, position, _ => by simp [partsMatchAt?, partsMatch?]
  | .part first rest, hsingle, v, position, h => by
    rw [Parts.count] at h
    -- there is an element at the position, and the chain goes on behind it
    obtain ⟨id, head, tail, hdrop, htail⟩ : ∃ id head tail,
        v.drop position = .pair id head tail ∧ v.drop (position + 1) = tail := by
      have hlength : 0 < (v.drop position).elements.length := by
        rw [Value.elements_drop, List.length_drop]
        omega
      cases hv : v.drop position with
      | pair id head tail => exact ⟨id, head, tail, rfl, by
        rw [← Value.drop_drop, hv]
        exact tail.drop_zero⟩
      | _ => simp [hv, Value.elements] at hlength
    have hitem : v.elements[position]? = some head := by
      rw [← Nat.add_zero position, ← List.getElem?_drop, ← Value.elements_drop, hdrop]
      rfl
    have hrest := partsMatchAt?_eq hsingle.2
      (show position + 1 + rest.count ≤ v.elements.length by omega)
    rw [partsMatchAt?, hitem, hrest, htail, hdrop, partsMatch?]
    simp only [Option.bind_eq_bind, Option.bind_some, matchAt?_eq hsingle.1]
    cases match? first head <;> cases partsMatch? rest tail <;> rfl
  | .repeated item after, hsingle, v, position, h => by
    rw [Parts.count] at h
    have hafter := partsMatchAt?_eq hsingle.2.1
      (show v.elements.length - after.count + after.count ≤ v.elements.length by omega)
    have hpsub : v.elements.length.psub after.count = some (v.elements.length - after.count) :=
      Nat.psub_eq_sub (by omega)
    have hitems : ∀ taken : List Value,
        taken.mapM (matchAt? item) = some (taken.map (match? item)) := fun taken => by
      rw [funext (matchAt?_eq hsingle.1)]
      exact List.mapM_pure
    -- counted from the position on, the elements in between are those that are taken
    have hlength : (v.drop position).elements.length = v.elements.length - position := by
      rw [Value.elements_drop, List.length_drop]
    have hback : position + (v.elements.length - position - after.count) =
        v.elements.length - after.count := by omega
    have htaken : v.elements.extract position (v.elements.length - after.count) =
        (v.drop position).elements.take (v.elements.length - position - after.count) := by
      rw [List.extract_eq_take_drop, Value.elements_drop]
      congr 1
      omega
    have hstretch : stretch? v.elements position (v.elements.length - after.count) = some _ :=
      stretch?_of_le (by omega) (Nat.sub_le ..)
    rw [partsMatchAt?, partsMatch?, hpsub]
    simp only [Option.bind_eq_bind, Option.bind_some, hafter, hitems, hlength, Value.drop_drop,
      hback, hstretch, htaken, List.mapM_map]
    rw [if_neg (by omega), Function.id_comp]
    cases partsMatch? after (v.drop (v.elements.length - after.count)) with
    | none => rfl
    | some result =>
      cases List.mapM (match? item) ((v.drop position).elements.take _) <;> rfl

end

end Pattern

/-! ## 2. Repeating by index -/

/-- **The context of the repetition with this index**, if each column has an element there. -/
def TemplateContext.repetitionAt? (c : TemplateContext) (names : List String)
    (columns : List (List Value)) (index : Nat) : Option TemplateContext :=
  (columns.mapM (·[index]?)).map (c.repetition names)

/-- **How often** `sub ...` is repeated: as often as the first of its lists has elements. -/
def repetitionCount (columns : List (List Value)) : Nat :=
  (columns.head?.map List.length).getD 0

/-- The heads of columns that are not empty. -/
theorem mapM_getElem?_zero {columns : List (List Value)} (h : ∀ column ∈ columns, column ≠ []) :
    columns.mapM (·[0]?) = some (columns.filterMap List.head?) := by
  rw [mapM_eq_some_iff]
  induction columns with
  | nil => exact .nil
  | cons column columns ih =>
    obtain ⟨value, rest, rfl⟩ := List.exists_cons_of_ne_nil (h column List.mem_cons_self)
    exact .cons rfl (ih fun other hother => h other (List.mem_cons_of_mem _ hother))

/-- **Every index is there** in columns of one length, and repeating by index is repeating. -/
theorem TemplateContext.mapM_repetitionAt? (c : TemplateContext) (names : List String)
    {count : Nat} {columns : List (List Value)} (h : ∀ column ∈ columns, column.length = count) :
    (List.range count).mapM (c.repetitionAt? names columns) =
      some (c.repetitions names count columns) := by
  induction count generalizing columns with
  | zero => rfl
  | succ count ih =>
    have hne : ∀ column ∈ columns, column ≠ [] := fun column hcolumn =>
      List.ne_nil_of_length_eq_add_one (h column hcolumn)
    have hfirst : c.repetitionAt? names columns 0 =
        some (c.repetition names (columns.filterMap List.head?)) := by
      rw [repetitionAt?, mapM_getElem?_zero hne, Option.map_some]
    have htails : ∀ column ∈ columns.map List.tail, column.length = count := by
      intro column hcolumn
      obtain ⟨whole, hwhole, rfl⟩ := List.mem_map.mp hcolumn
      rw [List.length_tail, h whole hwhole, Nat.add_sub_cancel]
    -- what is at the next index of a column is at this index of its tail
    have hnext : c.repetitionAt? names columns ∘ Nat.succ =
        c.repetitionAt? names (columns.map List.tail) := by
      funext index
      simp [repetitionAt?, List.mapM_map, Function.comp_def]
    rw [List.range_succ_eq_map, List.mapM_cons, List.mapM_map, hnext, hfirst, ih htails]
    rfl

namespace Template

variable {c : TemplateContext} {sub : Value}

/-- What the driving variables stand for are lists of one length. -/
theorem length_of_columns {names : List String} {length : Option Nat} {s s' : Store}
    {lists : List (List Value)} (h : columns c sub length names s = .ok lists s') :
    ∃ count, (∀ list ∈ lists, list.length = count) ∧ ∀ n ∈ length, lists = [] ∨ n = count := by
  induction names generalizing length s lists with
  | nil =>
    cases h
    exact ⟨0, fun _ hlist => absurd hlist List.not_mem_nil, fun _ _ => .inl rfl⟩
  | cons name names ih =>
    rw [columns] at h
    cases hvalue : c.lookup name s with
    | error _ s₁ =>
      rw [bind_of_error hvalue] at h
      cases h
    | ok value s₁ =>
      rw [bind_of_ok hvalue] at h
      split at h
      · cases h
      · next hlength =>
        cases hothers : columns c sub (some value.elements.length) names s₁ with
        | error _ s₂ =>
          rw [bind_of_error hothers] at h
          cases h
        | ok others s₂ =>
          rw [bind_of_ok hothers] at h
          cases h
          obtain ⟨count, hcount, hsame⟩ := ih hothers
          refine ⟨value.elements.length, fun list hlist => ?_, fun n hn => .inr ?_⟩
          · rcases List.mem_cons.mp hlist with rfl | hlist
            · rfl
            · rcases hsame _ rfl with rfl | heq
              · cases hlist
              · rw [hcount list hlist, heq]
          · rw [hn] at hlength
            simpa using hlength

/-- **Where `sub ...` can be repeated**, every index is there in each of its columns. -/
theorem mapM_repetitionAt?_of_columns {s s' : Store} {lists : List (List Value)}
    (h : columns c sub none (driving c sub) s = .ok lists s') :
    (List.range (repetitionCount lists)).mapM (c.repetitionAt? (driving c sub) lists) =
      some (c.repetitions (driving c sub) (repetitionCount lists) lists) := by
  obtain ⟨count, hcount, -⟩ := length_of_columns h
  refine c.mapM_repetitionAt? _ fun list hlist => ?_
  cases lists with
  | nil => cases hlist
  | cons first rest =>
    rw [hcount list hlist, ← hcount first List.mem_cons_self]
    rfl

end Template

/-! ## 3. Where the parts of a template are instantiated -/

/-- **The context is that of a match or that of a repetition**, of whatever `sub ...`, in such a
context. -/
inductive TemplateContext.Within (start : TemplateContext) : TemplateContext → Prop where
  | start : Within start start
  | repetition {c c' sub contexts s s'} (h : Within start c)
    (hrun : Template.expandRepetition c sub s = .ok contexts s') (hc' : c' ∈ contexts) :
    Within start c'

theorem TemplateContext.Within.covered {start c : TemplateContext} {scope : Scope}
    (h : start.Within c) (hstart : start.Covered scope) : c.Covered scope := by
  induction h with
  | start => exact hstart
  | repetition _ hrun hc' ih =>
    obtain ⟨values, rfl⟩ := Template.exists_repetition_of_expandRepetition hrun hc'
    exact ih.repetition _ values

/-- **A context in which templates find what they look for.** -/
structure TemplateContext.Complete (c : TemplateContext) : Prop where
  /-- A variable is bound in the frame of the match or in that of a repetition. -/
  bound : ∀ name, (c.depths.lookup name).isSome → (c.bound.find? name).isSome
  /-- So are the variables that drive a repetition, and they have an ellipsis to go. -/
  driving : ∀ sub, ∀ name ∈ Template.driving c sub,
    (c.bound.find? name).isSome ∧ ∃ depth, c.depths.lookup name = some (depth + 1)
  /-- A repetition has its element in each of the columns. -/
  columns : ∀ sub s lists s', Template.columns c sub none (Template.driving c sub) s =
      .ok lists s' →
    (List.range (repetitionCount lists)).mapM (c.repetitionAt? (Template.driving c sub) lists) =
      some (c.repetitions (Template.driving c sub) (repetitionCount lists) lists)

theorem TemplateContext.Covered.complete {c : TemplateContext} {scope : Scope}
    (h : c.Covered scope) : c.Complete where
  bound := h.bound
  driving sub name hname := by
    refine ⟨h.bound name (Template.covered_of_mem_driving hname), ?_⟩
    rw [Template.driving, List.mem_filter] at hname
    cases hdepth : c.depths.lookup name with
    | none => simp [hdepth] at hname
    | some depth =>
      cases depth with
      | zero => simp [hdepth] at hname
      | succ depth => exact ⟨depth, rfl⟩
  columns _ _ _ _ h := Template.mapM_repetitionAt?_of_columns h

/-! ## 4. The ways to fail -/

/-- **What can be wrong with a use of a macro.** -/
inductive UseFault (args : Value) : Fault → Prop where
  | noRuleMatched : UseFault args (.noRuleMatched args)
  | repetition {fault} (h : Template.RepetitionFault fault) : UseFault args fault

theorem UseFault.kind {args : Value} {fault : Fault} (h : UseFault args fault) :
    fault.kind = .macroMatch ∨ fault.kind = .invalidForm := by
  cases h with
  | noRuleMatched => exact .inl rfl
  | repetition h =>
    cases h with
    | unequalRepetitions => exact .inl rfl
    | noEllipsisVariable => exact .inr rfl

/-- **A template whose variables are bound fails over a repetition only.** -/
theorem Template.fails_coveredSteps {P : Fault → Prop} (scope : Scope)
    (hP : ∀ fault, RepetitionFault fault → P fault) : CoveredStepsAre scope (FailsAs P) where
  pure := failsAs_pure
  bind := .bind_of_ok
  readLocal _ _ _ hnext := fun s => hnext s s
  fail h := failsAs_fail (hP _ h)
  record := failsAs_record
  toBindings _ := failsAs_modifyGet _
  newQuote _ := failsAs_modifyGet _
  finish _ _ _ := failsAs_modifyGet _

/-- **A macro is made from its body, or refused** for the fault of its rules. -/
theorem newTransformer_cases (body : Value) (scope : Scope) (s : Store) :
    (∃ t id s', Transformer.ofBody body = .ok t ∧
      newTransformer body scope s = .ok (.transformer id body scope) s') ∨
    ∃ fault s', newTransformer body scope s = .error (.failed ⟨.rules fault, []⟩) s' := by
  unfold newTransformer Transformer.ofBody
  obtain ⟨seen, outcome⟩ := Transformer.compileBody body
  obtain ⟨_, s₁, hrecorded, -⟩ := quiet_forIn_record
    (fun rule : Value × Value => .ruleMade rule.1 rule.2) seen s
  dsimp only
  rw [bind_of_ok hrecorded]
  cases outcome with
  | ok t => exact .inl ⟨t, s₁.spans.size, _, rfl, rfl⟩
  | error fault => exact .inr ⟨fault, s₁, rfl⟩

/-- **A use of a macro fails in the declared ways only.** -/
theorem failsAs_useFault {body : Value} {t : Transformer} (h : Transformer.ofBody body = .ok t)
    (scope : Scope) (args : Value) : FailsAs (UseFault args) (Effect.expand body scope args) := by
  have hsteps : Template.CoveredStepsAre scope (FailsAs (UseFault args)) :=
    Template.fails_coveredSteps scope fun _ => .repetition
  rw [expand_of_ofBody h]
  exact hsteps.expandRules (failsAs_fail .noRuleMatched) t.rules

/-- **Macros fail in the declared ways only.**  Making one gives a macro or fails with a fault of
its rules.  Where it gives one, every position that its patterns count to is there in every
argument; expanding a use gives a form, or fails because no rule matches or over a repetition; and
in every context that a part of the template of a matching rule is instantiated in, its variables
are bound and the columns of a repetition have its index. -/
theorem macro_fails_as_declared (body : Value) :
    (∀ scope s,
      (∃ t id s', Transformer.ofBody body = .ok t ∧
        newTransformer body scope s = .ok (.transformer id body scope) s') ∨
      ∃ fault s', newTransformer body scope s = .error (.failed ⟨.rules fault, []⟩) s' ∧
        (Fault.rules fault).kind = .invalidForm) ∧
    ∀ t, Transformer.ofBody body = .ok t →
      (∀ rule ∈ t.rules, ∀ v, rule.pattern.matchAt? v = some (rule.pattern.match? v)) ∧
      ∀ scope args s,
        ((∃ v s', Effect.expand body scope args s = .ok v s') ∨
          ∃ fault s', Effect.expand body scope args s = .error (.failed ⟨fault, []⟩) s' ∧
            UseFault args fault ∧ (fault.kind = .macroMatch ∨ fault.kind = .invalidForm)) ∧
        ∀ rule ∈ t.rules, ∀ captures, rule.pattern.match? args = some captures →
          ∀ c, TemplateContext.Within ⟨(captures.toBindings s).1, rule.pattern.depths 0, scope⟩ c →
            c.Complete := by
  refine ⟨fun scope s => ?_, fun t ht => ⟨fun rule hrule v => ?_, fun scope args s => ⟨?_, ?_⟩⟩⟩
  · rcases newTransformer_cases body scope s with hmade | ⟨fault, s', hrefused⟩
    · exact .inl hmade
    · exact .inr ⟨fault, s', hrefused, rfl⟩
  · exact Pattern.matchAt?_eq (Transformer.single_of_mem_rules ht hrule) v
  · cases hrun : Effect.expand body scope args s with
    | ok v s' => exact .inl ⟨v, s', rfl⟩
    | error stop s' =>
      obtain ⟨fault, rfl, hfault⟩ := failsAs_useFault ht scope args s stop s' hrun
      exact .inr ⟨fault, s', rfl, hfault, hfault.kind⟩
  · intro rule _ captures hmatch c hc
    exact (hc.covered (covered_of_match? hmatch s scope)).complete

/-- What follows the word `syntax-rules` in
`(syntax-rules () ((_ (x y ...) ... z . r) (z (x y ...) ... . r)))`. -/
def nestedRules : Value :=
  let symbol (name : String) : Value := .atom 0 (.symbol name)
  let row (last : String) : Value := .chain [symbol "x", symbol last, symbol "..."] .nil
  .chain
    [.nil,
      .chain
        [.chain [symbol "_", row "y", symbol "...", symbol "z"] (symbol "r"),
          .chain [symbol "z", row "y", symbol "..."] (symbol "r")] .nil] .nil

/-- This macro is made, and a use of it on an improper list matches, with nothing for the outer
ellipsis and then with a row for it whose own ellipsis matched nothing. -/
theorem nestedRules_fails_as_declared :
    ∃ t rule, Transformer.ofBody nestedRules = .ok t ∧ t.rules = [rule] ∧
      (∀ v, rule.pattern.matchAt? v = some (rule.pattern.match? v)) ∧
      ∀ args ∈ [Value.chain [.nil] (.atom 0 (.boolean true)),
          Value.chain [.chain [.nil] .nil, .nil] .nil],
        ∃ captures, rule.pattern.match? args = some captures ∧
          TemplateContext.Complete ⟨(captures.toBindings .empty).1, rule.pattern.depths 0,
            .ofRoot 0⟩ := by
  refine ⟨_, _, rfl, rfl, fun v => ?_, fun args hargs => ?_⟩
  · exact ((macro_fails_as_declared nestedRules).2 _ rfl).1 _ List.mem_cons_self v
  · have hcontexts := fun captures hmatch =>
      (((macro_fails_as_declared nestedRules).2 _ rfl).2 (.ofRoot 0) args .empty).2 _
        List.mem_cons_self captures hmatch _ .start
    rcases List.mem_cons.mp hargs with rfl | hargs
    · exact ⟨_, rfl, hcontexts _ rfl⟩
    · obtain rfl := List.mem_singleton.mp hargs
      exact ⟨_, rfl, hcontexts _ rfl⟩

end Lisp
