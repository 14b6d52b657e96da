/-
# Which rule is chosen

A use of a macro is matched with the patterns of its rules in the order written.  The template of
the first one that matches is instantiated (`expand_of_first_match`), with what the variables of
that pattern captured and nothing of what an earlier pattern captured before it failed.  If none
matches the use fails (`expand_of_no_match`); and this is the only way it can fail with that fault,
for instantiating a template fails in other ways (`Template.fails_steps`).
-/
import Lisp.Proofs.Capturing
import Lisp.Proofs.Effects

namespace Lisp

/-! ## 1. Templates, element by element -/

namespace Template

variable {c : TemplateContext} {head tail after : Value} {id : Nat}

/-- An element that an ellipsis follows is instantiated once in each of its contexts. -/
theorem instantiateList_repeated (h : tail.afterEllipsis? = some after) :
    instantiateList (.pair id head tail) c = (do
      let contexts ← expandRepetition c head
      let items ← contexts.mapM fun c => instantiateElement c head (instantiateList head c)
      let (others, ending) ← instantiateList after c
      pure (items ++ others, ending)) := by
  obtain ⟨_, dots, rfl, hdots⟩ := Value.afterEllipsis?_eq_some_iff.mp h
  rw [instantiateList.eq_2, if_pos hdots]

/-- An element that none follows is instantiated where it stands. -/
theorem instantiateList_item (h : tail.afterEllipsis? = none) :
    instantiateList (.pair id head tail) c = (do
      let item ← instantiateElement c head (instantiateList head c)
      let (others, ending) ← instantiateList tail c
      pure (item :: others, ending)) := by
  cases tail with
  | pair _ next after =>
    rw [instantiateList.eq_2, if_neg (Value.afterEllipsis?_pair_eq_none_iff.mp h)]
  | _ => rfl

theorem instantiateList_indivisible {v : Value} (h : v.Indivisible) :
    instantiateList v c = (do
      let value ← instantiateLeaf c v
      pure ([], value)) := by
  cases v with
  | nil => cases h.1
  | pair => cases h.2
  | _ => rfl

end Template

/-! ## 2. How a template can fail -/

/-- **What can be wrong with a template in use.** -/
inductive TemplateFault : Fault → Prop where
  | unbound (name : String) : TemplateFault (.unbound name)
  | unequalRepetitions (sub : Value) : TemplateFault (.unequalRepetitions sub)
  | noEllipsisVariable (sub : Value) : TemplateFault (.rules (.noEllipsisVariable sub))

namespace Template

open Effect

/-- **The steps that instantiate a template are of this kind**, and so is one after another. -/
structure StepsAre (P : ∀ {α : Type}, Effect α → Prop) : Prop where
  pure : ∀ {α : Type} (a : α), P (pure a : Effect α)
  bind : ∀ {α β : Type} {effect : Effect α} {next : α → Effect β}, P effect → (∀ a, P (next a)) →
    P (effect >>= next)
  get : P (get : Effect Store)
  fail : ∀ {α : Type} {fault : Fault}, TemplateFault fault → P (fail fault : Effect α)
  record : ∀ e, P (record e)
  toBindings : ∀ captures : Captures, P (modifyGet captures.toBindings : Effect Bindings)
  newQuote : ∀ v, P (modifyGet (·.newQuote v) : Effect Value)
  finish : ∀ template items ending, P (finish template items ending)

namespace StepsAre

variable {P : ∀ {α : Type}, Effect α → Prop} (h : StepsAre P)

include h

theorem mapM {α β : Type} {f : α → Effect β} (hf : ∀ a, P (f a)) (as : List α) :
    P (as.mapM f) := by
  induction as with
  | nil =>
    rw [List.mapM_nil]
    exact h.pure _
  | cons a as ih =>
    rw [List.mapM_cons]
    exact h.bind (hf a) fun _ => h.bind ih fun _ => h.pure _

theorem lookup (c : TemplateContext) (name : String) : P (c.lookup name) := by
  unfold TemplateContext.lookup
  split
  · exact h.pure _
  · refine h.bind h.get fun s => ?_
    split
    · exact h.pure _
    · exact h.fail (.unbound name)

theorem instantiateLeaf (c : TemplateContext) (template : Value) :
    P (instantiateLeaf c template) := by
  unfold Template.instantiateLeaf
  split
  · exact h.pure _
  · next name _ =>
    split
    · exact h.lookup c name
    · refine h.bind h.get fun s => ?_
      split
      · exact h.pure _
      · refine h.bind (h.record _) fun _ => ?_
        unfold embed
        split
        · exact h.newQuote _
        · exact h.pure _

theorem columns (c : TemplateContext) (sub : Value) (names : List String) :
    ∀ length, P (columns c sub length names) := by
  induction names with
  | nil => exact fun _ => h.pure _
  | cons name names ih =>
    intro length
    refine h.bind (h.lookup c name) fun value => ?_
    dsimp only
    split
    · exact h.fail (.unequalRepetitions sub)
    · exact h.bind (ih _) fun _ => h.pure _

theorem expandRepetition (c : TemplateContext) (sub : Value) : P (expandRepetition c sub) := by
  unfold Template.expandRepetition
  dsimp only
  split
  · exact h.fail (.noEllipsisVariable sub)
  · exact h.bind (h.columns c sub _ none) fun _ => h.bind (h.record _) fun _ => h.pure _

theorem instantiateElement (c : TemplateContext) (template : Value)
    {asList : Effect (List Value × Value)} (hlist : P asList) :
    P (instantiateElement c template asList) := by
  unfold Template.instantiateElement
  split
  · split
    · exact h.pure _
    · exact h.bind hlist fun _ => h.finish _ _ _
  · exact h.instantiateLeaf c _

theorem instantiateList (template : Value) (c : TemplateContext) :
    P (instantiateList template c) := by
  match template with
  | .nil => exact h.pure _
  | .pair id head tail =>
    have hhead : ∀ c, P (Template.instantiateElement c head (Template.instantiateList head c)) :=
      fun c => h.instantiateElement c head (instantiateList head c)
    cases htail : tail.afterEllipsis? with
    | some after =>
      have hsize := Value.sizeOf_afterEllipsis? htail
      rw [instantiateList_repeated htail]
      exact h.bind (h.expandRepetition c head) fun contexts =>
        h.bind (h.mapM hhead contexts) fun _ =>
          h.bind (instantiateList after c) fun _ => h.pure _
    | none =>
      rw [instantiateList_item htail]
      exact h.bind (hhead c) fun _ => h.bind (instantiateList tail c) fun _ => h.pure _
  | .atom .. | .procedure .. | .transformer .. | .formMarker .. | .hostMarker .. =>
    rw [instantiateList_indivisible ⟨rfl, rfl⟩]
    exact h.bind (h.instantiateLeaf c _) fun _ => h.pure _
termination_by sizeOf template

theorem instantiate (c : TemplateContext) (template : Value) : P (instantiate c template) :=
  h.instantiateElement c template (h.instantiateList template c)

theorem ruleInstantiate (rule : Rule) (scope : Scope) (args : Value) (captures : Captures) :
    P (rule.instantiate scope args captures) :=
  h.bind (h.toBindings captures) fun _ => h.bind (h.instantiate _ _) fun _ =>
    h.bind (h.record _) fun _ => h.pure _

/-- **Expanding a use** takes these steps too, or fails for want of rules. -/
theorem expand (hfail : ∀ fault, P (Effect.fail fault : Effect Value)) (rules : Value)
    (scope : Scope) (args : Value) : P (expand rules scope args) := by
  unfold Effect.expand
  split
  · exact hfail _
  · next transformer _ =>
    induction transformer.rules with
    | nil => exact hfail _
    | cons rule rest ih =>
      unfold Transformer.expand
      split
      · exact ih
      · exact h.ruleInstantiate rule scope args _

end StepsAre

/-- **A template in use fails in these ways only**; in particular, never for want of a rule. -/
theorem fails_steps {P : Fault → Prop} (hP : ∀ fault, TemplateFault fault → P fault) :
    StepsAre (FailsAs P) :=
  ⟨failsAs_pure, .bind, failsAs_get, fun h => failsAs_fail (hP _ h), failsAs_record,
    fun _ => failsAs_modifyGet _, fun _ => failsAs_modifyGet _, fun _ _ _ => failsAs_modifyGet _⟩

end Template

/-! ## 3. Choosing a rule -/

namespace Transformer

variable {scope : Scope} {args : Value}

/-- **Rules that do not match are passed over.** -/
theorem expand_append {before : List Rule} (h : ∀ r ∈ before, r.pattern.match? args = none)
    (rest : List Rule) : expand scope args (before ++ rest) = expand scope args rest := by
  induction before with
  | nil => rfl
  | cons r before ih =>
    rw [List.cons_append, expand, h r List.mem_cons_self]
    exact ih fun r hr => h r (List.mem_cons_of_mem _ hr)

/-- **The first rule that matches** is the one that is instantiated. -/
theorem expand_of_first_match {before : List Rule} {rule : Rule} {captures : Captures}
    (hbefore : ∀ r ∈ before, r.pattern.match? args = none)
    (hrule : rule.pattern.match? args = some captures) (after : List Rule) :
    expand scope args (before ++ rule :: after) = rule.instantiate scope args captures := by
  rw [expand_append hbefore, expand, hrule]

/-- **Where no rule matches**, that is the fault. -/
theorem expand_of_no_match {rules : List Rule} (h : ∀ r ∈ rules, r.pattern.match? args = none) :
    expand scope args rules = Effect.fail (.noRuleMatched args) := by
  rw [← List.append_nil rules, expand_append h, expand]

/-- **A use of a transformer** fails for want of a rule if and only if none of the rules matches. -/
theorem expand_noRuleMatched_iff {rules : List Rule} {s : Store} :
    (∃ s', expand scope args rules s = .error (.failed ⟨.noRuleMatched args, []⟩) s') ↔
      ∀ r ∈ rules, r.pattern.match? args = none := by
  constructor
  · rintro ⟨s', herror⟩
    by_contra hsome
    -- the first rule that matches would have been instantiated, which does not fail this way
    obtain ⟨before, rule, after, rfl, hrule, hbefore⟩ :
        ∃ before rule after, rules = before ++ rule :: after ∧
          (rule.pattern.match? args).isSome ∧ ∀ r ∈ before, r.pattern.match? args = none := by
      have hfind : (rules.find? fun r => (r.pattern.match? args).isSome).isSome := by
        simpa [Option.isSome_iff_ne_none] using hsome
      obtain ⟨rule, hrule⟩ := Option.isSome_iff_exists.mp hfind
      obtain ⟨hmatch, before, after, hrules, hbefore⟩ := List.find?_eq_some_iff_append.mp hrule
      exact ⟨before, rule, after, hrules, hmatch, fun r hr => by simpa using hbefore r hr⟩
    obtain ⟨captures, hcaptures⟩ := Option.isSome_iff_exists.mp hrule
    rw [expand_of_first_match hbefore hcaptures] at herror
    obtain ⟨fault, hstop, hfault⟩ :=
      (Template.fails_steps fun _ => id).ruleInstantiate rule scope args captures s _ s' herror
    cases hstop
    cases hfault
  · intro h
    rw [expand_of_no_match h]
    exact ⟨s, rfl⟩

end Transformer

theorem Pattern.match?_eq_none_iff {p : Pattern} (hp : p.Single) (v : Value) :
    p.match? v = none ↔ ¬ p.Matches v := by
  rw [← Pattern.isSome_match? hp v, Option.not_isSome_iff_eq_none]

theorem Transformer.single_of_mem_rules {body : Value} {t : Transformer} {rule : Rule}
    (h : Transformer.ofBody body = .ok t) (hrule : rule ∈ t.rules) : rule.pattern.Single := by
  obtain ⟨args, hargs⟩ := Transformer.compile_of_mem_rules h hrule
  exact single_of_compile hargs

theorem expand_of_ofBody {body : Value} {t : Transformer} (h : Transformer.ofBody body = .ok t)
    (scope : Scope) (args : Value) :
    Effect.expand body scope args = Transformer.expand scope args t.rules := by
  rw [Effect.expand, h]

theorem text_noRuleMatched (args : Value) :
    (Fault.noRuleMatched args).text = "MacroMatch: no rule matched " ++ args.text := by
  have hmessage : (Fault.noRuleMatched args).message = "no rule matched " ++ args.text := rfl
  have hkind : (Fault.noRuleMatched args).kind.name = "MacroMatch" := rfl
  have hne : ¬ ("no rule matched " ++ args.text).isEmpty := by
    rw [String.isEmpty_iff]
    intro hempty
    exact absurd (String.append_eq_empty_iff.mp hempty).1 (by simp)
  rw [Fault.text, hmessage, if_neg hne, hkind, ← String.append_assoc]
  simp

/-- **The rules are those of the body, in the order written.  The first one that matches is
instantiated**, with what its variables capture: every name of the pattern has a capture, no other
name has, and where no name is written twice it is what stands at the place of the name.  **The use
fails for want of a rule exactly if none matches.** -/
theorem expand_selects_rule {body : Value} {t : Transformer}
    (h : Transformer.ofBody body = .ok t) (scope : Scope) (args : Value) :
    (∃ id literals rules, body = .pair id literals rules ∧ t.WrittenAs literals rules) ∧
    (∀ before rule after, t.rules = before ++ rule :: after →
      (∀ r ∈ before, ¬ r.pattern.Matches args) → rule.pattern.Matches args →
      ∃ captures : Captures,
        Effect.expand body scope args = rule.instantiate scope args captures ∧
        (∀ x, (captures.find? x).isSome ↔ x ∈ rule.pattern.names) ∧
        (rule.pattern.Linear →
          ∀ x c, captures.find? x = some c ↔ rule.pattern.Captured x args c)) ∧
    (∀ s, (∃ s', Effect.expand body scope args s =
        .error (.failed ⟨.noRuleMatched args, []⟩) s') ↔
      ∀ r ∈ t.rules, ¬ r.pattern.Matches args) ∧
    (Fault.noRuleMatched args).text = "MacroMatch: no rule matched " ++ args.text := by
  rw [expand_of_ofBody h]
  refine ⟨Transformer.writtenAs_of_ofBody h, fun before rule after hrules hbefore hrule => ?_,
    fun s => ?_, text_noRuleMatched args⟩
  · have single_of_mem : ∀ r ∈ before ++ rule :: after, r.pattern.Single := fun r hr =>
      Transformer.single_of_mem_rules h (hrules ▸ hr)
    have hsingle := single_of_mem rule (by simp)
    obtain ⟨captures, hcaptures⟩ :=
      Option.isSome_iff_exists.mp ((Pattern.isSome_match? hsingle args).mpr hrule)
    have hnone : ∀ r ∈ before, r.pattern.match? args = none := fun r hr =>
      (Pattern.match?_eq_none_iff (single_of_mem r (by simp [hr])) args).mpr (hbefore r hr)
    rw [hrules, Transformer.expand_of_first_match hnone hcaptures]
    exact ⟨captures, rfl, Pattern.isSome_find?_of_match? hcaptures,
      fun hlinear => Pattern.find?_eq_some_iff hsingle hlinear hcaptures⟩
  · rw [Transformer.expand_noRuleMatched_iff]
    exact forall₂_congr fun r hr =>
      Pattern.match?_eq_none_iff (Transformer.single_of_mem_rules h hr) args

/-- What follows the word `syntax-rules` in `(syntax-rules () ((_ a) a) ((_ a b ...) b))`. -/
def restRules : Value :=
  let symbol (name : String) : Value := .atom 0 (.symbol name)
  .chain
    [.nil,
      .chain [.chain [symbol "_", symbol "a"] .nil, symbol "a"] .nil,
      .chain [.chain [symbol "_", symbol "a", symbol "b", symbol "..."] .nil, symbol "b"] .nil] .nil

/-- A list of three does not match `(a)`; it matches `(a b ...)`, and `b` captures the last two.  So
it is expanded to the list of these, and not to its first element. -/
theorem expand_selects_second_rule :
    ∃ t first second, Transformer.ofBody restRules = .ok t ∧ t.rules = [first, second] ∧
      (∃ captures : Captures,
        Effect.expand restRules (.ofRoot 0) restRules =
          second.instantiate (.ofRoot 0) restRules captures ∧
        captures.find? "b" = some (.many (restRules.elements.tail.map .one))) ∧
      ∀ s, ∃ v s', Effect.expand restRules (.ofRoot 0) restRules s = .ok v s' ∧
        v.isList = true ∧ v.elements = restRules.elements.tail := by
  refine ⟨_, _, _, rfl, rfl, ?_, fun s => ⟨_, _, rfl, rfl, rfl⟩⟩
  have hbody : Transformer.ofBody restRules = .ok _ := rfl
  have hfirst := Transformer.single_of_mem_rules hbody List.mem_cons_self
  have hsecond := Transformer.single_of_mem_rules hbody (List.mem_cons_of_mem _ List.mem_cons_self)
  obtain ⟨captures, hexpand, -, hcaptures⟩ :=
    (expand_selects_rule hbody (.ofRoot 0) restRules).2.1 [_] _ [] rfl
      (List.forall_mem_singleton.mpr ((Pattern.match?_eq_none_iff hfirst _).mp rfl))
      ((Pattern.isSome_match? hsecond _).mp rfl)
  have hlinear : ["b", "a"].Nodup := by decide
  refine ⟨captures, hexpand, (hcaptures hlinear "b" _).mpr ?_⟩
  refine Pattern.captured_list_iff.mpr (.inl (Pattern.captured_part_iff.mpr (.inr ?_)))
  refine (Pattern.captured_repeated_iff rfl (Nat.zero_le _)).mpr (.inl ?_)
  exact ⟨List.mem_singleton_self _, _, rfl, .cons .variable (.cons .variable .nil)⟩

end Lisp
