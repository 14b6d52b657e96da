/-
# What is written for a pattern

Compiling fails only where ellipses are misplaced.  Where it does not, the datum and the pattern
have the same shape, and `CompilesParts` says so: one constructor for each kind of part, with
nothing left of the order in which the compiler looks at things.  Whatever holds of compiled
patterns is proved by going along this relation; first of all that each list of such a pattern has
one ellipsis at most (`single_of_compile`).
-/
import Lisp.Macro.Transformer
import Lisp.Proofs.Trees
import Mathlib.Data.List.Forall2

namespace Lisp

/-- **The result of two steps that can fail**, when neither does. -/
theorem bind_eq_ok_iff {ε α β : Type} {x : Except ε α} {f : α → Except ε β} {b : β} :
    x >>= f = .ok b ↔ ∃ a, x = .ok a ∧ f a = .ok b := by
  cases x with
  | error e => simp [bind, Except.bind]
  | ok a => simp [bind, Except.bind]

namespace Pattern

variable {literals : List String} {whole head tail after : Value} {seen : Bool} {id : Nat}

/-- An element that an ellipsis follows. -/
theorem compileParts_repeated (h : tail.afterEllipsis? = some after) :
    compileParts literals whole seen (.pair id head tail) = (do
      let first ← compileElement literals head (compileParts literals head false head)
      if seen then .error (.secondEllipsis whole) else
      let (after, ending) ← compileParts literals whole true after
      pure (.repeated first after, ending)) := by
  obtain ⟨_, dots, rfl, hdots⟩ := Value.afterEllipsis?_eq_some_iff.mp h
  rw [compileParts.eq_2]
  simp only [if_pos hdots]

/-- An element that none follows. -/
theorem compileParts_part (h : tail.afterEllipsis? = none) :
    compileParts literals whole seen (.pair id head tail) = (do
      let first ← compileElement literals head (compileParts literals head false head)
      let (rest, ending) ← compileParts literals whole seen tail
      pure (.part first rest, ending)) := by
  rw [compileParts.eq_2]
  cases tail with
  | pair id next after =>
    simp only [if_neg (Value.afterEllipsis?_pair_eq_none_iff.mp h)]
  | _ => rfl

theorem compileParts_indivisible {v : Value} (h : v.Indivisible) :
    compileParts literals whole seen v = (do
      let last ← compileLeaf literals v
      pure (.stop, some last)) := by
  cases v with
  | nil => cases h.1
  | pair => cases h.2
  | _ => rfl

theorem compileElement_indivisible {v : Value} (h : v.Indivisible)
    (asList : Except RuleFault (Parts × Option Leaf)) :
    compileElement literals v asList = (do
      let single ← compileLeaf literals v
      pure (.leaf single)) := by
  cases v with
  | nil => cases h.1
  | pair => cases h.2
  | _ => rfl

theorem compileElement_list {v : Value} (h : ¬ v.Indivisible)
    (asList : Except RuleFault (Parts × Option Leaf)) :
    compileElement literals v asList = (do
      let (parts, ending) ← asList
      pure (.list parts ending)) := by
  cases v with
  | nil | pair => rfl
  | _ => exact absurd ⟨rfl, rfl⟩ h

end Pattern

/-! ## 1. The shape of a compiled pattern -/

mutual

/-- **An element is written for a pattern.** -/
inductive Compiles (literals : List String) : Value → Pattern → Prop where
  | leaf {v single} (hv : v.Indivisible) (hsingle : Pattern.compileLeaf literals v = .ok single) :
    Compiles literals v (.leaf single)
  | list {v parts ending} (hv : ¬ v.Indivisible)
    (hparts : CompilesParts literals false v parts ending) :
    Compiles literals v (.list parts ending)

/-- **The rest of a list is written for parts and an end.**  The flag says whether an ellipsis came
before. -/
inductive CompilesParts (literals : List String) : Bool → Value → Parts → Option Leaf → Prop where
  | nil {seen} : CompilesParts literals seen .nil .stop none
  | ending {seen v single} (hv : v.Indivisible)
    (hsingle : Pattern.compileLeaf literals v = .ok single) :
    CompilesParts literals seen v .stop (some single)
  | part {seen id head tail first rest ending} (hhead : Compiles literals head first)
    (htail : tail.afterEllipsis? = none) (hrest : CompilesParts literals seen tail rest ending) :
    CompilesParts literals seen (.pair id head tail) (.part first rest) ending
  | repeated {id head tail after item rest ending} (hhead : Compiles literals head item)
    (htail : tail.afterEllipsis? = some after)
    (hrest : CompilesParts literals true after rest ending) :
    CompilesParts literals false (.pair id head tail) (.repeated item rest) ending

end

variable {literals : List String}

/-- **What a leaf is compiled to.** -/
theorem compileLeaf_cases {v : Value} {single : Leaf}
    (h : Pattern.compileLeaf literals v = .ok single) :
    (∃ name, v.symbol? = some name ∧ name ≠ ellipsis ∧
      (name = wildcard ∧ single = .wildcard ∨ name ∈ literals ∧ single = .literal name ∨
        name ∉ literals ∧ single = .variable name)) ∨
    v.symbol? = none ∧ single = .constant v := by
  unfold Pattern.compileLeaf at h
  split at h
  · next name hname =>
    refine .inl ⟨name, hname, ?_⟩
    split at h
    · cases h
    · next hdots =>
      refine ⟨hdots, ?_⟩
      split at h
      · next hwild =>
        cases h
        exact .inl ⟨hwild, rfl⟩
      · split at h
        · next hliteral =>
          cases h
          exact .inr (.inl ⟨by simpa using hliteral, rfl⟩)
        · next hliteral =>
          cases h
          exact .inr (.inr ⟨by simpa using hliteral, rfl⟩)
  · next hname =>
    cases h
    exact .inr ⟨hname, rfl⟩

/-- An element, if its parts are known to be written for what they compile to. -/
theorem compiles_of_compileElement {v whole : Value} {p : Pattern}
    (hparts : ∀ parts ending, Pattern.compileParts literals whole false v = .ok (parts, ending) →
      CompilesParts literals false v parts ending)
    (h : Pattern.compileElement literals v (Pattern.compileParts literals whole false v) = .ok p) :
    Compiles literals v p := by
  by_cases hv : v.Indivisible
  · rw [Pattern.compileElement_indivisible hv] at h
    obtain ⟨single, hsingle, ⟨⟩⟩ := bind_eq_ok_iff.mp h
    exact .leaf hv hsingle
  · rw [Pattern.compileElement_list hv] at h
    obtain ⟨⟨parts, ending⟩, hlist, ⟨⟩⟩ := bind_eq_ok_iff.mp h
    exact .list hv (hparts parts ending hlist)

/-- **What compiles** has the shape of the pattern it is compiled to. -/
theorem compilesParts_of_compileParts (v whole : Value) (seen : Bool) {parts : Parts}
    {ending : Option Leaf}
    (h : Pattern.compileParts literals whole seen v = .ok (parts, ending)) :
    CompilesParts literals seen v parts ending := by
  match v with
  | .nil =>
    cases h
    exact .nil
  | .pair id head tail =>
    have hhead : ∀ {p}, Pattern.compileElement literals head
        (Pattern.compileParts literals head false head) = .ok p → Compiles literals head p :=
      fun hp => compiles_of_compileElement
        (fun _ _ hparts => compilesParts_of_compileParts head head false hparts) hp
    cases htail : tail.afterEllipsis? with
    | some after =>
      rw [Pattern.compileParts_repeated htail] at h
      obtain ⟨first, hfirst, h⟩ := bind_eq_ok_iff.mp h
      cases seen with
      | true => cases h
      | false =>
        obtain ⟨⟨rest, last⟩, hrest, ⟨⟩⟩ := bind_eq_ok_iff.mp h
        have hsize := Value.sizeOf_afterEllipsis? htail
        exact .repeated (hhead hfirst) htail (compilesParts_of_compileParts after whole true hrest)
    | none =>
      rw [Pattern.compileParts_part htail] at h
      obtain ⟨first, hfirst, h⟩ := bind_eq_ok_iff.mp h
      obtain ⟨⟨rest, last⟩, hrest, ⟨⟩⟩ := bind_eq_ok_iff.mp h
      exact .part (hhead hfirst) htail (compilesParts_of_compileParts tail whole seen hrest)
  | .atom .. | .procedure .. | .transformer .. | .formMarker .. | .hostMarker .. =>
    rw [Pattern.compileParts_indivisible ⟨rfl, rfl⟩] at h
    obtain ⟨single, hsingle, ⟨⟩⟩ := bind_eq_ok_iff.mp h
    exact .ending ⟨rfl, rfl⟩ hsingle
termination_by sizeOf v

/-- **What compiles as an argument list** has the shape of the pattern. -/
theorem compilesParts_of_compile {v : Value} {p : Pattern}
    (h : Pattern.compile literals v = .ok p) :
    ∃ parts ending, p = .list parts ending ∧ CompilesParts literals false v parts ending := by
  obtain ⟨⟨parts, ending⟩, hparts, ⟨⟩⟩ := bind_eq_ok_iff.mp h
  exact ⟨parts, ending, rfl, compilesParts_of_compileParts v v false hparts⟩

/-- What is written for an element is no ellipsis. -/
theorem Compiles.isSymbolNamed_ellipsis {v : Value} {p : Pattern} (h : Compiles literals v p) :
    v.isSymbolNamed ellipsis = false := by
  cases h with
  | leaf hv hsingle =>
    rcases compileLeaf_cases hsingle with ⟨name, hname, hdots, -⟩ | ⟨hname, -⟩
    · simp [Value.isSymbolNamed, hname, hdots]
    · simp [Value.isSymbolNamed, hname]
  | list hv => cases v with
    | nil | pair => rfl
    | _ => exact absurd ⟨rfl, rfl⟩ hv

/-! ## 2. One ellipsis in a list -/

mutual

/-- **At most one ellipsis in each list** of the pattern. -/
def Pattern.Single : Pattern → Prop
  | .leaf _ => True
  | .list parts _ => parts.Single

def Parts.Single : Parts → Prop
  | .stop => True
  | .part first rest => first.Single ∧ rest.Single
  | .repeated item after => item.Single ∧ after.Single ∧ after.hasEllipsis = false

end

/-- After an ellipsis there is none. -/
theorem CompilesParts.hasEllipsis_eq_false :
    ∀ {v : Value} {parts : Parts} {ending : Option Leaf},
      CompilesParts literals true v parts ending → parts.hasEllipsis = false
  | _, _, _, .nil | _, _, _, .ending _ _ => rfl
  | _, _, _, .part _ _ hrest => hrest.hasEllipsis_eq_false

mutual

theorem Compiles.single :
    ∀ {v : Value} {p : Pattern}, Compiles literals v p → p.Single
  | _, _, .leaf _ _ => trivial
  | _, _, .list _ hparts => hparts.single

theorem CompilesParts.single :
    ∀ {seen : Bool} {v : Value} {parts : Parts} {ending : Option Leaf},
      CompilesParts literals seen v parts ending → parts.Single
  | _, _, _, _, .nil | _, _, _, _, .ending _ _ => trivial
  | _, _, _, _, .part hhead _ hrest => ⟨hhead.single, hrest.single⟩
  | _, _, _, _, .repeated hhead _ hrest => ⟨hhead.single, hrest.single, hrest.hasEllipsis_eq_false⟩

end

/-- **A compiled pattern has one ellipsis at most in each list.** -/
theorem single_of_compile {v : Value} {p : Pattern} (h : Pattern.compile literals v = .ok p) :
    p.Single := by
  obtain ⟨parts, ending, rfl, hparts⟩ := compilesParts_of_compile h
  exact hparts.single

/-! ## 3. Rules and bodies -/

/-- **A rule and how it is written**: `((keyword . args) template)`, with any keyword. -/
def Rule.WrittenAs (literals : List String) (written : Value) (rule : Rule) : Prop :=
  ∃ i j k keyword args, written = .pair i (.pair j keyword args) (.pair k rule.template .nil) ∧
    Pattern.compile literals args = .ok rule.pattern

namespace Transformer

/-- **A transformer and how it is written**: a list of symbols, and rules in the same order. -/
structure WrittenAs (literals rules : Value) (t : Transformer) : Prop where
  literals_eq : literals.elements.map Value.symbol? = t.literals.map some
  rules_eq : List.Forall₂ (Rule.WrittenAs t.literals) rules.elements t.rules

theorem map_symbol?_of_literalNames {written : List Value} {names : List String}
    (h : literalNames written = .ok names) : written.map Value.symbol? = names.map some := by
  induction written generalizing names with
  | nil =>
    cases h
    rfl
  | cons literal rest ih =>
    rw [literalNames] at h
    split at h
    · cases h
    · next name hname =>
      obtain ⟨others, hothers, ⟨⟩⟩ := bind_eq_ok_iff.mp h
      rw [List.map_cons, List.map_cons, hname, ih hothers]

theorem forall₂_of_compileRules {literals : List String} {written : List Value}
    {rules : List Rule} (h : (compileRules literals written).2 = .ok rules) :
    List.Forall₂ (Rule.WrittenAs literals) written rules := by
  induction written generalizing rules with
  | nil =>
    cases h
    exact .nil
  | cons first rest ih =>
    rw [compileRules] at h
    split at h
    · cases h
    · next pattern template hsplit =>
      split at h
      · cases h
      · next args hargs =>
        split at h
        · cases h
        · next p hp =>
          cases hrest : (compileRules literals rest).2 with
          | error fault => simp [hrest, Except.map] at h
          | ok others =>
            simp only [hrest, Except.map, Except.ok.injEq] at h
            subst h
            refine .cons ?_ (ih hrest)
            unfold splitRule at hsplit
            unfold patternArguments at hargs
            split at hsplit <;> cases hsplit
            split at hargs <;> cases hargs
            exact ⟨_, _, _, _, _, rfl, hp⟩

/-- **A body that is accepted** is literals and rules, and the transformer is what they say. -/
theorem writtenAs_of_ofBody {body : Value} {t : Transformer} (h : ofBody body = .ok t) :
    ∃ id literals rules, body = .pair id literals rules ∧ t.WrittenAs literals rules := by
  unfold ofBody compileBody splitBody at h
  split at h
  · cases h
  · next names written hsplit =>
    split at hsplit
    · next id literals rules =>
      split at hsplit
      · obtain ⟨names', hnames, ⟨⟩⟩ := bind_eq_ok_iff.mp hsplit
        cases hrules : (compileRules names rules.elements).2 with
        | error fault => simp [hrules, Except.map] at h
        | ok compiled =>
          simp only [hrules, Except.map, Except.ok.injEq] at h
          subst h
          exact ⟨id, literals, rules, rfl, map_symbol?_of_literalNames hnames,
            forall₂_of_compileRules hrules⟩
      · cases hsplit
    · cases hsplit

/-- **The pattern of every rule** is compiled from some list. -/
theorem compile_of_mem_rules {body : Value} {t : Transformer} {rule : Rule}
    (h : ofBody body = .ok t) (hrule : rule ∈ t.rules) :
    ∃ args, Pattern.compile t.literals args = .ok rule.pattern := by
  obtain ⟨_, _, _, -, hwritten⟩ := writtenAs_of_ofBody h
  obtain ⟨hlength, hpairs⟩ := List.forall₂_iff_get.mp hwritten.rules_eq
  obtain ⟨i, hi, rfl⟩ := List.getElem_of_mem hrule
  obtain ⟨_, _, _, _, args, -, hargs⟩ := hpairs i (hlength ▸ hi) hi
  exact ⟨args, hargs⟩

end Transformer

end Lisp
