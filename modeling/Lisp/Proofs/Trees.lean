/-
# Values as trees

Patterns and templates look at a value as a tree of pairs.  They go along its chain of pairs, and
stop where an ellipsis follows an element; the identities of its nodes say nothing to them.

Two values that differ in identities only are written alike (`Value.bare`), and what is said here
of one of them holds of the other.
-/
import Lisp.Macro.Template

namespace Lisp

namespace Value

/-! ## 1. Chains of pairs -/

@[simp] theorem drop_zero (v : Value) : v.drop 0 = v := by
  cases v <;> rfl

theorem elements_drop (v : Value) (count : Nat) :
    (v.drop count).elements = v.elements.drop count := by
  induction count generalizing v with
  | zero => simp
  | succ count ih =>
    cases v with
    | pair id head tail => exact ih tail
    | _ => simp [drop, elements]

theorem ending_drop (v : Value) (count : Nat) : (v.drop count).ending = v.ending := by
  induction count generalizing v with
  | zero => simp
  | succ count ih =>
    cases v with
    | pair id head tail => exact ih tail
    | _ => rfl

theorem drop_drop (v : Value) (count more : Nat) :
    (v.drop count).drop more = v.drop (count + more) := by
  induction count generalizing v with
  | zero => simp
  | succ count ih =>
    rw [Nat.succ_add]
    cases v with
    | pair id head tail => exact ih tail
    | _ => cases more <;> rfl

/-- **After all its elements** a chain is what ends it. -/
theorem drop_length_elements (v : Value) : v.drop v.elements.length = v.ending := by
  induction v with
  | pair id head tail _ ih => exact ih
  | _ => rfl

/-- **The chain of pairs that holds `items`, continued by `ending`.**  The pairs are given no
identities of their own. -/
def chain (items : List Value) (ending : Value) : Value :=
  items.foldr (.pair 0 · ·) ending

theorem elements_chain_nil (items : List Value) : (chain items .nil).elements = items := by
  induction items with
  | nil => rfl
  | cons item items ih => exact congrArg (item :: ·) ih

theorem chain_append (items others : List Value) (ending : Value) :
    chain (items ++ others) ending = chain items (chain others ending) :=
  List.foldr_append

/-! ## 2. Lists with ellipses -/

/-- **What comes after the ellipsis** that the rest of a list begins with, if it does. -/
def afterEllipsis? : Value → Option Value
  | .pair _ next after => if next.isSymbolNamed ellipsis then some after else none
  | _ => none

theorem afterEllipsis?_eq_some_iff {v after : Value} :
    v.afterEllipsis? = some after ↔
      ∃ id dots, v = .pair id dots after ∧ dots.isSymbolNamed ellipsis := by
  cases v with
  | pair id next rest =>
    by_cases h : next.isSymbolNamed ellipsis
    · rw [afterEllipsis?, if_pos h]
      constructor
      · rintro ⟨⟩
        exact ⟨id, next, rfl, h⟩
      · rintro ⟨_, _, ⟨⟩, -⟩
        rfl
    · rw [afterEllipsis?, if_neg h]
      constructor
      · rintro ⟨⟩
      · rintro ⟨_, _, ⟨⟩, hdots⟩
        exact absurd hdots h
  | _ => simp [afterEllipsis?]

theorem afterEllipsis?_pair_eq_none_iff {id : Nat} {next after : Value} :
    (pair id next after).afterEllipsis? = none ↔ ¬ next.isSymbolNamed ellipsis := by
  by_cases h : next.isSymbolNamed ellipsis <;> simp [afterEllipsis?, h]

theorem sizeOf_afterEllipsis? {v after : Value} (h : v.afterEllipsis? = some after) :
    sizeOf after < sizeOf v := by
  obtain ⟨id, dots, rfl, -⟩ := afterEllipsis?_eq_some_iff.mp h
  simp only [pair.sizeOf_spec]
  omega

/-- **A value that is no list**, not even an empty one. -/
def Indivisible (v : Value) : Prop :=
  v.isNil = false ∧ v.isPair = false

/-! ## 3. Symbols in a tree -/

/-- **A symbol of this name stands somewhere in the value.** -/
def Mentions (name : String) : Value → Prop
  | .atom _ (.symbol other) => name = other
  | .pair _ head tail => head.Mentions name ∨ tail.Mentions name
  | _ => False

theorem mentions_of_indivisible {v : Value} (h : v.Indivisible) (name : String) :
    v.Mentions name ↔ v.symbol? = some name := by
  cases v with
  | nil => cases h.1
  | pair => cases h.2
  | atom id value => cases value <;> simp [Mentions, symbol?, eq_comm]
  | _ => simp [Mentions, symbol?]

theorem mentions_of_afterEllipsis? {v after : Value} (h : v.afterEllipsis? = some after)
    {name : String} (hname : after.Mentions name) : v.Mentions name := by
  obtain ⟨_, _, rfl, -⟩ := afterEllipsis?_eq_some_iff.mp h
  exact .inr hname

theorem mem_symbols_iff {found : List String} {v : Value} {name : String} :
    name ∈ Template.symbols found v ↔ name ∈ found ∨ v.Mentions name := by
  induction v generalizing found with
  | pair id head tail ihhead ihtail => rw [Template.symbols, ihtail, ihhead, Mentions, or_assoc]
  | atom id value =>
    cases value with
    | symbol other =>
      rw [Template.symbols, Mentions]
      split
      · next hfound =>
        have hmem : other ∈ found := by simpa using hfound
        exact ⟨.inl, fun h => h.elim (·) fun h => h ▸ hmem⟩
      · simp
    | _ => simp [Template.symbols, Mentions]
  | _ => simp [Template.symbols, Mentions]

/-! ## 4. Data that are written alike -/

/-- **The tree alone**, without the identities of its atoms and pairs. -/
def bare : Value → Value
  | .nil => .nil
  | .atom _ value => .atom 0 value
  | .pair _ head tail => .pair 0 head.bare tail.bare
  | .procedure id parameters body scope => .procedure id parameters body scope
  | .transformer id rules scope => .transformer id rules scope
  | .formMarker id name => .formMarker id name
  | .hostMarker id name => .hostMarker id name

theorem elements_bare (v : Value) : v.bare.elements = v.elements.map bare := by
  induction v with
  | pair id head tail _ ih => exact congrArg (head.bare :: ·) ih
  | _ => rfl

theorem chain_elements_ending (v : Value) :
    chain (v.elements.map bare) v.ending.bare = v.bare := by
  induction v with
  | pair id head tail _ ih => exact congrArg (pair 0 head.bare) ih
  | _ => rfl

theorem symbol?_bare (v : Value) : v.bare.symbol? = v.symbol? := by
  cases v with
  | atom id value => cases value <;> rfl
  | _ => rfl

theorem mentions_bare (name : String) (v : Value) : v.bare.Mentions name ↔ v.Mentions name := by
  induction v with
  | pair id head tail ihhead ihtail => exact or_congr ihhead ihtail
  | atom id value => cases value <;> rfl
  | _ => rfl

theorem isSymbolNamed_bare (name : String) (v : Value) :
    v.bare.isSymbolNamed name = v.isSymbolNamed name := by
  rw [isSymbolNamed, symbol?_bare, isSymbolNamed]

theorem afterEllipsis?_bare (v : Value) :
    v.bare.afterEllipsis? = v.afterEllipsis?.map bare := by
  cases v with
  | pair id next after =>
    simp only [bare, afterEllipsis?, isSymbolNamed_bare]
    split <;> rfl
  | _ => rfl

variable {v w : Value}

/-- **Data that are written alike** mention the same symbols. -/
theorem mentions_congr (h : v.bare = w.bare) (name : String) :
    v.Mentions name ↔ w.Mentions name := by
  rw [← mentions_bare name v, h, mentions_bare]

theorem symbol?_congr (h : v.bare = w.bare) : v.symbol? = w.symbol? := by
  rw [← symbol?_bare v, h, symbol?_bare]

theorem isSymbolNamed_congr (h : v.bare = w.bare) (name : String) :
    v.isSymbolNamed name = w.isSymbolNamed name := by
  rw [← isSymbolNamed_bare name v, h, isSymbolNamed_bare]

/-- Where one of them has an ellipsis, so has the other. -/
theorem afterEllipsis?_congr (h : v.bare = w.bare) :
    v.afterEllipsis?.map bare = w.afterEllipsis?.map bare := by
  rw [← afterEllipsis?_bare, h, afterEllipsis?_bare]

theorem indivisible_congr (h : v.bare = w.bare) : v.Indivisible ↔ w.Indivisible := by
  cases v <;> cases w <;> simp_all [bare, Indivisible, isNil, isPair]

theorem eq_nil_of_bare (h : v.bare = .nil) : v = .nil := by
  cases v <;> simp_all [bare]

theorem exists_pair_of_bare {head tail : Value} (h : v.bare = .pair 0 head tail) :
    ∃ id head' tail', v = .pair id head' tail' ∧ head'.bare = head ∧ tail'.bare = tail := by
  cases v with
  | pair id head' tail' =>
    obtain ⟨-, hhead, htail⟩ := Value.pair.inj h
    exact ⟨id, head', tail', rfl, hhead, htail⟩
  | _ => cases h

end Value

end Lisp
