/-
# Without floats, equality is structural

`equal` is not a plain recursion: it takes one object to be equal to itself without looking inside,
for the two values and for the elements along their chains of pairs, though not for the chains'
rests.  For values without floats nothing of this shows.  `equal` decides likeness
(`Value.Alike`), which is the plain recursion and asks for the identity of an object at procedures
and macros only (`equal_decides_alike`).  So on such values it is an equivalence and a congruence for
pairs, whatever objects the values share.

* **Alike values are equal** by their contents, and nothing is needed for it
  (`Alike.equalContents`).
* **Equal values are alike.**  Here the shortcut has to be justified: what is one object is one value
  (`MadeOf.eq_of_same`), and a value without floats is like itself (`FloatFree.alike_self`).  A NaN is
  not, though it is equal to itself as an object.  And only without floats are equal atoms of one kind.
-/
import Lisp.Proofs.Equality

namespace Lisp

namespace Value

variable {objects : Nat → Value} {a b c : Value}

/-! ## 1. Likeness -/

/-- **No float stands in the value.**  Nothing is asked of what a procedure or a macro is made of. -/
def FloatFree : Value → Prop
  | .atom _ (.float _) => False
  | .pair _ head tail => head.FloatFree ∧ tail.FloatFree
  | _ => True

/-- **Two values are of the same kind and have like contents**, whatever their objects are.  Of two
procedures, or two macros, the object is the content. -/
inductive Alike : Value → Value → Prop where
  | nil : Alike .nil .nil
  | boolean {i j value} : Alike (.atom i (.boolean value)) (.atom j (.boolean value))
  | integer {i j value} : Alike (.atom i (.integer value)) (.atom j (.integer value))
  | string {i j text raw raw'} : Alike (.atom i (.string text raw)) (.atom j (.string text raw'))
  | symbol {i j name} : Alike (.atom i (.symbol name)) (.atom j (.symbol name))
  | pair {i j head head' tail tail'} (hhead : Alike head head') (htail : Alike tail tail') :
    Alike (.pair i head tail) (.pair j head' tail')
  | procedure {i parameters parameters' body body' scope scope'} :
    Alike (.procedure i parameters body scope) (.procedure i parameters' body' scope')
  | transformer {i rules rules' scope scope'} :
    Alike (.transformer i rules scope) (.transformer i rules' scope')
  | formMarker {i j name} : Alike (.formMarker i name) (.formMarker j name)
  | hostMarker {i j name} : Alike (.hostMarker i name) (.hostMarker j name)

theorem FloatFree.alike_self (h : a.FloatFree) : a.Alike a := by
  induction a with
  | pair i head tail ihHead ihTail => exact .pair (ihHead h.1) (ihTail h.2)
  | atom i value =>
    cases value with
    | float => exact h.elim
    | _ => constructor
  | _ => constructor

/-! ## 2. Likeness and equality -/

theorem Alike.equalContents (h : a.Alike b) : a.equalContents b = true := by
  induction h with
  | pair hhead htail ihHead ihTail => simp [Value.equalContents, ihHead, ihTail]
  | _ => simp [Value.equalContents, Atom.equal]

theorem Alike.equal (h : a.Alike b) : a.equal b = true := by
  rw [Value.equal, h.equalContents, Bool.or_true]

/-- **Atoms without floats are alike if they are equal.** -/
theorem alike_of_atom_equal {i j : Nat} {x y : Atom} (hx : (atom i x).FloatFree)
    (hy : (atom j y).FloatFree) (h : x.equal y = true) : (atom i x).Alike (.atom j y) := by
  cases x <;> try exact hx.elim
  all_goals cases y <;> try exact hy.elim
  all_goals simp only [Atom.equal, Bool.false_eq_true, beq_iff_eq] at h
  case boolean.boolean => exact h ▸ .boolean
  case integer.integer => exact h ▸ .integer
  case string.string => exact h ▸ .string
  case symbol.symbol => exact h ▸ .symbol

/-- If values are alike when their contents are equal, then also when they are one object. -/
theorem alike_of_equal_of_contents (ha : a.MadeOf objects) (hb : b.MadeOf objects)
    (hfree : a.FloatFree) (hcontents : a.equalContents b = true → a.Alike b)
    (h : a.equal b = true) : a.Alike b := by
  rcases (ha.equal_iff hb).mp h with rfl | hequal
  · exact hfree.alike_self
  · exact hcontents hequal

theorem alike_of_equalContents (ha : a.MadeOf objects) (hb : b.MadeOf objects)
    (hfree : a.FloatFree) (hfree' : b.FloatFree) (h : a.equalContents b = true) : a.Alike b := by
  -- both chains are walked at once; elsewhere the kinds have to be the same
  induction a generalizing b with
  | pair i head tail ihHead ihTail =>
    cases b <;> simp only [equalContents, Bool.false_eq_true, Bool.and_eq_true] at h
    obtain ⟨-, hahead, hatail⟩ := ha
    obtain ⟨-, hbhead, hbtail⟩ := hb
    have hhead := alike_of_equal_of_contents hahead hbhead hfree.1
      (ihHead hahead hbhead hfree.1 hfree'.1) h.1
    exact .pair hhead (ihTail hatail hbtail hfree.2 hfree'.2 h.2)
  | atom i value =>
    cases b <;> simp only [equalContents, Bool.false_eq_true] at h
    exact alike_of_atom_equal hfree hfree' h
  | nil =>
    cases b <;> simp only [equalContents, Bool.false_eq_true] at h
    exact .nil
  | procedure | transformer | formMarker | hostMarker =>
    cases b <;> simp only [equalContents, Bool.false_eq_true, beq_iff_eq] at h
    subst h
    constructor

theorem equal_iff_alike (ha : a.MadeOf objects) (hb : b.MadeOf objects) (hfree : a.FloatFree)
    (hfree' : b.FloatFree) : a.equal b = true ↔ a.Alike b :=
  ⟨alike_of_equal_of_contents ha hb hfree (alike_of_equalContents ha hb hfree hfree'), Alike.equal⟩

/-! ## 3. An equivalence and a congruence -/

theorem Alike.symm (h : a.Alike b) : b.Alike a := by
  induction h with
  | pair _ _ ihHead ihTail => exact .pair ihHead ihTail
  | _ => constructor

theorem Alike.trans (hab : a.Alike b) (hbc : b.Alike c) : a.Alike c := by
  induction hab generalizing c with
  | pair _ _ ihHead ihTail =>
    cases hbc with
    | pair hhead htail => exact .pair (ihHead hhead) (ihTail htail)
  | _ =>
    cases hbc
    constructor

/-- **A value without floats**, made of the objects of one run. -/
structure Plain (objects : Nat → Value) where
  value : Value
  madeOf : value.MadeOf objects
  floatFree : value.FloatFree

/-- **Equality of values without floats is likeness**, whatever objects they share.  So it is an
equivalence, and pairs of equal values are equal, be they new objects or not. -/
theorem equal_decides_alike (objects : Nat → Value) :
    (∀ a b : Plain objects, a.value.equal b.value = true ↔ a.value.Alike b.value) ∧
    Equivalence (fun a b : Plain objects => a.value.equal b.value = true) ∧
    ∀ (i j : Nat) (a a' b b' : Plain objects), a.value.equal a'.value = true →
      b.value.equal b'.value = true →
      (pair i a.value b.value).equal (.pair j a'.value b'.value) = true := by
  have hiff : ∀ a b : Plain objects, a.value.equal b.value = true ↔ a.value.Alike b.value := by
    intro a b
    exact equal_iff_alike a.madeOf b.madeOf a.floatFree b.floatFree
  refine ⟨hiff, ⟨?_, ?_, ?_⟩, ?_⟩
  · intro a
    exact a.floatFree.alike_self.equal
  · intro a b hab
    exact ((hiff a b).mp hab).symm.equal
  · intro a b c hab hbc
    exact (((hiff a b).mp hab).trans ((hiff b c).mp hbc)).equal
  · intro i j a a' b b' hhead htail
    exact (Alike.pair ((hiff a a').mp hhead) ((hiff b b').mp htail)).equal

/-- A string paired with itself, and two objects that are like it, one of them raw. -/
theorem equal_decides_alike_shared :
    let objects : Nat → Value := fun
      | 1 => .pair 1 (.atom 0 (.string "s" false)) (.atom 0 (.string "s" false))
      | 2 => .atom 2 (.string "s" false)
      | 3 => .atom 3 (.string "s" true)
      | 4 => .pair 4 (.atom 2 (.string "s" false)) (.atom 3 (.string "s" true))
      | _ => .atom 0 (.string "s" false)
    ∃ a b : Plain objects, a.value = objects 1 ∧ b.value = objects 4 ∧
      a.value.Alike b.value ∧ b.value.equal a.value = true ∧
      (pair 5 a.value b.value).equal (.pair 6 b.value a.value) = true := by
  intro objects
  let a : Plain objects := ⟨objects 1, ⟨rfl, rfl, rfl⟩, trivial, trivial⟩
  let b : Plain objects := ⟨objects 4, ⟨rfl, rfl, rfl⟩, trivial, trivial⟩
  obtain ⟨hiff, hequivalence, hcongruence⟩ := equal_decides_alike objects
  have hequal : a.value.equal b.value = true := by decide
  have hback : b.value.equal a.value = true := hequivalence.symm hequal
  exact ⟨a, b, rfl, rfl, (hiff a b).mp hequal, hback, hcongruence 5 6 a b b a hequal hback⟩

end Value

end Lisp
