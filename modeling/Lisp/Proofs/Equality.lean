/-
# Equality is transitive, but for a float between two integers

Two integers are compared exactly, an integer and a float as doubles.  From 2^53 on several integers
have one nearest double, so a float can equal two integers that differ, and that is the only way in
which `equal` fails to be transitive (`equal_trans_iff`): if `a` equals `b` and `b` equals `c`, then
`a` equals `c` unless there is a place where `b` has a float and the other two have different
integers (`Value.Parted`).

The argument has two halves.  On atoms transitivity comes down to that of the comparison of doubles,
in which a NaN equals nothing.  On values it comes down to the atoms by recursion, once the identity
of objects is out of the way: what is one object is one value (`Value.MadeOf.eq_of_same`), so the
shortcut that `equal` takes adds only that a value equals itself.  This is why nothing has to be
free of NaN.
-/
import Lisp.Proofs.Correspondence
import Mathlib

namespace Lisp

/-! ## 1. Atoms -/

/-- **A float between two different integers.** -/
def Atom.Parted : Atom → Atom → Atom → Prop
  | .integer m, .float _, .integer n => m ≠ n
  | _, _, _ => False

theorem Atom.Parted.ne {a b c : Atom} (h : a.Parted b c) : a ≠ b ∧ b ≠ c ∧ a ≠ c := by
  cases a <;> cases b <;> try exact h.elim
  cases c <;> try exact h.elim
  have hne : _ ≠ _ := h
  simp [hne]

/-- **Equality of atoms is transitive**, but for a float between two different integers. -/
theorem Atom.equal_iff_not_parted {a b c : Atom} (hab : a.equal b = true) (hbc : b.equal c = true) :
    a.equal c = true ↔ ¬ a.Parted b c := by
  cases a <;> cases b <;> simp only [equal, Bool.false_eq_true, beq_iff_eq] at hab
  all_goals cases c <;> simp only [equal, Bool.false_eq_true, beq_iff_eq] at hbc
  all_goals simp only [equal, Parted, beq_iff_eq, not_false_eq_true, iff_true, ne_eq, not_not]
  case integer.integer.float => rwa [hab]
  case float.integer.integer => rwa [← hbc]
  -- what is left compares both times exactly, or both times as doubles
  all_goals first | exact hab.trans hbc | exact BEq.trans hab hbc

namespace Value

/-! ## 2. Objects -/

/-- **Every object in the value is the one that has its number.**  Values of one run are such, for
one `objects`: a number is drawn once, and what was made does not change. -/
def MadeOf (objects : Nat → Value) : Value → Prop
  | .nil => True
  | .pair id head tail =>
    objects id = .pair id head tail ∧ head.MadeOf objects ∧ tail.MadeOf objects
  | .atom id value => objects id = .atom id value
  | .procedure id parameters body scope => objects id = .procedure id parameters body scope
  | .transformer id rules scope => objects id = .transformer id rules scope
  | .formMarker id name => objects id = .formMarker id name
  | .hostMarker id name => objects id = .hostMarker id name

variable {objects : Nat → Value} {a b c : Value}

theorem MadeOf.object (h : a.MadeOf objects) {i : Nat} (hi : a.id? = some i) : objects i = a := by
  cases a with
  | nil => nomatch hi
  | pair =>
    obtain rfl := Option.some.inj hi
    exact h.1
  | _ =>
    obtain rfl := Option.some.inj hi
    exact h

/-- **One object is one value.** -/
theorem MadeOf.eq_of_same (ha : a.MadeOf objects) (hb : b.MadeOf objects)
    (h : a.same b = true) : a = b := by
  have hid : a.id? = b.id? := beq_iff_eq.mp h
  cases hi : b.id? with
  | some i => rw [← ha.object (hid.trans hi), hb.object hi]
  | none =>
    rw [hi] at hid
    cases a <;> cases hid
    cases b <;> cases hi
    rfl

theorem MadeOf.equal_iff (ha : a.MadeOf objects) (hb : b.MadeOf objects) :
    a.equal b = true ↔ a = b ∨ a.equalContents b = true := by
  rw [equal, Bool.or_eq_true]
  refine or_congr_left ⟨ha.eq_of_same hb, ?_⟩
  rintro rfl
  exact beq_self_eq_true _

/-! ### Data that are loaded -/

theorem MadeOf.congr {objects' : Nat → Value} (h : a.MadeOf objects)
    (hsame : ∀ i, a.HasObject i → objects' i = objects i) : a.MadeOf objects' := by
  induction a with
  | nil => trivial
  | pair i head tail ihHead ihTail =>
    exact ⟨(hsame i (.inl rfl)).trans h.1, ihHead h.2.1 fun j hj => hsame j (.inr (.inl hj)),
      ihTail h.2.2 fun j hj => hsame j (.inr (.inr hj))⟩
  | atom | formMarker | hostMarker => exact (hsame _ rfl).trans h
  | procedure | transformer => exact (hsame _ (.inl rfl)).trans h

theorem hasObject_load (s : Store) (datum : Datum) :
    s.spans.size ≤ (s.load datum).2.spans.size ∧
      ∀ i, (s.load datum).1.HasObject i → i < (s.load datum).2.spans.size := by
  induction datum generalizing s with
  | nil => exact ⟨le_refl _, nofun⟩
  | atom value span => simp [Store.load, Store.allocate, HasObject]
  | pair head tail span ihHead ihTail =>
    obtain ⟨hle, hhead⟩ := ihHead s
    obtain ⟨hle', htail⟩ := ihTail (s.load head).2
    simp only [Store.load, Store.allocate, HasObject, Array.size_push]
    refine ⟨by omega, ?_⟩
    rintro i (rfl | hi | hi)
    · omega
    · have := hhead i hi
      omega
    · have := htail i hi
      omega

/-- **The objects of a datum that is loaded are new**, so the value is made of them and of whatever
there was before. -/
theorem exists_madeOf_load (objects : Nat → Value) (s : Store) (datum : Datum) :
    ∃ objects' : Nat → Value, (∀ i < s.spans.size, objects' i = objects i) ∧
      (s.load datum).1.MadeOf objects' := by
  induction datum generalizing s objects with
  | nil => exact ⟨objects, fun _ _ => rfl, trivial⟩
  | atom value span =>
    refine ⟨Function.update objects s.spans.size (.atom s.spans.size value), fun i hi => ?_, ?_⟩
    · rw [Function.update_of_ne hi.ne]
    · exact Function.update_self ..
  | pair head tail span ihHead ihTail =>
    obtain ⟨objects₁, hold, hhead⟩ := ihHead objects s
    obtain ⟨objects₂, hold', htail⟩ := ihTail objects₁ (s.load head).2
    have hle := hasObject_load s head
    have hle' := hasObject_load (s.load head).2 tail
    refine ⟨Function.update objects₂ ((s.load head).2.load tail).2.spans.size
      (s.load (.pair head tail span)).1, fun i hi => ?_, Function.update_self .., ?_, ?_⟩
    · have := hle.1
      have := hle'.1
      rw [Function.update_of_ne (by omega), hold' i (by omega), hold i hi]
    · refine hhead.congr fun i hi => ?_
      have hlt := hle.2 i hi
      have := hle'.1
      rw [Function.update_of_ne (by omega), hold' i hlt]
    · refine htail.congr fun i hi => ?_
      have := hle'.2 i hi
      rw [Function.update_of_ne (by omega)]

/-! ## 3. Values -/

/-- **At some place of the three values there is a float between two different integers.** -/
def Parted : Value → Value → Value → Prop
  | .atom _ a, .atom _ b, .atom _ c => a.Parted b c
  | .pair _ head tail, .pair _ head' tail', .pair _ head'' tail'' =>
    head.Parted head' head'' ∨ tail.Parted tail' tail''
  | _, _, _ => False

theorem Parted.ne (h : a.Parted b c) : a ≠ b ∧ b ≠ c ∧ a ≠ c := by
  induction a generalizing b c with
  | atom i value =>
    cases b <;> cases c <;> simp only [Parted] at h
    have := h.ne
    simp [this]
  | pair i head tail ihHead ihTail =>
    cases b <;> cases c <;> simp only [Parted] at h
    rcases h with h | h
    · have := ihHead h
      simp [this]
    · have := ihTail h
      simp [this]
  | _ => exact h.elim

/-- If contents are compared in this way, then so are objects. -/
theorem equal_trans_iff_of_contents (ha : a.MadeOf objects) (hb : b.MadeOf objects)
    (hc : c.MadeOf objects)
    (hcontents : a.equalContents b = true → b.equalContents c = true →
      (a.equalContents c = true ↔ ¬ a.Parted b c))
    (hab : a.equal b = true) (hbc : b.equal c = true) :
    a.equal c = true ↔ ¬ a.Parted b c := by
  have hne : a.Parted b c → a ≠ b ∧ b ≠ c ∧ a ≠ c := Parted.ne
  rw [ha.equal_iff hb] at hab
  rw [hb.equal_iff hc] at hbc
  rw [ha.equal_iff hc]
  rcases hab with rfl | hab
  · simpa [hbc] using fun h => (hne h).1
  · rcases hbc with rfl | hbc
    · simpa [hab] using fun h => (hne h).2.1
    · rw [hcontents hab hbc, or_iff_right_iff_imp]
      exact fun hac h => (hne h).2.2 hac

theorem equalContents_trans_iff (ha : a.MadeOf objects) (hb : b.MadeOf objects)
    (hc : c.MadeOf objects) (hab : a.equalContents b = true) (hbc : b.equalContents c = true) :
    a.equalContents c = true ↔ ¬ a.Parted b c := by
  induction a generalizing b c with
  | atom i value =>
    cases b <;> simp only [equalContents, Bool.false_eq_true] at hab
    cases c <;> simp only [equalContents, Bool.false_eq_true] at hbc
    exact Atom.equal_iff_not_parted hab hbc
  | pair i head tail ihHead ihTail =>
    cases b <;> simp only [equalContents, Bool.false_eq_true, Bool.and_eq_true] at hab
    cases c <;> simp only [equalContents, Bool.false_eq_true, Bool.and_eq_true] at hbc
    obtain ⟨-, hahead, hatail⟩ := ha
    obtain ⟨-, hbhead, hbtail⟩ := hb
    obtain ⟨-, hchead, hctail⟩ := hc
    have hhead := equal_trans_iff_of_contents hahead hbhead hchead (ihHead hahead hbhead hchead)
      hab.1 hbc.1
    have htail := ihTail hatail hbtail hctail hab.2 hbc.2
    rw [equalContents, ← equal, Bool.and_eq_true, hhead, htail, Parted, not_or]
  | nil | procedure | transformer | formMarker | hostMarker =>
    cases b <;> simp only [equalContents, Bool.false_eq_true, beq_iff_eq] at hab
    cases c <;> simp only [equalContents, Bool.false_eq_true, beq_iff_eq] at hbc
    simp [equalContents, Parted, hab, hbc]

/-- **Equality is transitive, but for floats between different integers.**  If one value equals a
second and that a third, then the first equals the third exactly if there is no place at which the
second has a float and the other two have different integers. -/
theorem equal_trans_iff {objects : Nat → Value} {a b c : Value} (ha : a.MadeOf objects)
    (hb : b.MadeOf objects) (hc : c.MadeOf objects) (hab : a.equal b = true)
    (hbc : b.equal c = true) : a.equal c = true ↔ ¬ a.Parted b c :=
  equal_trans_iff_of_contents ha hb hc (equalContents_trans_iff ha hb hc) hab hbc

/-- The lists `(2)`, `(2.0)` and `(2)`, each made of objects of its own. -/
theorem equal_trans_iff_two :
    let objects : Nat → Value := fun
      | 1 => .pair 1 (.atom 0 (.integer 2)) .nil
      | 2 => .atom 2 (.float 2)
      | 3 => .pair 3 (.atom 2 (.float 2)) .nil
      | 4 => .atom 4 (.integer 2)
      | 5 => .pair 5 (.atom 4 (.integer 2)) .nil
      | _ => .atom 0 (.integer 2)
    (objects 1).equal (objects 3) = true ∧ (objects 3).equal (objects 5) = true ∧
      ((objects 1).equal (objects 5) = true ↔ ¬ (objects 1).Parted (objects 3) (objects 5)) := by
  intro objects
  have hfirst : (objects 1).equal (objects 3) = true := by decide +kernel
  have hsecond : (objects 3).equal (objects 5) = true := by decide +kernel
  have hmade : (objects 1).MadeOf objects := ⟨rfl, rfl, trivial⟩
  exact ⟨hfirst, hsecond, equal_trans_iff hmade ⟨rfl, rfl, trivial⟩ ⟨rfl, rfl, trivial⟩ hfirst
    hsecond⟩

/-- Of 2^53 + 1, the double 2^53 and 2^53 each equals the next, and itself by its contents, but the
first does not equal the third. -/
theorem equal_not_trans_above_doubles :
    let a : Value := .atom 0 (.integer 9007199254740993)
    let b : Value := .atom 1 (.float 9007199254740992)
    let c : Value := .atom 2 (.integer 9007199254740992)
    (a.equalContents a && b.equalContents b && c.equalContents c) = true ∧
      a.equal b = true ∧ b.equal c = true ∧ a.equal c = false := by
  decide +kernel

end Value

end Lisp
