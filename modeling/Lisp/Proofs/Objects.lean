/-
# One number, one object

Identity is a matter of numbers alone (`Value.same`), and a value carries the numbers of its objects
with it.  In the stores that programs run in, a number stands for one object: there is a list of all
objects in the order they were made, and every part of a value that evaluation comes across is the
entry under its number (`Value.Among`).  So two values that are the same are equal, and a form is
never the same as a value that is no form.

Nothing is ever taken off the list, and what was among the objects stays so (`Among.mono`).
-/
import Lisp.Proofs.Endings
import Mathlib.Data.List.Infix

namespace Lisp

variable {objects objects' : List Value} {v w : Value} {s : Store}

/-! ## 1. Objects in the order they were made -/

namespace Value

/-- **Every object of the value is the one made under its number.** -/
def Among (objects : List Value) : Value → Prop
  | .nil => True
  | .atom id value => objects[id]? = some (.atom id value)
  | .pair id head tail =>
    objects[id]? = some (.pair id head tail) ∧ head.Among objects ∧ tail.Among objects
  | .procedure id parameters body scope =>
    objects[id]? = some (.procedure id parameters body scope) ∧ parameters.Among objects ∧
      body.Among objects
  | .transformer id rules scope =>
    objects[id]? = some (.transformer id rules scope) ∧ rules.Among objects
  | .formMarker id name => objects[id]? = some (.formMarker id name)
  | .hostMarker id name => objects[id]? = some (.hostMarker id name)

/-- **Every object of all the values** is the one made under its number. -/
abbrev AllAmong (objects vs : List Value) : Prop :=
  ∀ v ∈ vs, v.Among objects

theorem getElem?_of_prefix (hle : objects <+: objects') {i : Nat} (h : objects[i]? = some v) :
    objects'[i]? = some v := by
  obtain ⟨others, rfl⟩ := hle
  rw [List.getElem?_append_left (List.getElem?_eq_some_iff.mp h).1, h]

namespace Among

theorem mono (h : v.Among objects) (hle : objects <+: objects') : v.Among objects' := by
  have kept {i : Nat} {u : Value} : objects[i]? = some u → objects'[i]? = some u :=
    getElem?_of_prefix hle
  induction v with
  | nil => trivial
  | atom | formMarker | hostMarker => exact kept h
  | pair id head tail ihHead ihTail => exact ⟨kept h.1, ihHead h.2.1, ihTail h.2.2⟩
  | procedure id parameters body scope ihParameters ihBody =>
    exact ⟨kept h.1, ihParameters h.2.1, ihBody h.2.2⟩
  | transformer id rules scope ih => exact ⟨kept h.1, ih h.2⟩

theorem getElem?_eq (h : v.Among objects) {i : Nat} (hi : v.id? = some i) :
    objects[i]? = some v := by
  cases v with
  | nil => cases hi
  | atom | formMarker | hostMarker =>
    cases hi
    exact h
  | pair | procedure | transformer =>
    cases hi
    exact h.1

/-- **Of objects that were made, only equal ones are the same.** -/
theorem eq_of_same (hv : v.Among objects) (hw : w.Among objects) (h : v.same w = true) :
    v = w := by
  have hids : v.id? = w.id? := beq_iff_eq.mp h
  cases hi : v.id? with
  | some i => exact Option.some.inj ((hv.getElem?_eq hi).symm.trans (hw.getElem?_eq (hids ▸ hi)))
  | none =>
    have hempty : ∀ u : Value, u.id? = none → u = .nil := by
      rintro (_ | _) hu <;> first | rfl | cases hu
    rw [hempty v hi, hempty w (hids ▸ hi)]

theorem elements (h : v.Among objects) : AllAmong objects v.elements := by
  induction v with
  | pair id head tail _ ih => exact List.forall_mem_cons.mpr ⟨h.2.1, ih h.2.2⟩
  | _ => exact nofun

theorem ending (h : v.Among objects) : v.ending.Among objects := by
  induction v with
  | pair id head tail _ ih => exact ih h.2.2
  | _ => exact h

theorem drop (h : v.Among objects) (count : Nat) : (v.drop count).Among objects := by
  induction count generalizing v with
  | zero => exact (Value.drop.eq_1 v).symm ▸ h
  | succ count ih =>
    cases v with
    | pair id head tail => exact ih h.2.2
    | _ => exact h

end Among

theorem AllAmong.mono {vs : List Value} (h : AllAmong objects vs) (hle : objects <+: objects') :
    AllAmong objects' vs :=
  fun v hv => (h v hv).mono hle

end Value

open Value (AllAmong)

/-- **The objects of the store**, in the order they were made, and all that frames hold is among
them. -/
structure Store.HasObjects (s : Store) (objects : List Value) : Prop where
  size : objects.length = s.spans.size
  bound : ∀ f, ∀ entry ∈ s.bindings f, entry.2.Among objects

/-- **Numbers stand for one object each** in the store. -/
def Store.Numbered (s : Store) : Prop :=
  ∃ objects, s.HasObjects objects

/-- **Numbers stand for one object each** in the store and in the value together. -/
def Store.Holds (s : Store) (v : Value) : Prop :=
  ∃ objects, s.HasObjects objects ∧ v.Among objects

/-- **The store with another journal.** -/
def Store.withJournal (s : Store) (journal : List Event) : Store :=
  { s with journal }

namespace Store.HasObjects

theorem withJournal (hs : s.HasObjects objects) (journal : List Event) :
    (s.withJournal journal).HasObjects objects :=
  ⟨hs.size, hs.bound⟩

/-- **A new object comes last.** -/
theorem allocate (hs : s.HasObjects objects) (make : Nat → Value) (span : Option Span) :
    (s.allocate make span).2.HasObjects (objects ++ [make s.spans.size]) := by
  refine ⟨by simp [Store.allocate, hs.size], fun f entry hentry => ?_⟩
  exact (hs.bound f entry hentry).mono (List.prefix_append _ _)

theorem bind (hs : s.HasObjects objects) (hv : v.Among objects) (f : Nat) (name : String) :
    (s.bind f name v).HasObjects objects := by
  refine ⟨hs.size, fun g entry hentry => ?_⟩
  rw [Store.bindings_bind] at hentry
  split at hentry
  · rcases Bindings.mem_insert hentry with rfl | hentry
    · exact hv
    · exact hs.bound g entry hentry
  · exact hs.bound g entry hentry

theorem newFrame (hs : s.HasObjects objects) : s.newFrame.2.HasObjects objects := by
  refine ⟨hs.size, fun f entry hentry => ?_⟩
  rw [Store.bindings_newFrame] at hentry
  exact hs.bound f entry hentry

theorem place (hs : s.HasObjects objects) (v : Value) (span : Option Span) :
    (s.place v span).HasObjects objects := by
  have hquiet := s.quiet_place v span
  refine ⟨hs.size.trans hquiet.spans.symm, fun f entry hentry => ?_⟩
  exact hs.bound f entry (hquiet.bindings f ▸ hentry)

/-- **The value of a name** is among the objects. -/
theorem findIn? (hs : s.HasObjects objects) {frames : List Nat} {name : String}
    (h : s.findIn? frames name = some v) : v.Among objects := by
  obtain ⟨f, -, hfound⟩ := List.exists_of_findSome?_eq_some h
  exact hs.bound f _ (mem_of_lookup_eq_some hfound)

end Store.HasObjects

end Lisp
