/-
# The chains that a shape accepts

A shape takes the elements of a chain one by one.  What comes of it depends on the elements and on
the ending of the chain, and is said here in one equation for each outcome: a required element is
missing (`destruct_of_lt`), or else all values are given, if nothing is left or whatever is left may
be (`destruct_of_le`).

A chain is meant to be accepted if it fits (`ArgumentShape.Fits`): it has an element for every
required one, and if the shape has no place for a remainder, it is a proper list with no element too
many.  Such chains are accepted, and what is left of them is what comes after the elements.  Others
are refused, but for one case.

* **Where every element is there** that the shape knows, the ending of the chain is looked at, and
  refused unless it is the empty list or the shape has a place for it.
* **Where an optional element is missing** (`ArgumentShape.RunsOut`), the ending is taken for the
  empty list, whatever it is, and nothing is left of it.

So with one required and one optional element `(1 . 2)` is accepted, without the `2`, while
`(1 1 . 2)` is refused for it (`destruct_drops_ending`).
-/
import Lisp.Evaluator
import Lisp.Proofs.Trees

namespace Lisp

/-! ## 1. Chains -/

namespace Value

theorem isNil_iff {v : Value} : v.isNil = true ↔ v = .nil := by
  cases v <;> simp [isNil]

theorem isNil_iff_elements {v : Value} : v.isNil = true ↔ v.elements = [] ∧ v.isList = true := by
  cases v <;> simp [isNil, elements, isList, ending]

theorem isNil_drop_iff {v : Value} {count : Nat} :
    (v.drop count).isNil = true ↔ v.elements.length ≤ count ∧ v.isList = true := by
  rw [isNil_iff_elements, elements_drop, List.drop_eq_nil_iff, isList, ending_drop, isList]

end Value

namespace ArgumentShape

/-! ## 2. What is taken off a chain -/

theorem takeRequired_pair (name : String) (names : List String) (i : Nat) (head tail : Value) :
    takeRequired (name :: names) (.pair i head tail) =
      (takeRequired names tail).map (Prod.map (head :: ·) id) := by
  change (takeRequired names tail >>= fun taken => .ok (head :: taken.1, taken.2)) = _
  cases takeRequired names tail <;> rfl

theorem takeRequired_of_le {names : List String} {chain : Value}
    (h : names.length ≤ chain.elements.length) :
    takeRequired names chain = .ok (chain.elements.take names.length, chain.drop names.length) := by
  induction names generalizing chain with
  | nil => simp [takeRequired]
  | cons name names ih =>
    cases chain with
    | pair i head tail =>
      rw [takeRequired_pair, ih (Nat.le_of_succ_le_succ h)]
      rfl
    | _ => simp [Value.elements] at h

/-- **The first required element that is missing** is the one that is reported. -/
theorem takeRequired_of_lt {names : List String} {chain : Value}
    (h : chain.elements.length < names.length) :
    takeRequired names chain = .error (.missingArgument names[chain.elements.length]) := by
  induction names generalizing chain with
  | nil => simp at h
  | cons name names ih =>
    cases chain with
    | pair i head tail =>
      rw [takeRequired_pair, ih (Nat.lt_of_succ_lt_succ h)]
      rfl
    | _ => rfl

/-- **A missing element is the empty list**, and then nothing is left. -/
theorem takeOptional_eq (count : Nat) (chain : Value) :
    takeOptional count chain =
      (chain.elements.take count ++ List.replicate (count - chain.elements.length) .nil,
        if chain.elements.length < count then .nil else chain.drop count) := by
  induction count generalizing chain with
  | zero => simp [takeOptional]
  | succ count ih =>
    cases chain with
    | pair id head tail => simp [takeOptional, Arguments.optional, ih, Value.elements, Value.drop]
    | _ =>
      simp only [takeOptional, Arguments.optional, ih]
      cases count <;> simp [Value.elements, List.replicate_succ]

/-! ## 3. What a shape makes of a chain -/

variable (shape : ArgumentShape) (chain : Value)

/-- **How many elements the shape knows**, required ones and optional ones. -/
def capacity : Nat :=
  shape.required.length + shape.optional

/-- **The chain is one that the shape describes.** -/
def Fits : Prop :=
  shape.required.length ≤ chain.elements.length ∧
    (shape.rest = true ∨ chain.isList = true ∧ chain.elements.length ≤ shape.capacity)

/-- **The chain ends among the optional elements, and not in the empty list.** -/
def RunsOut : Prop :=
  shape.required.length ≤ chain.elements.length ∧ chain.elements.length < shape.capacity ∧
    chain.isList = false

instance : Decidable (shape.RunsOut chain) :=
  inferInstanceAs (Decidable (_ ∧ _ ∧ _))

/-- **The elements in order**, and the empty list for each that is missing. -/
def values : List Value :=
  chain.elements.take shape.capacity ++
    List.replicate (shape.capacity - chain.elements.length) .nil

/-- **What is left after the elements**, but that an ending which is met too early is dropped. -/
def remainder : Value :=
  if shape.RunsOut chain then .nil else chain.drop shape.capacity

variable {shape chain}

theorem isNil_remainder_iff :
    (shape.remainder chain).isNil = true ↔
      shape.RunsOut chain ∨ chain.isList = true ∧ chain.elements.length ≤ shape.capacity := by
  unfold remainder
  split
  · next hout => simp [hout, Value.isNil]
  · next hout => rw [Value.isNil_drop_iff, or_iff_right hout, and_comm]

/-- **A required element is missing.** -/
theorem destruct_of_lt (h : chain.elements.length < shape.required.length) :
    shape.destruct chain = .error (.missingArgument shape.required[chain.elements.length]) := by
  rw [destruct, takeRequired_of_lt h]
  rfl

/-- **A chain with fewer elements than the shape knows** is the empty list after them, be it by its
ending or because that is dropped. -/
theorem remainder_of_lt (h : shape.required.length ≤ chain.elements.length)
    (hlt : chain.elements.length < shape.capacity) : shape.remainder chain = .nil := by
  unfold remainder
  split
  · rfl
  · next hout =>
    have hlist : chain.isList = true := by simpa [RunsOut, h, hlt] using hout
    exact Value.isNil_iff.mp (Value.isNil_drop_iff.mpr ⟨Nat.le_of_lt hlt, hlist⟩)

theorem remainder_of_le (h : shape.capacity ≤ chain.elements.length) :
    shape.remainder chain = chain.drop shape.capacity :=
  if_neg fun hout => absurd hout.2.1 (Nat.not_lt.mpr h)

theorem takeOptional_drop (h : shape.required.length ≤ chain.elements.length) :
    takeOptional shape.optional (chain.drop shape.required.length) =
      ((shape.values chain).drop shape.required.length, shape.remainder chain) := by
  rw [takeOptional_eq, Value.elements_drop, Value.drop_drop, ← capacity, List.length_drop]
  refine Prod.ext ?_ ?_
  · have htake : shape.capacity - shape.required.length = shape.optional :=
      Nat.add_sub_cancel_left ..
    have hcount : shape.optional - (chain.elements.length - shape.required.length) =
        shape.capacity - chain.elements.length := by
      rw [capacity]
      omega
    have hlength : shape.required.length ≤ (chain.elements.take shape.capacity).length := by
      rw [List.length_take, capacity]
      omega
    rw [values, List.drop_append_of_le_length hlength, List.drop_take, htake, hcount]
  · have hshort : chain.elements.length - shape.required.length < shape.optional ↔
        chain.elements.length < shape.capacity := by
      rw [capacity]
      omega
    dsimp only
    split
    · next hlt => rw [remainder_of_lt h (hshort.mp hlt)]
    · next hle => rw [remainder_of_le (Nat.not_lt.mp fun hlt => hle (hshort.mpr hlt))]

theorem take_values (h : shape.required.length ≤ chain.elements.length) :
    (shape.values chain).take shape.required.length =
      chain.elements.take shape.required.length := by
  have hcapacity : shape.required.length ≤ shape.capacity := Nat.le_add_right ..
  rw [values, List.take_append_of_le_length (by rw [List.length_take]; omega), List.take_take,
    Nat.min_eq_left hcapacity]

/-- **No required element is missing.** -/
theorem destruct_of_le (h : shape.required.length ≤ chain.elements.length) :
    shape.destruct chain =
      if shape.rest then .ok (shape.values chain ++ [shape.remainder chain])
      else if (shape.remainder chain).isNil then .ok (shape.values chain)
      else .error (.surplusArguments (shape.remainder chain)) := by
  have hvalues : chain.elements.take shape.required.length ++
      (shape.values chain).drop shape.required.length = shape.values chain := by
    rw [← take_values h, List.take_append_drop]
  rw [destruct, takeRequired_of_le h]
  change (if shape.rest = true then .ok (_ ++ _ ++ [_])
    else Arguments.finished _ >>= fun _ => .ok (_ ++ _)) = _
  rw [takeOptional_drop h, hvalues, Arguments.finished]
  cases shape.rest with
  | true => rfl
  | false => cases (shape.remainder chain).isNil <;> rfl

/-- **A chain is accepted if it fits, or if it runs out among the optional elements.** -/
theorem destruct_eq_ok_iff {values : List Value} :
    shape.destruct chain = .ok values ↔
      (shape.Fits chain ∨ shape.RunsOut chain) ∧
        values = shape.values chain ++ if shape.rest then [shape.remainder chain] else [] := by
  rcases Nat.lt_or_ge chain.elements.length shape.required.length with hlt | hle
  · have hfits : ¬ shape.Fits chain := fun h => Nat.not_lt.mpr h.1 hlt
    have hout : ¬ shape.RunsOut chain := fun h => Nat.not_lt.mpr h.1 hlt
    simp [destruct_of_lt hlt, hfits, hout]
  · rw [destruct_of_le hle]
    cases hrest : shape.rest with
    | true =>
      have hfits : shape.Fits chain := ⟨hle, .inl hrest⟩
      simp only [if_true, Except.ok.injEq, hfits, true_or, true_and]
      exact eq_comm
    | false =>
      have haccepts : (shape.remainder chain).isNil = true ↔
          shape.Fits chain ∨ shape.RunsOut chain := by
        rw [isNil_remainder_iff, or_comm]
        simp [Fits, hle, hrest]
      by_cases hnil : (shape.remainder chain).isNil = true
      · have haccepted := haccepts.mp hnil
        simp only [Bool.false_eq_true, if_false, hnil, if_true, Except.ok.injEq, haccepted,
          true_and, List.append_nil]
        exact eq_comm
      · have hrefused := mt haccepts.mpr hnil
        simp [hnil, hrefused]

/-- **All other chains are refused** as an invalid form. -/
theorem kind_of_destruct_eq_error {fault : Fault} (h : shape.destruct chain = .error fault) :
    fault.kind = .invalidForm := by
  rcases Nat.lt_or_ge chain.elements.length shape.required.length with hlt | hle
  · rw [destruct_of_lt hlt] at h
    cases h
    rfl
  · rw [destruct_of_le hle] at h
    split at h
    · cases h
    · split at h
      · cases h
      · cases h
        rfl

/-- **What a shape makes of a chain.**  It accepts the chains that fit, and beyond them those that
run out among the optional elements; a remainder it takes is what comes after the elements, but the
empty list where a chain runs out.  Every other chain is refused as an invalid form. -/
theorem destruct_accepts (shape : ArgumentShape) (chain : Value) :
    (∀ values, shape.destruct chain = .ok values ↔
      (shape.Fits chain ∨ shape.RunsOut chain) ∧
        values = shape.values chain ++ if shape.rest then [shape.remainder chain] else []) ∧
    ((∃ fault, shape.destruct chain = .error fault ∧ fault.kind = .invalidForm) ↔
      ¬ (shape.Fits chain ∨ shape.RunsOut chain)) := by
  refine ⟨fun _ => destruct_eq_ok_iff, ?_, ?_⟩
  · rintro ⟨fault, herror, -⟩ haccepted
    have hok := destruct_eq_ok_iff.mpr ⟨haccepted, rfl⟩
    rw [herror] at hok
    cases hok
  · intro hrefused
    cases hdestruct : shape.destruct chain with
    | error fault => exact ⟨fault, rfl, kind_of_destruct_eq_error hdestruct⟩
    | ok values => exact absurd (destruct_eq_ok_iff.mp hdestruct).1 hrefused

/-- For one required and one optional element `(1 . 2)` is accepted, and the `2` is dropped, but
behind two elements the same ending is refused.  A place for a remainder does not save it. -/
theorem destruct_drops_ending :
    let one : Value := .atom 1 (.integer 1)
    let two : Value := .atom 2 (.integer 2)
    let chain : Value := .pair 0 one two
    chain.isList = false ∧
      (⟨["a"], 1, false⟩ : ArgumentShape).destruct chain = .ok [one, .nil] ∧
      (⟨["a"], 1, false⟩ : ArgumentShape).destruct (.pair 3 one chain) =
        .error (.surplusArguments two) ∧
      (⟨["a"], 1, true⟩ : ArgumentShape).destruct chain = .ok [one, .nil, .nil] ∧
      chain.drop 2 = two := by
  intro one two chain
  exact ⟨rfl, rfl, rfl, rfl, rfl⟩

/-! ## 4. Special forms -/

/-- **Without optional elements and a remainder** the accepted chains are the proper lists of the
right length. -/
theorem destruct_required_eq_ok_iff {names : List String} {values : List Value} :
    (⟨names, 0, false⟩ : ArgumentShape).destruct chain = .ok values ↔
      chain.isList = true ∧ chain.elements = values ∧ values.length = names.length := by
  have hout : ¬ RunsOut ⟨names, 0, false⟩ chain := fun h => Nat.not_lt.mpr h.1 h.2.1
  rw [destruct_eq_ok_iff, or_iff_left hout]
  simp only [Fits, ArgumentShape.values, capacity, Nat.add_zero, Bool.false_eq_true, false_or,
    if_false, List.append_nil]
  constructor
  · rintro ⟨⟨hle, hlist, hge⟩, rfl⟩
    have hlength : chain.elements.length = names.length := Nat.le_antisymm hge hle
    simp [hlist, hlength, List.take_of_length_le hge]
  · rintro ⟨hlist, rfl, hlength⟩
    simp [hlist, hlength, List.take_of_length_le (Nat.le_of_eq hlength)]

end ArgumentShape

namespace Arguments

theorem destruct_single (name : String) (args : Value) :
    (⟨[name], 0, false⟩ : ArgumentShape).destruct args = (single name args).map ([·]) := by
  cases args with
  | pair i head tail => cases tail <;> rfl
  | _ => rfl

theorem destruct_double (first second : String) (args : Value) :
    (⟨[first, second], 0, false⟩ : ArgumentShape).destruct args =
      (double first second args).map fun (a, b) => [a, b] := by
  cases args with
  | pair i head tail =>
    cases tail with
    | pair j head' tail' => cases tail' <;> rfl
    | _ => rfl
  | _ => rfl

/-- **One argument is taken off a list of one element**, and off nothing else. -/
theorem single_eq_ok_iff {name : String} {args value : Value} :
    single name args = .ok value ↔ args.isList = true ∧ args.elements = [value] := by
  have hshape : (single name args).map ([·]) = .ok [value] ↔
      args.isList = true ∧ args.elements = [value] := by
    rw [← destruct_single, ArgumentShape.destruct_required_eq_ok_iff]
    simp
  rw [← hshape]
  cases single name args <;> simp [Except.map]

/-- **Two arguments are taken off a list of two elements**, and off nothing else. -/
theorem double_eq_ok_iff {first second : String} {args a b : Value} :
    double first second args = .ok (a, b) ↔ args.isList = true ∧ args.elements = [a, b] := by
  have hshape : ((double first second args).map fun (a, b) => [a, b]) = .ok [a, b] ↔
      args.isList = true ∧ args.elements = [a, b] := by
    rw [← destruct_double, ArgumentShape.destruct_required_eq_ok_iff]
    simp
  rw [← hshape]
  cases double first second args <;> simp [Except.map, Prod.ext_iff]

end Arguments

/-- **A conditional form takes its arguments apart by a shape**, so it takes `(if #t 1 . 2)` for a
form without an `else`. -/
theorem Perform.conditional_eq (b : Below) (args : Value) (scope : Scope) :
    Perform.conditional b args scope =
      Effect.ofExcept ((⟨["condition", "then_branch"], 1, false⟩ : ArgumentShape).destruct args) >>=
        fun values => b.evaluate (values.getD 0 .nil) scope >>= fun value =>
          if value.isFalse then b.evaluate (values.getD 2 .nil) scope
          else b.evaluate (values.getD 1 .nil) scope := by
  cases args with
  | pair i test rest =>
    cases rest with
    | pair j consequent rest =>
      cases rest with
      | pair k alternative rest => cases rest <;> rfl
      | _ => rfl
    | _ => rfl
  | _ => rfl

end Lisp
