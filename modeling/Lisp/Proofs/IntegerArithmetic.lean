/-
# Sums, differences and products never wrap

`+`, `-` and `*` combine their arguments from left to right.  As long as these are integers, what
they come to so far is an integer too, and exact (`ExactOperation.running`); the first result that
does not fit in 64 bits ends the call.  From the first float on all results are floats, and then
nothing can fail any more but an argument that is no number.

So a call on numbers fails exactly if one of the exact results over the integers in front of the
first float is out of range.  It does not matter whether later arguments would bring the result back
into the range.  A single argument of `-` is taken from zero.
-/
import Mathlib
import Lisp.Host.Function

namespace Lisp

variable {n : Int} {a b : HostValue} {args rest : List HostValue}

/-! ## 1. Integers of 64 bits -/

/-- **The integer fits in 64 bits.** -/
def InRange (n : Int) : Prop :=
  -2 ^ 63 ≤ n ∧ n ≤ 2 ^ 63 - 1

instance : DecidablePred InRange := fun n =>
  inferInstanceAs (Decidable (-2 ^ 63 ≤ n ∧ n ≤ 2 ^ 63 - 1))

theorem inRange_toInt (n : Int64) : InRange n.toInt := by
  have hlow := n.le_toInt
  have hhigh := n.toInt_lt
  unfold InRange
  omega

namespace Arithmetic

theorem fits_iff : fits n = true ↔ InRange n := by
  have hmin : Int64.minValue.toInt = -2 ^ 63 := by decide
  have hmax : Int64.maxValue.toInt = 2 ^ 63 - 1 := by decide
  simp [fits, InRange, hmin, hmax]

theorem exactly_of_inRange (h : InRange n) :
    ∃ k : Int64, k.toInt = n ∧ exactly n = .ok (.integer k) := by
  refine ⟨Int64.ofInt n, Int64.toInt_ofInt_of_le h.1 ?_, if_pos (fits_iff.mpr h)⟩
  have hhigh := h.2
  omega

theorem exactly_of_not_inRange (h : ¬ InRange n) : exactly n = .error .integerOverflow :=
  if_neg (mt fits_iff.mp h)

section Steps

variable {op : HostValue → HostValue → Except HostFault HostValue}

theorem foldlM_of_ok {c : HostValue} (h : op a b = .ok c) (rest : List HostValue) :
    (b :: rest).foldlM op a = rest.foldlM op c := by
  rw [List.foldlM_cons, h]
  rfl

theorem foldlM_of_error {fault : HostFault} (h : op a b = .error fault)
    (rest : List HostValue) : (b :: rest).foldlM op a = .error fault := by
  rw [List.foldlM_cons, h]
  rfl

end Steps

end Arithmetic

/-! ## 2. The three operations -/

/-- **The operations that are exact on integers.** -/
inductive ExactOperation where
  | sum
  | difference
  | product
deriving DecidableEq

namespace ExactOperation

/-- **The host function of the operation.** -/
def name : ExactOperation → String
  | .sum => "+"
  | .difference => "-"
  | .product => "*"

/-- **The operation on its arguments.** -/
def compute : ExactOperation → List HostValue → Except HostFault HostValue
  | .sum => Arithmetic.sum
  | .difference => Arithmetic.difference
  | .product => Arithmetic.product

/-- **One step on two values.** -/
def pair : ExactOperation → HostValue → HostValue → Except HostFault HostValue
  | .sum => Arithmetic.add
  | .difference => Arithmetic.subtract
  | .product => Arithmetic.multiply

/-- **The exact operation.** -/
def onIntegers : ExactOperation → Int → Int → Int
  | .sum => (· + ·)
  | .difference => (· - ·)
  | .product => (· * ·)

/-- **The exact results over the first 1, 2, ... integers**, from left to right. -/
def running (op : ExactOperation) : List Int → List Int
  | [] => []
  | n :: ns => ns.scanl op.onIntegers n

variable (op : ExactOperation)

theorem pair_integers (m n : Int64) :
    op.pair (.integer m) (.integer n) = Arithmetic.exactly (op.onIntegers m.toInt n.toInt) := by
  cases op <;> rfl

theorem pair_float_right (x : Float) (ha : a.isNumber = true) :
    ∃ y, op.pair a (.float x) = .ok (.float y) := by
  cases a with
  | integer | float => cases op <;> exact ⟨_, rfl⟩
  | _ => cases ha

theorem pair_float_left (x : Float) (hb : b.isNumber = true) :
    ∃ y, op.pair (.float x) b = .ok (.float y) := by
  cases b with
  | integer | float => cases op <;> exact ⟨_, rfl⟩
  | _ => cases hb

theorem pair_no_number (ha : a.isNumber = true) (hb : b.isNumber = false) :
    op.pair a b = .error (.notANumber b) := by
  cases b with
  | integer | float => cases hb
  | _ =>
    cases a with
    | integer | float => cases op <;> rfl
    | _ => cases ha

/-- **A step on two numbers gives a number or fails.** -/
theorem pair_numbers (ha : a.isNumber = true) (hb : b.isNumber = true) :
    (∃ c, op.pair a b = .ok c ∧ c.isNumber = true) ∨ ∃ fault, op.pair a b = .error fault := by
  cases a with
  | integer m =>
    cases b with
    | integer n =>
      rw [pair_integers]
      by_cases h : InRange (op.onIntegers m.toInt n.toInt)
      · obtain ⟨k, _, hk⟩ := Arithmetic.exactly_of_inRange h
        exact .inl ⟨_, hk, rfl⟩
      · exact .inr ⟨_, Arithmetic.exactly_of_not_inRange h⟩
    | float x =>
      obtain ⟨y, hy⟩ := op.pair_float_right x ha
      exact .inl ⟨_, hy, rfl⟩
    | _ => cases hb
  | float x =>
    obtain ⟨y, hy⟩ := op.pair_float_left x hb
    exact .inl ⟨_, hy, rfl⟩
  | _ => cases ha

/-- Only a difference of a single argument is not taken from left to right. -/
theorem compute_eq_reduce (hne : args ≠ []) (h : ¬ (op = .difference ∧ ∃ only, args = [only])) :
    op.compute args = Arithmetic.reduce op.pair args := by
  cases args with
  | nil => exact absurd rfl hne
  | cons first rest =>
    cases rest with
    | nil =>
      cases op with
      | difference => exact absurd ⟨rfl, first, rfl⟩ h
      | _ => rfl
    | cons => cases op <;> rfl

end ExactOperation

/-! ## 3. From left to right -/

/-- **The integers in front of the first other value.** -/
def leadingIntegers : List HostValue → List Int
  | [] => []
  | .integer n :: rest => n.toInt :: leadingIntegers rest
  | _ :: _ => []

/-- **What numbers yield** whose exact results are these: the last one, or some float if there is a
float among the numbers; and an overflow if one of the exact results is out of range. -/
inductive Yields (args : List HostValue) (results : List Int) :
    Except HostFault HostValue → Prop where
  | integer {k : Int64} (hfit : ∀ r ∈ results, InRange r) (hall : ∀ a ∈ args, ∃ n, a = .integer n)
    (hlast : results.getLast? = some k.toInt) : Yields args results (.ok (.integer k))
  | float {x y : Float} (hfit : ∀ r ∈ results, InRange r) (hfloat : .float x ∈ args) :
    Yields args results (.ok (.float y))
  | overflow {r : Int} (hr : r ∈ results) (hout : ¬ InRange r) :
    Yields args results (.error .integerOverflow)

namespace Yields

variable {results : List Int} {result : Except HostFault HostValue}

theorem cons_integer (h : Yields rest results result) (m : Int64) :
    Yields (.integer m :: rest) results result := by
  cases h with
  | integer hfit hall hlast =>
    exact .integer hfit (List.forall_mem_cons.mpr ⟨⟨m, rfl⟩, hall⟩) hlast
  | float hfit hfloat => exact .float hfit (List.mem_cons_of_mem _ hfloat)
  | overflow hr hout => exact .overflow hr hout

/-- A result in front that is in range decides nothing. -/
theorem cons_result (h : Yields args results result) (hn : InRange n) (hne : results ≠ []) :
    Yields args (n :: results) result := by
  cases h with
  | integer hfit hall hlast =>
    refine .integer (List.forall_mem_cons.mpr ⟨hn, hfit⟩) hall ?_
    rw [List.getLast?_cons_of_ne_nil hne, hlast]
  | float hfit hfloat => exact .float (List.forall_mem_cons.mpr ⟨hn, hfit⟩) hfloat
  | overflow hr hout => exact .overflow (List.mem_cons_of_mem _ hr) hout

end Yields

namespace ExactOperation

variable (op : ExactOperation)

/-- **A value that is no number ends the call**, if it has not failed before. -/
theorem foldlM_no_number (ha : a.isNumber = true) (h : ∃ b ∈ rest, b.isNumber = false) :
    ∃ fault, rest.foldlM op.pair a = .error fault := by
  induction rest generalizing a with
  | nil => simp at h
  | cons b rest ih =>
    by_cases hb : b.isNumber = true
    · rcases op.pair_numbers ha hb with ⟨c, hc, hnumber⟩ | ⟨fault, hfault⟩
      · rw [Arithmetic.foldlM_of_ok hc]
        refine ih hnumber ?_
        simpa [hb] using h
      · exact ⟨fault, Arithmetic.foldlM_of_error hfault rest⟩
    · exact ⟨_, Arithmetic.foldlM_of_error (op.pair_no_number ha (Bool.eq_false_iff.mpr hb)) rest⟩

/-- **From a float on the results are floats.** -/
theorem foldlM_float (x : Float) (h : ∀ b ∈ rest, b.isNumber = true) :
    ∃ y, rest.foldlM op.pair (.float x) = .ok (.float y) := by
  induction rest generalizing x with
  | nil => exact ⟨x, rfl⟩
  | cons b rest ih =>
    obtain ⟨hb, hrest⟩ := List.forall_mem_cons.mp h
    obtain ⟨y, hy⟩ := op.pair_float_left x hb
    rw [Arithmetic.foldlM_of_ok hy]
    exact ih y hrest

/-- **What an integer and numbers after it yield.** -/
theorem yields_foldlM (m : Int64) (h : ∀ b ∈ rest, b.isNumber = true) :
    Yields rest ((leadingIntegers rest).scanl op.onIntegers m.toInt)
      (rest.foldlM op.pair (.integer m)) := by
  induction rest generalizing m with
  | nil =>
    rw [leadingIntegers, List.scanl_nil]
    exact .integer (by simpa using inRange_toInt m) (by simp) rfl
  | cons b rest ih =>
    obtain ⟨hb, hrest⟩ := List.forall_mem_cons.mp h
    cases b with
    | integer n =>
      rw [leadingIntegers, List.scanl_cons]
      by_cases hfits : InRange (op.onIntegers m.toInt n.toInt)
      · obtain ⟨k, hk, hexactly⟩ := Arithmetic.exactly_of_inRange hfits
        rw [Arithmetic.foldlM_of_ok ((op.pair_integers m n).trans hexactly), ← hk]
        exact ((ih k hrest).cons_integer n).cons_result (inRange_toInt m) List.scanl_ne_nil
      · have hoverflow := Arithmetic.exactly_of_not_inRange hfits
        rw [Arithmetic.foldlM_of_error ((op.pair_integers m n).trans hoverflow)]
        refine .overflow (List.mem_cons_of_mem _ ?_) hfits
        cases leadingIntegers rest <;> simp
    | float x =>
      obtain ⟨y, hy⟩ := op.pair_float_right x (a := .integer m) rfl
      obtain ⟨z, hz⟩ := op.foldlM_float y hrest
      rw [Arithmetic.foldlM_of_ok hy, hz]
      exact .float (x := x) (by simpa [leadingIntegers] using inRange_toInt m) (by simp)
    | _ => cases hb

/-- **The partial results of a call**: the exact ones over the first 1, 2, ... of the integers in
front of the first float.  If there is only one argument a difference takes it from zero. -/
def partials : ExactOperation → List HostValue → List Int
  | .difference, [.integer n] => [0 - n.toInt]
  | op, args => op.running (leadingIntegers args)

theorem yields_reduce (h : ∀ a ∈ args, a.isNumber = true) (hne : args ≠ []) :
    Yields args (op.running (leadingIntegers args)) (Arithmetic.reduce op.pair args) := by
  cases args with
  | nil => exact absurd rfl hne
  | cons first rest =>
    obtain ⟨hfirst, hrest⟩ := List.forall_mem_cons.mp h
    cases first with
    | integer m => exact (op.yields_foldlM m hrest).cons_integer m
    | float x =>
      obtain ⟨y, hy⟩ := op.foldlM_float x hrest
      have hreduce : Arithmetic.reduce op.pair (.float x :: rest) = .ok (.float y) := hy
      rw [hreduce]
      exact .float (by simp [leadingIntegers, running]) List.mem_cons_self
    | _ => cases hfirst

/-- **What numbers yield in a call.** -/
theorem yields_compute (h : ∀ a ∈ args, a.isNumber = true) (hne : args ≠ []) :
    Yields args (op.partials args) (op.compute args) := by
  by_cases hsingle : op = .difference ∧ ∃ only, args = [only]
  · obtain ⟨rfl, only, rfl⟩ := hsingle
    cases only with
    | integer n =>
      have hstep : compute .difference [.integer n] = Arithmetic.exactly (0 - n.toInt) :=
        pair_integers .difference 0 n
      rw [hstep, partials]
      by_cases hfits : InRange (0 - n.toInt)
      · obtain ⟨k, hk, hexactly⟩ := Arithmetic.exactly_of_inRange hfits
        rw [hexactly]
        exact .integer (by simpa using hfits) (by simp) (by rw [hk]; rfl)
      · rw [Arithmetic.exactly_of_not_inRange hfits]
        exact .overflow List.mem_cons_self hfits
    | float x =>
      obtain ⟨y, hy⟩ := pair_float_right (a := .integer 0) .difference x rfl
      have hstep : compute .difference [.float x] = .ok (.float y) := hy
      rw [hstep]
      exact .float (x := x) (by simp [partials, leadingIntegers, running]) (by simp)
    | _ => simp [HostValue.isNumber] at h
  · have hpartials : op.partials args = op.running (leadingIntegers args) := by
      unfold partials
      split
      · exact absurd ⟨rfl, _, rfl⟩ hsingle
      · rfl
    rw [hpartials, op.compute_eq_reduce hne hsingle]
    exact op.yields_reduce h hne

theorem compute_no_number (h : ∃ a ∈ args, a.isNumber = false) :
    ∃ fault, op.compute args = .error fault := by
  have hne : args ≠ [] := by
    rintro rfl
    simp at h
  by_cases hsingle : op = .difference ∧ ∃ only, args = [only]
  · obtain ⟨rfl, only, rfl⟩ := hsingle
    have honly : only.isNumber = false := by simpa using h
    exact ⟨_, pair_no_number .difference rfl honly⟩
  · rw [op.compute_eq_reduce hne hsingle]
    cases args with
    | nil => exact absurd rfl hne
    | cons first rest =>
      by_cases hfirst : first.isNumber = true
      · have hrest : ∃ b ∈ rest, b.isNumber = false := by simpa [hfirst] using h
        obtain ⟨fault, hfault⟩ := op.foldlM_no_number hfirst hrest
        cases first with
        | integer | float => exact ⟨fault, hfault⟩
        | _ => cases hfirst
      · cases first with
        | integer | float => exact absurd rfl hfirst
        | _ => exact ⟨_, rfl⟩

end ExactOperation

/-- **Sums, differences and products are exact or fail.**  An argument that is no number makes a call
fail.  Integers yield the last of their partial results, which are exact, if all of these are in
range, and an overflow otherwise.  With a float among the numbers the result is a float, unless a
partial result over the integers in front of the first float is out of range.  The empty sum is 0
and the empty product 1. -/
theorem exact_operations_never_wrap :
    (∀ (op : ExactOperation) (args : List HostValue),
      HostFunction.standard.lookup op.name = some (.silent op.compute) ∧
      ((∃ a ∈ args, a.isNumber = false) → ∃ fault, op.compute args = .error fault) ∧
      (args ≠ [] → (∀ a ∈ args, a.isNumber = true) →
        Yields args (op.partials args) (op.compute args))) ∧
    ExactOperation.sum.compute [] = .ok (.integer 0) ∧
    ExactOperation.product.compute [] = .ok (.integer 1) := by
  refine ⟨fun op args => ⟨?_, op.compute_no_number, fun hne h => op.yields_compute h hne⟩, rfl, rfl⟩
  cases op <;> rfl

/-- The largest integer and 1 are too large together, also if 1 is taken off again. -/
theorem exact_operations_never_wrap_back :
    let args : List HostValue := [.integer Int64.maxValue, .integer 1, .integer (-1)]
    args ≠ [] ∧ (∀ a ∈ args, a.isNumber = true) ∧ InRange (leadingIntegers args).sum ∧
      ExactOperation.sum.compute args = .error .integerOverflow ∧
      HostFault.integerOverflow.message = "integer overflow" := by
  intro args
  have hne : args ≠ [] := by simp [args]
  have hnumbers : ∀ a ∈ args, a.isNumber = true := by decide
  have hout : ¬ ∀ r ∈ ExactOperation.sum.partials args, InRange r := by decide
  have hyields := (exact_operations_never_wrap.1 .sum args).2.2 hne hnumbers
  refine ⟨hne, hnumbers, by decide, ?_, rfl⟩
  generalize ExactOperation.sum.compute args = result at hyields
  cases hyields with
  | integer hfit | float hfit => exact absurd hfit hout
  | overflow => rfl

end Lisp
