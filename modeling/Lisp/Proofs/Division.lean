/-
# Quotients and remainders of integers

`/` and `%` combine their arguments from left to right, and refuse a divisor that is zero before
they look at anything else.  Of two integers whose divisor is not zero only -2^63 and -1 have a
quotient that does not fit in 64 bits (`inRange_tdiv_iff`), and both functions ask whether it fits.

* **Quotients.**  As long as a division leaves nothing and its quotient fits, the result stays an
  integer, and exact.  The first division of another kind is done on doubles, and so are all that
  follow.  Hence `/` cannot fail on integers, and 2^63 comes out as a float, although it is the
  exact quotient (`quotient_of_minimum`).
* **Remainders.**  The remainder itself always fits.  The one pair whose quotient does not is
  refused as an overflow (`remainders_of_minimum`).  It can only be the first two arguments, since a
  remainder is smaller than its divisor.
-/
import Lisp.Proofs.IntegerArithmetic

namespace Lisp

namespace Arithmetic

variable {m n : Int64} {divisors numbers : List Int64}

/-! ## 1. One division -/

theorem toInt_ne_zero (hn : n ≠ 0) : n.toInt ≠ 0 :=
  fun h => hn (Int64.toInt_inj.mp h)

/-- **All quotients of two integers fit in 64 bits but one.** -/
theorem inRange_tdiv_iff (hn : n ≠ 0) :
    InRange (m.toInt.tdiv n.toInt) ↔ ¬ (m = Int64.minValue ∧ n = -1) := by
  have hm := inRange_toInt m
  have hzero := toInt_ne_zero hn
  have habs := Int.natAbs_tdiv m.toInt n.toInt
  have hminimum : Int64.minValue.toInt = -2 ^ 63 := by decide
  constructor
  · rintro hfits ⟨rfl, rfl⟩
    exact absurd hfits (by decide)
  · intro hpair
    unfold InRange at hm ⊢
    by_cases hunit : n.toInt.natAbs = 1
    · rcases (by omega : n.toInt = 1 ∨ n.toInt = -1) with h | h
      · rw [h, Int.tdiv_one]
        exact hm
      · have hne : m.toInt ≠ -2 ^ 63 := fun hmin =>
          hpair ⟨Int64.toInt_inj.mp (hmin.trans hminimum.symm), Int64.toInt_inj.mp h⟩
        rw [h, Int.tdiv_neg, Int.tdiv_one]
        omega
    · have hhalf : m.toInt.natAbs / n.toInt.natAbs ≤ m.toInt.natAbs / 2 :=
        Nat.div_le_div_left (by omega) (by decide)
      change _ = m.toInt.natAbs / n.toInt.natAbs at habs
      omega

theorem nonzero_integer (op : HostValue → HostValue → Except HostFault HostValue) (a : HostValue)
    (hn : n ≠ 0) : nonzero op a (.integer n) = op a (.integer n) :=
  if_neg (by simpa [HostValue.isZero] using hn)

theorem integerRemainder?_eq (hn : n ≠ 0) : integerRemainder? m n =
    if m = Int64.minValue ∧ n = -1 then none else some (m.toInt.tmod n.toInt) := by
  simp only [integerRemainder?, fits_iff, inRange_tdiv_iff hn, hn, ne_eq, not_false_eq_true,
    true_and, ite_not]

/-! ## 2. Quotients -/

/-- **A division that leaves nothing and whose quotient fits** gives the exact quotient. -/
theorem divide_exact (hn : n ≠ 0) (hdvd : n.toInt ∣ m.toInt)
    (hfits : InRange (m.toInt.tdiv n.toInt)) :
    ∃ k : Int64, k.toInt = m.toInt.tdiv n.toInt ∧
      divide (.integer m) (.integer n) = .ok (.integer k) := by
  obtain ⟨k, hk, hexactly⟩ := exactly_of_inRange hfits
  have hnothing : integerRemainder? m n = some 0 := by
    rw [integerRemainder?_eq hn, if_neg ((inRange_tdiv_iff hn).mp hfits),
      Int.tmod_eq_zero_of_dvd hdvd]
  refine ⟨k, hk, ?_⟩
  rw [divide, nonzero_integer _ _ hn, ← hexactly]
  exact if_pos hnothing

/-- **Any other division** is done on doubles. -/
theorem divide_inexact (hn : n ≠ 0)
    (h : ¬ (n.toInt ∣ m.toInt ∧ InRange (m.toInt.tdiv n.toInt))) :
    divide (.integer m) (.integer n) = .ok (.float (integerToFloat m / integerToFloat n)) := by
  have hsomething : integerRemainder? m n ≠ some 0 := by
    rw [integerRemainder?_eq hn]
    split
    · exact nofun
    · next hpair =>
      have hfits := (inRange_tdiv_iff hn).mpr hpair
      exact fun hzero => h ⟨Int.dvd_of_tmod_eq_zero (Option.some.inj hzero), hfits⟩
  rw [divide, nonzero_integer _ _ hn]
  exact if_neg hsomething

/-- **From a float on the quotients are floats.** -/
theorem foldlM_divide_float (x : Float) (hdivisors : ∀ n ∈ divisors, n ≠ 0) :
    ∃ y, (divisors.map .integer).foldlM divide (.float x) = .ok (.float y) := by
  induction divisors generalizing x with
  | nil => exact ⟨x, rfl⟩
  | cons n divisors ih =>
    obtain ⟨hn, hrest⟩ := List.forall_mem_cons.mp hdivisors
    have hdivide : divide (.float x) (.integer n) = .ok (.float (x / integerToFloat n)) :=
      nonzero_integer _ _ hn
    rw [List.map_cons, foldlM_of_ok hdivide]
    exact ih _ hrest

/-- **Every division leaves nothing**, from left to right. -/
def DividesThrough : Int → List Int → Prop
  | _, [] => True
  | a, b :: divisors => b ∣ a ∧ DividesThrough (a.tdiv b) divisors

instance decidableDividesThrough :
    ∀ (a : Int) (divisors : List Int), Decidable (DividesThrough a divisors)
  | _, [] => .isTrue trivial
  | a, b :: divisors =>
    have := decidableDividesThrough (a.tdiv b) divisors
    inferInstanceAs (Decidable (b ∣ a ∧ DividesThrough (a.tdiv b) divisors))

/-- **The exact quotients** by the first 0, 1, 2, ... divisors, from left to right. -/
def partialQuotients (a : Int) (divisors : List Int) : List Int :=
  divisors.scanl Int.tdiv a

theorem partialQuotients_cons (a b : Int) (divisors : List Int) :
    partialQuotients a (b :: divisors) = a :: partialQuotients (a.tdiv b) divisors :=
  List.scanl_cons

theorem mem_partialQuotients_self (a : Int) (divisors : List Int) :
    a ∈ partialQuotients a divisors := by
  cases divisors <;> simp [partialQuotients]

/-- **What dividing by several integers in turn gives**: the last partial quotient, if every
division leaves nothing and all partial quotients fit, and a float otherwise. -/
theorem foldlM_divide (m : Int64) (hdivisors : ∀ n ∈ divisors, n ≠ 0) :
    let exact := DividesThrough m.toInt (divisors.map Int64.toInt) ∧
      ∀ q ∈ partialQuotients m.toInt (divisors.map Int64.toInt), InRange q
    (exact → ∃ k : Int64,
      (partialQuotients m.toInt (divisors.map Int64.toInt)).getLast? = some k.toInt ∧
        (divisors.map .integer).foldlM divide (.integer m) = .ok (.integer k)) ∧
    (¬ exact → ∃ x, (divisors.map .integer).foldlM divide (.integer m) = .ok (.float x)) := by
  induction divisors generalizing m with
  | nil =>
    refine ⟨fun _ => ⟨m, rfl, rfl⟩, fun hnot => absurd ⟨trivial, ?_⟩ hnot⟩
    simpa [partialQuotients] using inRange_toInt m
  | cons n divisors ih =>
    obtain ⟨hn, hrest⟩ := List.forall_mem_cons.mp hdivisors
    simp only [List.map_cons, DividesThrough, partialQuotients_cons, List.forall_mem_cons,
      inRange_toInt m, true_and]
    by_cases hstep : n.toInt ∣ m.toInt ∧ InRange (m.toInt.tdiv n.toInt)
    · obtain ⟨k, hk, hdivide⟩ := divide_exact hn hstep.1 hstep.2
      have hne : partialQuotients k.toInt (divisors.map Int64.toInt) ≠ [] :=
        List.ne_nil_of_mem (mem_partialQuotients_self _ _)
      rw [← hk, foldlM_of_ok hdivide, List.getLast?_cons_of_ne_nil hne]
      simpa [hstep.1] using ih k hrest
    · obtain ⟨x, hx⟩ := foldlM_divide_float (integerToFloat m / integerToFloat n) hrest
      rw [foldlM_of_ok (divide_inexact hn hstep)]
      refine ⟨fun hexact => absurd ⟨hexact.1.1, ?_⟩ hstep, fun _ => ⟨x, hx⟩⟩
      exact hexact.2 _ (mem_partialQuotients_self _ _)

/-- **An exact quotient is too large** only where -2^63 is divided by -1, after nothing but ones. -/
theorem minimum_of_not_inRange (hdivisors : ∀ n ∈ divisors, n ≠ 0)
    (hexact : DividesThrough m.toInt (divisors.map Int64.toInt))
    (hout : ∃ q ∈ partialQuotients m.toInt (divisors.map Int64.toInt), ¬ InRange q) :
    m = Int64.minValue ∧ ∃ ones rest, divisors = ones ++ -1 :: rest ∧ ∀ n ∈ ones, n = 1 := by
  induction divisors generalizing m with
  | nil =>
    obtain ⟨q, hq, hout⟩ := hout
    obtain rfl : q = m.toInt := by simpa [partialQuotients] using hq
    exact absurd (inRange_toInt m) hout
  | cons n divisors ih =>
    obtain ⟨hn, hrest⟩ := List.forall_mem_cons.mp hdivisors
    obtain ⟨hdvd, hthrough⟩ := hexact
    by_cases hfits : InRange (m.toInt.tdiv n.toInt)
    · obtain ⟨k, hk, -⟩ := exactly_of_inRange hfits
      have hproduct : m.toInt = k.toInt * n.toInt := by rw [hk, Int.tdiv_mul_cancel hdvd]
      rw [List.map_cons, partialQuotients_cons, List.exists_mem_cons_iff,
        or_iff_right (not_not.mpr (inRange_toInt m)), ← hk] at hout
      rw [← hk] at hthrough
      obtain ⟨rfl, ones, rest, rfl, hones⟩ := ih hrest hthrough hout
      -- the product of -2^63 and the divisor fits, so the divisor is one
      have hrange := inRange_toInt m
      have hzero := toInt_ne_zero hn
      have hminimum : Int64.minValue.toInt = -2 ^ 63 := by decide
      rw [hminimum] at hproduct
      unfold InRange at hrange
      have hone : n.toInt = 1 := by omega
      have hm : m.toInt = Int64.minValue.toInt := by omega
      refine ⟨Int64.toInt_inj.mp hm, n :: ones, rest, rfl, ?_⟩
      exact List.forall_mem_cons.mpr ⟨Int64.toInt_inj.mp hone, hones⟩
    · obtain ⟨rfl, rfl⟩ := not_not.mp (mt (inRange_tdiv_iff hn).mpr hfits)
      exact ⟨rfl, [], divisors, rfl, nofun⟩

/-- **The numbers that a call of `/` divides in turn**: a single one divides 1. -/
def quotientOperands : List Int64 → List Int64
  | [n] => [1, n]
  | numbers => numbers

theorem quotient_integers {m : Int64} (h : quotientOperands numbers = m :: divisors) :
    quotient (numbers.map .integer) = (divisors.map .integer).foldlM divide (.integer m) := by
  match numbers, h with
  | [n], h =>
    obtain ⟨rfl, rfl⟩ := List.cons.inj h
    exact (bind_pure (divide (.integer 1) (.integer n))).symm
  | _ :: _ :: _, h =>
    obtain ⟨rfl, rfl⟩ := List.cons.inj h
    rfl

/-- **Quotients of integers are exact or floats.**  Where no divisor is zero a call never fails.  It
gives the last of the exact quotients if every division leaves nothing and all of these quotients
fit in 64 bits, and a float otherwise.  An exact quotient that does not fit comes from -2^63 divided
by -1, after nothing but ones. -/
theorem quotient_of_integers {m : Int64} (hoperands : quotientOperands numbers = m :: divisors)
    (hdivisors : ∀ n ∈ divisors, n ≠ 0) :
    let quotients := partialQuotients m.toInt (divisors.map Int64.toInt)
    let leavesNothing := DividesThrough m.toInt (divisors.map Int64.toInt)
    HostFunction.standard.lookup "/" = some (.silent quotient) ∧
    (leavesNothing → (∀ q ∈ quotients, InRange q) →
      ∃ k : Int64, quotients.getLast? = some k.toInt ∧
        quotient (numbers.map .integer) = .ok (.integer k)) ∧
    (¬ (leavesNothing ∧ ∀ q ∈ quotients, InRange q) →
      ∃ x, quotient (numbers.map .integer) = .ok (.float x)) ∧
    (leavesNothing → (∃ q ∈ quotients, ¬ InRange q) →
      m = Int64.minValue ∧ ∃ ones rest, divisors = ones ++ -1 :: rest ∧ ∀ n ∈ ones, n = 1) := by
  intro quotients leavesNothing
  obtain ⟨hinteger, hfloat⟩ := foldlM_divide m hdivisors
  rw [quotient_integers hoperands]
  exact ⟨rfl, fun hnothing hfits => hinteger ⟨hnothing, hfits⟩, hfloat,
    minimum_of_not_inRange hdivisors⟩

/-- The quotient of 12 by -2 and 3 is -2. -/
theorem quotient_of_integers_twelve :
    let numbers : List Int64 := [12, -2, 3]
    quotientOperands numbers = 12 :: [-2, 3] ∧ (∀ n ∈ ([-2, 3] : List Int64), n ≠ 0) ∧
      quotient (numbers.map .integer) = .ok (.integer (-2)) := by
  intro numbers
  have hoperands : quotientOperands numbers = 12 :: [-2, 3] := rfl
  have hdivisors : ∀ n ∈ ([-2, 3] : List Int64), n ≠ 0 :=
    List.forall_mem_cons.mpr ⟨by decide, List.forall_mem_cons.mpr ⟨by decide, nofun⟩⟩
  obtain ⟨-, hinteger, -⟩ := quotient_of_integers hoperands hdivisors
  have hfits : ∀ q ∈ partialQuotients (12 : Int64).toInt ([-2, 3].map Int64.toInt), InRange q := by
    decide
  obtain ⟨k, hlast, hquotient⟩ := hinteger (by decide) hfits
  have hk : (-2 : Int64).toInt = k.toInt := Option.some.inj hlast
  exact ⟨hoperands, hdivisors, Int64.toInt_inj.mp hk ▸ hquotient⟩

/-- **2^63 comes out as a float.**  -1 divides -2^63, and the exact quotient does not fit in 64
bits.  A difference that comes to the same number is refused. -/
theorem quotient_of_minimum :
    DividesThrough Int64.minValue.toInt [(-1 : Int64).toInt] ∧
      partialQuotients Int64.minValue.toInt [(-1 : Int64).toInt] = [-2 ^ 63, 2 ^ 63] ∧
      ¬ InRange (2 ^ 63) ∧
      quotient [.integer Int64.minValue, .integer (-1)] = .ok (.float 9223372036854775808) ∧
      quotient [.integer Int64.minValue, .integer (-1)] ≠ .error .integerOverflow ∧
      difference [.integer Int64.minValue] = .error .integerOverflow := by
  have hfloat : integerToFloat Int64.minValue / integerToFloat (-1) = 9223372036854775808 := by
    decide +kernel
  have hquotient : quotient [.integer Int64.minValue, .integer (-1)] =
      .ok (.float 9223372036854775808) := by
    rw [← hfloat]
    exact foldlM_of_ok (divide_inexact (m := Int64.minValue) (n := -1) (by decide) (by decide)) []
  refine ⟨by decide, by decide, by decide, hquotient, ?_, rfl⟩
  rw [hquotient]
  exact nofun

/-! ## 3. Remainders -/

/-- **What is left of `a` by `b`**: the quotient is truncated towards zero, so the remainder is
smaller than the divisor, and it is zero or has the sign of `a`. -/
structure IsRemainder (a b r : Int) : Prop where
  eq : a = b * a.tdiv b + r
  lt : r.natAbs < b.natAbs
  sign : r = 0 ∨ r.sign = a.sign

theorem isRemainder_tmod {a b : Int} (hb : b ≠ 0) : IsRemainder a b (a.tmod b) := by
  refine ⟨(Int.mul_tdiv_add_tmod a b).symm, ?_, ?_⟩
  · rw [Int.natAbs_tmod]
    exact Nat.mod_lt _ (Int.natAbs_pos.mpr hb)
  · rw [Int.sign_tmod]
    split
    · next hdvd => exact .inl (Int.tmod_eq_zero_of_dvd hdvd)
    · exact .inr rfl

/-- **What is left in the end** of a number by several divisors in turn. -/
inductive RemainderOf : Int → List Int → Int → Prop where
  | nil (a : Int) : RemainderOf a [] a
  | cons {a b c r : Int} {divisors : List Int} (h : IsRemainder a b c)
    (hrest : RemainderOf c divisors r) : RemainderOf a (b :: divisors) r

/-- **The remainder of two integers** is exact, unless their quotient does not fit. -/
theorem remainder_exact (hn : n ≠ 0) (hpair : ¬ (m = Int64.minValue ∧ n = -1)) :
    ∃ k : Int64, IsRemainder m.toInt n.toInt k.toInt ∧
      remainder (.integer m) (.integer n) = .ok (.integer k) := by
  have hremainder := isRemainder_tmod (a := m.toInt) (toInt_ne_zero hn)
  have hrange := inRange_toInt n
  have hfits : InRange (m.toInt.tmod n.toInt) := by
    have := hremainder.lt
    unfold InRange at hrange ⊢
    omega
  obtain ⟨k, hk, hexactly⟩ := exactly_of_inRange hfits
  refine ⟨k, hk ▸ hremainder, ?_⟩
  rw [remainder, nonzero_integer _ _ hn, ← hexactly]
  simp only [binary, integerRemainder?_eq hn, if_neg hpair]

theorem remainder_minimum :
    remainder (.integer Int64.minValue) (.integer (-1)) = .error .integerOverflow :=
  rfl

theorem remainder_zero (a : HostValue) : remainder a (.integer 0) = .error .divisionByZero :=
  rfl

/-- A remainder is smaller than the divisor, so it is not -2^63. -/
theorem IsRemainder.ne_minimum {a : Int} (h : IsRemainder a n.toInt m.toInt) :
    m ≠ Int64.minValue := by
  rintro rfl
  have hlt := h.lt
  have hrange := inRange_toInt n
  have hminimum : Int64.minValue.toInt = -2 ^ 63 := by decide
  rw [hminimum] at hlt
  unfold InRange at hrange
  omega

/-- **Remainders in turn**: a divisor that is zero ends the call, and nothing else does, unless
-2^63 is to be divided by -1 in the first place. -/
theorem foldlM_remainder (hpair : ¬ (m = Int64.minValue ∧ divisors.head? = some (-1))) :
    (0 ∈ divisors →
      (divisors.map .integer).foldlM remainder (.integer m) = .error .divisionByZero) ∧
    (0 ∉ divisors → ∃ r : Int64,
      RemainderOf m.toInt (divisors.map Int64.toInt) r.toInt ∧
        (divisors.map .integer).foldlM remainder (.integer m) = .ok (.integer r)) := by
  induction divisors generalizing m with
  | nil => exact ⟨nofun, fun _ => ⟨m, .nil _, rfl⟩⟩
  | cons n divisors ih =>
    by_cases hn : n = 0
    · subst hn
      refine ⟨fun _ => foldlM_of_error (remainder_zero _) _, fun hnot => ?_⟩
      exact absurd List.mem_cons_self hnot
    · rw [List.head?_cons, Option.some.injEq] at hpair
      obtain ⟨k, hk, hstep⟩ := remainder_exact hn hpair
      obtain ⟨hzero, hok⟩ := ih fun h => hk.ne_minimum h.1
      rw [List.map_cons, List.map_cons, foldlM_of_ok hstep, List.mem_cons,
        or_iff_right (Ne.symm hn)]
      refine ⟨hzero, fun hnot => ?_⟩
      obtain ⟨r, hr, hrest⟩ := hok hnot
      exact ⟨r, .cons hk hr, hrest⟩

/-- **Remainders of integers are exact.**  A call fails as an overflow exactly if its first two
numbers are -2^63 and -1, and otherwise as a division by zero exactly if there is a zero behind the
first number.  In all other cases it gives what is left of the first number by the others in
turn. -/
theorem remainders_of_integers (m : Int64) (divisors : List Int64) :
    HostFunction.standard.lookup "%" = some (.silent remainders) ∧
    ((m = Int64.minValue ∧ divisors.head? = some (-1)) →
      remainders ((m :: divisors).map .integer) = .error .integerOverflow) ∧
    (¬ (m = Int64.minValue ∧ divisors.head? = some (-1)) →
      (0 ∈ divisors → remainders ((m :: divisors).map .integer) = .error .divisionByZero) ∧
      (0 ∉ divisors → ∃ r : Int64,
        RemainderOf m.toInt (divisors.map Int64.toInt) r.toInt ∧
          remainders ((m :: divisors).map .integer) = .ok (.integer r))) := by
  refine ⟨rfl, ?_, foldlM_remainder⟩
  rintro ⟨rfl, hhead⟩
  obtain ⟨rest, rfl⟩ := List.head?_eq_some_iff.mp hhead
  exact foldlM_of_error remainder_minimum (rest.map .integer)

/-- Of -7 by 4 and 2 there is -1 left. -/
theorem remainders_of_integers_negative :
    let numbers : List Int64 := [-7, 4, 2]
    0 ∉ ([4, 2] : List Int64) ∧ remainders (numbers.map .integer) = .ok (.integer (-1)) ∧
      ∃ r : Int64, RemainderOf (-7) [4, 2] r.toInt ∧
        remainders (numbers.map .integer) = .ok (.integer r) := by
  intro numbers
  have hzero : 0 ∉ ([4, 2] : List Int64) := by decide
  obtain ⟨-, -, hother⟩ := remainders_of_integers (-7) [4, 2]
  exact ⟨hzero, rfl, (hother (by decide)).2 hzero⟩

/-- **Nothing is left of -2^63 by -1**, and the call is refused all the same. -/
theorem remainders_of_minimum :
    IsRemainder Int64.minValue.toInt (-1 : Int64).toInt 0 ∧ InRange 0 ∧
      remainders [.integer Int64.minValue, .integer (-1)] = .error .integerOverflow ∧
      HostFault.integerOverflow.message = "integer overflow" :=
  ⟨⟨by decide, by decide, .inl rfl⟩, by decide, remainder_minimum, rfl⟩

end Arithmetic

end Lisp
