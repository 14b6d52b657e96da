/-
# The order of doubles, and integers among them

Doubles are compared by sign, exponent and mantissa.  This module shows that this is the order of
the numbers that they stand for (`compare_unpack`), with the infinities at the ends and NaN apart
from all others.  So the comparisons of doubles are those of a linear order, as long as no NaN takes
part.

An integer of 64 bits need not be a double.  It becomes one whose rounding interval it lies in
(`floatValue_integerToFloat`), and since two such intervals do not meet, integers keep their order
as doubles (`integerToFloat_mono`).  They do not keep it strictly: neighbours may become one double.
-/
import Lisp.Proofs.Shortest
import Lisp.Value.Equal

namespace Lisp

open Float.Model (UnpackedFloat Format totalExponent)
open Float.Model.UnpackedFloat

/-! ## 1. The order of values -/

/-- **The number that a finite double stands for.** -/
def signedValue : Sign → Binary → ℚ
  | .positive, b => b.value
  | .negative, b => -b.value

/-- **The number that an unpacked double stands for**, the infinities included; a NaN stands for
none. -/
def unpackedValue? : UnpackedFloat → Option (WithBot (WithTop ℚ))
  | .notANumber => none
  | .infinity .positive => some ⊤
  | .infinity .negative => some ⊥
  | .zero _ => some ((0 : ℚ) : WithTop ℚ)
  | .finite s m e _ => some ((signedValue s ⟨m, e⟩ : ℚ) : WithTop ℚ)

/-- **The number that a double stands for.** -/
def floatValue? (x : Float) : Option (WithBot (WithTop ℚ)) :=
  unpackedValue? x.toModel.unpack

namespace Binary

variable {b b' : Binary}

theorem IsDouble.value_pos (h : b.IsDouble) : 0 < b.value :=
  h.covers_value.pos h

/-- **The order of positive doubles is that of their values.** -/
theorem IsDouble.value_lt_iff (h : b.IsDouble) (h' : b'.IsDouble) :
    b.value < b'.value ↔ b.Below b' :=
  Covers.lt_iff h h' h.covers_value h'.covers_value fun heq => by rw [heq]

/-- **Comparing exponents and then mantissas** compares the values. -/
theorem IsDouble.compare_value (h : b.IsDouble) (h' : b'.IsDouble) :
    compare b.value b'.value =
      (compare b.exponent b'.exponent).then (compare b.mantissa b'.mantissa) := by
  rcases below_trichotomy b b' with hbelow | rfl | habove
  · rw [compare_lt_iff_lt.mpr ((h.value_lt_iff h').mpr hbelow)]
    refine (Ordering.then_eq_lt.mpr ?_).symm
    rw [Int.compare_eq_lt, Int.compare_eq_eq, Nat.compare_eq_lt]
    exact hbelow
  · simp
  · rw [compare_gt_iff_gt.mpr ((h'.value_lt_iff h).mpr habove)]
    refine (Ordering.then_eq_gt.mpr ?_).symm
    rw [Int.compare_eq_gt, Int.compare_eq_eq, Nat.compare_eq_gt]
    exact habove.imp_right fun h => ⟨h.1.symm, h.2⟩

end Binary

section Compare

variable {b b' : Binary} (h : b.IsDouble) (h' : b'.IsDouble) (s s' : Sign) (p q : ℚ)

theorem compare_finite :
    (UnpackedFloat.finite s b.mantissa b.exponent h.pos).compare
      (.finite s' b'.mantissa b'.exponent h'.pos) =
      some (compare (signedValue s b) (signedValue s' b')) := by
  have hpos := h.value_pos
  have hpos' := h'.value_pos
  cases s <;> cases s' <;> simp only [UnpackedFloat.compare, signedValue, Option.some.injEq]
  · rw [← h.compare_value h', ← cmp_eq_compare, ← cmp_eq_compare, cmp_swap]
    have hanti : StrictAnti (Neg.neg : ℚ → ℚ) := fun _ _ => neg_lt_neg
    exact (hanti.cmp_map_eq b.value b'.value).symm
  · exact (compare_lt_iff_lt.mpr (by linarith)).symm
  · exact (compare_gt_iff_gt.mpr (by linarith)).symm
  · exact (h.compare_value h').symm

theorem compare_zero_finite :
    (UnpackedFloat.zero s).compare (.finite s' b.mantissa b.exponent h.pos) =
      some (compare 0 (signedValue s' b)) := by
  have hpos := h.value_pos
  cases s' <;> simp only [UnpackedFloat.compare, signedValue, Option.some.injEq]
  · exact (compare_gt_iff_gt.mpr (by linarith)).symm
  · exact (compare_lt_iff_lt.mpr hpos).symm

theorem compare_finite_zero :
    (UnpackedFloat.finite s b.mantissa b.exponent h.pos).compare (.zero s') =
      some (compare (signedValue s b) 0) := by
  have hpos := h.value_pos
  cases s <;> simp only [UnpackedFloat.compare, signedValue, Option.some.injEq]
  · exact (compare_lt_iff_lt.mpr (by linarith)).symm
  · exact (compare_gt_iff_gt.mpr hpos).symm

theorem compare_coe :
    compare ((p : WithTop ℚ) : WithBot (WithTop ℚ)) (q : WithTop ℚ) = compare p q := by
  rw [← cmp_eq_compare, ← cmp_eq_compare]
  exact (WithBot.coe_strictMono.comp WithTop.coe_strictMono).cmp_map_eq p q

theorem compare_bot_coe : compare (⊥ : WithBot (WithTop ℚ)) (q : WithTop ℚ) = .lt :=
  compare_lt_iff_lt.mpr (WithBot.bot_lt_coe _)

theorem compare_coe_bot : compare ((q : WithTop ℚ) : WithBot (WithTop ℚ)) ⊥ = .gt :=
  compare_gt_iff_gt.mpr (WithBot.bot_lt_coe _)

theorem compare_top_coe : compare (⊤ : WithBot (WithTop ℚ)) (q : WithTop ℚ) = .gt :=
  compare_gt_iff_gt.mpr (WithBot.coe_lt_coe.mpr (WithTop.coe_lt_top q))

theorem compare_coe_top : compare ((q : WithTop ℚ) : WithBot (WithTop ℚ)) ⊤ = .lt :=
  compare_lt_iff_lt.mpr (WithBot.coe_lt_coe.mpr (WithTop.coe_lt_top q))

end Compare

/-- **Comparison of doubles is comparison of what they stand for.** -/
theorem compare_unpack (x y : Float) :
    x.toModel.unpack.compare y.toModel.unpack =
      (floatValue? x).bind fun v => (floatValue? y).map (compare v) := by
  unfold floatValue?
  rcases hx : x.toModel.unpack with (_ | _) | _ | s | ⟨s, m, e, hm⟩ <;>
    rcases hy : y.toModel.unpack with (_ | _) | _ | s' | ⟨s', m', e', hm'⟩ <;>
      simp only [unpackedValue?, Option.bind_some, Option.bind_none, Option.map_some,
        Option.map_none, compare_coe, compare_bot_coe, compare_coe_bot, compare_top_coe,
        compare_coe_top]
  case finite.finite =>
    exact compare_finite (isDouble_of_unpack hx) (isDouble_of_unpack hy) s s'
  case finite.zero => exact compare_finite_zero (isDouble_of_unpack hx) s s'
  case zero.finite => exact compare_zero_finite (isDouble_of_unpack hy) s s'
  all_goals rfl

variable {x y : Float}

theorem compare_eq_some_iff {o : Ordering} :
    x.toModel.unpack.compare y.toModel.unpack = some o ↔
      ∃ v w, floatValue? x = some v ∧ floatValue? y = some w ∧ compare v w = o := by
  rw [compare_unpack]
  cases floatValue? x <;> cases floatValue? y <;> simp

theorem float_lt_iff_value :
    x < y ↔ ∃ v w, floatValue? x = some v ∧ floatValue? y = some w ∧ v < w := by
  simp only [float_lt_iff, compare_eq_some_iff, compare_lt_iff_lt]

theorem float_beq_iff_value :
    (x == y) = true ↔ ∃ v w, floatValue? x = some v ∧ floatValue? y = some w ∧ v = w := by
  have hbeq : (x == y) = true ↔ x.toModel.unpack.compare y.toModel.unpack = some .eq :=
    beq_iff_eq (α := Option Ordering)
  simp only [hbeq, compare_eq_some_iff, compare_eq_iff_eq]

theorem float_le_iff_value :
    x ≤ y ↔ ∃ v w, floatValue? x = some v ∧ floatValue? y = some w ∧ v ≤ w := by
  rw [float_le_iff, compare_unpack]
  cases floatValue? x <;> cases floatValue? y <;>
    simp [← Ordering.ne_gt_iff_isLE, compare_le_iff_le]

/-! ## 2. The double nearest to a number -/

section Nearest

variable {y q : ℚ} {z : Nat} {L : Int}

theorem exists_nearestEven (hy : 0 ≤ y) : ∃ z, NearestEven y z := by
  have hfloor := Nat.floor_le hy
  have hceil := Nat.lt_floor_add_one y
  generalize ⌊y⌋₊ = n at hfloor hceil
  have hnext : ((n + 1 : Nat) : ℚ) = n + 1 := by push_cast; rfl
  rcases lt_trichotomy (y - n) (1 / 2) with h | h | h
  · exact ⟨n, .inl (abs_lt.mpr ⟨by linarith, h⟩)⟩
  · have habs : |y - n| = 1 / 2 := by
      rw [h]
      norm_num
    have habs' : |y - (n + 1 : Nat)| = 1 / 2 := by
      rw [hnext, show y - (n + 1) = -(1 / 2) by linarith]
      norm_num
    rcases Nat.mod_two_eq_zero_or_one n with heven | hodd
    · exact ⟨n, .inr ⟨habs, heven⟩⟩
    · exact ⟨n + 1, .inr ⟨habs', by omega⟩⟩
  · exact ⟨n + 1, .inl (abs_lt.mpr ⟨by linarith, by linarith⟩)⟩

namespace Binary

variable {b : Binary}

/-- **Covering in quarters of the last place.** -/
theorem covers_mul_quarter (hlow : b.low ≤ y) (hhigh : y ≤ b.high)
    (hclosed : y = b.low ∨ y = b.high → b.mantissa % 2 = 0) : b.Covers (y * b.quarter) where
  low_le := mul_le_mul_of_nonneg_right hlow b.quarter_pos.le
  le_high := mul_le_mul_of_nonneg_right hhigh b.quarter_pos.le
  closed := by
    rw [mul_left_inj' b.quarter_pos.ne', mul_left_inj' b.quarter_pos.ne']
    exact hclosed

theorem low_eq_sub_two (hb : b.IsDouble) (h : b.mantissa ≠ 2 ^ 52) :
    (b.low : ℚ) = 4 * b.mantissa - 2 := by
  have hpos := hb.pos
  have hlow : b.low = 4 * b.mantissa - 2 := if_neg fun hpower => h hpower.1
  have hlow : b.low + 2 = 4 * b.mantissa := by omega
  have hlow : (b.low : ℚ) + 2 = 4 * b.mantissa := by exact_mod_cast hlow
  linarith

/-- **A number is covered by the mantissa nearest to it**, in units of the last place, if it is not
below the power of two that the mantissa stands for. -/
theorem covers_of_nearestEven (hb : b.IsDouble) (h : NearestEven (q / 2 ^ b.exponent) b.mantissa)
    (hq : b.mantissa = 2 ^ 52 → 2 ^ (52 + b.exponent) ≤ q) : b.Covers q := by
  have hquarter := b.quarter_pos
  have hhigh := b.cast_high
  rw [b.two_zpow_eq_quarter 2 (by omega)] at h
  rw [b.two_zpow_eq_quarter 54 (by omega)] at hq
  obtain ⟨y, rfl⟩ : ∃ y, q = y * b.quarter := ⟨q / b.quarter, by field_simp⟩
  rw [mul_div_mul_right y _ hquarter.ne'] at h
  obtain ⟨hbelow, habove⟩ := abs_le.mp h.abs_le
  by_cases hm : b.mantissa = 2 ^ 52
  · have hlow := cast_low_le hb
    have hy : (2 ^ 54 : ℚ) ≤ y := le_of_mul_le_mul_right (hq hm) hquarter
    refine covers_mul_quarter ?_ (by linarith) fun _ => by rw [hm]; rfl
    rw [hm] at hlow
    push_cast at hlow
    linarith
  · have hlow := low_eq_sub_two hb hm
    refine covers_mul_quarter (by linarith) (by linarith) fun hend => ?_
    rcases h with hlt | ⟨-, heven⟩
    · obtain ⟨hlt, hgt⟩ := abs_lt.mp hlt
      rcases hend with hend | hend <;> linarith
    · exact heven

/-- **What rounds up to a power of two** is covered by it. -/
theorem covers_of_carry (hm : b.mantissa = 2 ^ 52) (he : -1074 < b.exponent)
    (h : NearestEven (q / 2 ^ (b.exponent - 1)) (2 ^ 53)) : b.Covers q := by
  have hquarter := b.quarter_pos
  have hhigh := b.cast_high
  have hlow : (b.low : ℚ) = 2 ^ 54 - 1 := by
    rw [low_eq_sub_one hm he]
    norm_num
  rw [b.two_zpow_eq_quarter 1 (by omega)] at h
  obtain ⟨y, rfl⟩ : ∃ y, q = y * b.quarter := ⟨q / b.quarter, by field_simp⟩
  rw [mul_div_mul_right y _ hquarter.ne'] at h
  obtain ⟨hbelow, habove⟩ := abs_le.mp h.abs_le
  rw [hm] at hhigh
  push_cast at hbelow habove hhigh
  exact covers_mul_quarter (by linarith) (by linarith) fun _ => by rw [hm]; rfl

theorem exists_covers (hL : 2 ^ L ≤ q) (hL' : q < 2 ^ (L + 1)) (hleast : -1022 ≤ L)
    (hgreatest : L ≤ 1022) : ∃ b : Binary, b.IsDouble ∧ b.Covers q := by
  have hunit := two_zpow_pos (L - 52)
  have hbelow : (2 ^ 52 : ℚ) ≤ q / 2 ^ (L - 52) := by
    rw [le_div_iff₀ hunit, ← two_zpow_eq_mul 52 (by omega : L = (52 : Nat) + (L - 52))]
    exact hL
  have habove : q / 2 ^ (L - 52) < (2 ^ 53 : ℚ) := by
    rw [div_lt_iff₀ hunit, ← two_zpow_eq_mul 53 (by omega : L + 1 = (53 : Nat) + (L - 52))]
    exact hL'
  obtain ⟨z, hz⟩ := exists_nearestEven (le_trans (by norm_num) hbelow)
  obtain ⟨h₁, h₂⟩ := abs_le.mp hz.abs_le
  have hlow : 2 ^ 52 < z + 1 := by exact_mod_cast (by linarith : (2 ^ 52 : ℚ) < z + 1)
  have hhigh : z < 2 ^ 53 + 1 := by exact_mod_cast (by linarith : (z : ℚ) < 2 ^ 53 + 1)
  rcases (by omega : z < 2 ^ 53 ∨ z = 2 ^ 53) with hlt | rfl
  · have hb : IsDouble ⟨z, L - 52⟩ := by constructor <;> dsimp only <;> omega
    refine ⟨_, hb, covers_of_nearestEven hb hz fun _ => ?_⟩
    rwa [show 52 + (L - 52) = L by omega]
  · have hb : IsDouble ⟨2 ^ 52, L - 51⟩ := by constructor <;> dsimp only <;> omega
    refine ⟨_, hb, covers_of_carry rfl (by dsimp only; omega) ?_⟩
    dsimp only
    rwa [show L - 51 - 1 = L - 52 by omega]

end Binary

end Nearest

/-! ## 3. Integers as doubles -/

section Integers

variable {b : Binary} {n m₁ m₂ : Nat} {e₁ e₂ : Int} {h₁ : 0 < m₁} {h₂ : 0 < m₂} {s₁ s₂ : Sign}

/-- **The product of two doubles is the double that covers the exact product**, if the mantissas
together have as many bits as a double has. -/
theorem Binary.Covers.mul_eq (hb : b.IsDouble) (hbits : 2 ^ 52 ≤ m₁ * m₂)
    (hq : b.Covers (m₁ * m₂ * 2 ^ (e₁ + e₂))) :
    UnpackedFloat.mul .binary64 (.finite s₁ m₁ e₁ h₁) (.finite s₂ m₂ e₂ h₂) =
      .finite (s₁ * s₂) b.mantissa b.exponent hb.pos := by
  have hpos : 0 < m₁ * m₂ := Nat.mul_pos h₁ h₂
  have hlog : 52 ≤ (m₁ * m₂).log2 := (Nat.le_log2 hpos.ne').mpr hbits
  refine hq.roundWithAccuracy hb (totalExponent (m₁ * m₂) (e₁ + e₂)) ?_ ?_ ?_
  · rw [mul_div_cancel_right₀ _ (two_zpow_pos _).ne']
    exact_mod_cast describes_exact (m₁ * m₂)
  · exact_mod_cast two_zpow_totalExponent_le hpos (e₁ + e₂)
  · rw [Lisp.targetExponent_eq, totalExponent]
    omega

theorem unpack_one : Float.exactlyRepresentablePowersOfTen[0].toModel.unpack =
    .finite .positive (2 ^ 52) (-52) (by decide) :=
  rfl

/-- **A positive integer becomes the double that covers it.** -/
theorem Binary.Covers.ofNat_eq (hb : b.IsDouble) (hn : 0 < n) (hq : b.Covers n) :
    Float.ofNat n = hb.toFloat .positive := by
  change Float.ofScientific n false 0 = _
  unfold Float.ofScientific
  split
  · next hsmall =>
    obtain ⟨m₁, e₁, h₁, hn₁, hvalue⟩ := unpack_natToFloat hn hsmall.1
    have hproduct : b.Covers (m₁ * (2 ^ 52 : Nat) * 2 ^ (e₁ + (-52))) := by
      rw [← hvalue, two_zpow_eq_mul 52 (by omega : e₁ = (52 : Nat) + (e₁ + -52))] at hq
      push_cast
      rwa [mul_assoc]
    change Float.ofModel (Float.Model.pack (UnpackedFloat.mul .binary64
      n.toUInt64.toFloat.toModel.unpack
      Float.exactlyRepresentablePowersOfTen[0].toModel.unpack)) = _
    rw [hn₁, unpack_one, hproduct.mul_eq hb (Nat.le_mul_of_pos_left _ h₁)]
    rfl
  · have hshift : n <<< 53 = n * 2 ^ 53 := Nat.shiftLeft_eq n 53
    have hpos : 0 < n <<< 53 := by omega
    have hproduct : b.Covers ((n <<< 53 : Nat) * (1 : Nat) * 2 ^ ((-53 : Int) + 0)) := by
      have hunit : (2 : ℚ) ^ 53 * 2 ^ (-53 : Int) = 1 := by norm_num
      rw [hshift, Nat.cast_mul, Nat.cast_pow, Nat.cast_one, mul_one, add_zero, mul_assoc]
      rwa [Nat.cast_ofNat, hunit, mul_one]
    change Float.ofModel (Float.Model.pack (UnpackedFloat.ofScientific .binary64 n 0)) = _
    have hmul : UnpackedFloat.ofScientific .binary64 n 0 =
        UnpackedFloat.mul .binary64 (.finite .positive (n <<< 53) (-53) hpos)
          (.finite .positive 1 0 (by decide)) := by
      have hbits : (2 : Int) ^ Format.binary64.exponentBits = 2048 := rfl
      unfold UnpackedFloat.ofScientific
      rw [dif_neg hn.ne', hbits, if_neg (by decide), if_neg (by omega), if_pos le_rfl]
      rfl
    rw [hmul, hproduct.mul_eq hb (by omega)]
    rfl

/-- **What an integer becomes as a double**: zero, or the double that covers its distance from
zero, on the same side. -/
inductive RoundsTo : Int → ℚ → Prop where
  | zero : RoundsTo 0 0
  | positive {b : Binary} {n : Nat} (hb : b.IsDouble) (h : b.Covers n) : RoundsTo n b.value
  | negative {b : Binary} {n : Nat} (hb : b.IsDouble) (h : b.Covers n) : RoundsTo (-n) (-b.value)

theorem exists_covers_natCast (hn : 0 < n) (hlt : n < 2 ^ 64) :
    ∃ b : Binary, b.IsDouble ∧ b.Covers n := by
  have hlog : n.log2 < 64 := (Nat.log2_lt hn.ne').mpr hlt
  exact Binary.exists_covers (two_zpow_log2_le hn) (lt_two_zpow_log2 n) (by omega) (by omega)

theorem floatValue_toFloat (hb : b.IsDouble) (s : Sign) :
    floatValue? (hb.toFloat s) = some ((signedValue s b : ℚ) : WithTop ℚ) := by
  rw [floatValue?, hb.unpack_toFloat]
  rfl

/-- **An integer of 64 bits as a double.** -/
theorem floatValue_integerToFloat (n : Int64) :
    ∃ q : ℚ, RoundsTo n.toInt q ∧ floatValue? (integerToFloat n) = some (q : WithTop ℚ) := by
  have hleast := n.le_toInt
  have hgreatest := n.toInt_lt
  rw [integerToFloat]
  generalize n.toInt = k at *
  rcases k with (_ | n) | n
  · exact ⟨0, .zero, rfl⟩
  · rw [Int.ofNat_eq_natCast] at hgreatest
    obtain ⟨b, hb, hcovers⟩ := exists_covers_natCast n.succ_pos (by omega)
    refine ⟨b.value, .positive hb hcovers, ?_⟩
    rw [Float.ofInt, hcovers.ofNat_eq hb n.succ_pos, floatValue_toFloat]
    rfl
  · obtain ⟨b, hb, hcovers⟩ := exists_covers_natCast n.succ_pos (by omega)
    refine ⟨-b.value, .negative hb hcovers, ?_⟩
    change floatValue? (-Float.ofNat n.succ) = _
    rw [hcovers.ofNat_eq hb n.succ_pos, hb.neg_toFloat, floatValue_toFloat]
    rfl

/-- **Covering keeps the order.** -/
theorem Binary.Covers.value_mono {b b' : Binary} {y y' : ℚ} (hb : b.IsDouble) (hb' : b'.IsDouble)
    (hy : b.Covers y) (hy' : b'.Covers y') (h : y ≤ y') : b.value ≤ b'.value := by
  refine not_lt.mp fun hlt => ?_
  have hbelow := (hb'.value_lt_iff hb).mp hlt
  exact absurd h (Covers.lt hb' hb hbelow hy' hy).not_ge

theorem Binary.Covers.natCast_pos (hb : b.IsDouble) (h : b.Covers n) : 0 < n := by
  exact_mod_cast h.pos hb

/-- **Rounding keeps the order.** -/
theorem RoundsTo.mono {m n : Int} {p q : ℚ} (hp : RoundsTo m p) (hq : RoundsTo n q) (h : m ≤ n) :
    p ≤ q := by
  cases hp with
  | zero =>
    cases hq with
    | zero => exact le_rfl
    | positive hb' _ => exact hb'.value_pos.le
    | negative hb' hy' =>
      have := hy'.natCast_pos hb'
      omega
  | positive hb hy =>
    have hpos := hy.natCast_pos hb
    cases hq with
    | zero => omega
    | positive hb' hy' => exact hy.value_mono hb hb' hy' (by exact_mod_cast h)
    | negative hb' hy' => omega
  | negative hb hy =>
    have hvalue := hb.value_pos
    cases hq with
    | zero => linarith
    | positive hb' _ =>
      have := hb'.value_pos
      linarith
    | negative hb' hy' =>
      have h := Int.neg_le_neg_iff.mp h
      exact neg_le_neg (hy'.value_mono hb' hb hy (by exact_mod_cast h))

/-- **Integers keep their order as doubles.** -/
theorem integerToFloat_mono {m n : Int64} (h : m ≤ n) : integerToFloat m ≤ integerToFloat n := by
  obtain ⟨p, hp, hm⟩ := floatValue_integerToFloat m
  obtain ⟨q, hq, hn⟩ := floatValue_integerToFloat n
  have hpq := hp.mono hq (Int64.le_iff_toInt_le.mp h)
  exact float_le_iff_value.mpr ⟨_, _, hm, hn, by exact_mod_cast hpq⟩

end Integers

end Lisp
