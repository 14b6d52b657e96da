/-
# Rounding to the nearest double

A quotient of doubles is computed as a mantissa with two further bits, the second of which stands
for all that was dropped.  The mantissa is shifted until it has as many bits as a double has,
rounded to nearest, and shifted once more if rounding has made it one bit longer.

The numbers that round to a double form an interval around it (`Binary.Covers`), and this module
proves that all of them do: a quotient comes out as the double that covers it, whatever it is
written with (`Covers.div_eq`), and so does a number in decimal notation
(`Covers.ofScientific_eq`), be it divided in doubles or exactly.

What carries the proof is the meaning of the two further bits (`Describes`): shifting by one place
halves the number that is described, and rounding finds the nearest whole number to it.
-/
import Lisp.Proofs.Doubles

namespace Lisp

open Float.Model (UnpackedFloat Format totalExponent)
open Float.Model.UnpackedFloat

/-! ## 1. A mantissa and what is dropped from it -/

/-- **What a mantissa with its two further bits says about a number of units**: its whole part, its
first binary place, and whether anything stands below that place. -/
def Describes (em : ExtendedMantissa) (y : ℚ) : Prop :=
  ∃ rest : ℚ, 0 ≤ rest ∧ rest < 1 / 2 ∧
    y = em.mantissa + (if em.roundBit then 1 / 2 else 0) + rest ∧
    (em.stickyBit = true ↔ rest ≠ 0)

/-- **`z` is the whole number nearest to `y`**, and even if another one is as near. -/
def NearestEven (y : ℚ) (z : Nat) : Prop :=
  |y - z| < 1 / 2 ∨ (|y - z| = 1 / 2 ∧ z % 2 = 0)

variable {em : ExtendedMantissa} {y : ℚ} {z : Nat}

theorem Describes.mantissa_le (h : Describes em y) : (em.mantissa : ℚ) ≤ y := by
  obtain ⟨rest, hrest, -, rfl, -⟩ := h
  split <;> linarith

theorem Describes.lt_mantissa (h : Describes em y) : y < em.mantissa + 1 := by
  obtain ⟨rest, -, hrest, rfl, -⟩ := h
  split <;> linarith

/-- **Shifting by one place halves the number.**  The first binary place becomes the second, where
only its presence is kept. -/
theorem Describes.shiftRightOne (h : Describes em y) : Describes em.shiftRightOne (y / 2) := by
  obtain ⟨rest, hrest, hrest', rfl, hsticky⟩ := h
  obtain ⟨mantissa, roundBit, stickyBit⟩ := em
  refine ⟨(if roundBit then 1 / 4 else 0) + rest / 2, ?_, ?_, ?_, ?_⟩
  · split <;> linarith
  · split <;> linarith
  · have hmod : (mantissa : ℚ) = 2 * (mantissa / 2 : Nat) + (mantissa % 2 : Nat) := by
      exact_mod_cast (Nat.div_add_mod mantissa 2).symm
    simp only [ExtendedMantissa.shiftRightOne]
    rw [hmod]
    rcases Nat.mod_two_eq_zero_or_one mantissa with h | h <;> cases roundBit <;> simp [h] <;> ring
  · cases roundBit
    · simp [ExtendedMantissa.shiftRightOne, hsticky]
    · simp [ExtendedMantissa.shiftRightOne]
      linarith

theorem Describes.shiftRight (h : Describes em y) (k : Nat) : Describes (em >>> k) (y / 2 ^ k) := by
  induction k with
  | zero => simpa [HShiftRight.hShiftRight, Nat.repeat] using h
  | succ k ih =>
    have := ih.shiftRightOne
    rwa [div_div, ← pow_succ] at this

theorem NearestEven.abs_le (h : NearestEven y z) : |y - z| ≤ 1 / 2 := by
  rcases h with h | ⟨h, -⟩
  · exact h.le
  · exact h.le

theorem nearestEven_of_abs_le (h : |y - z| ≤ 1 / 2) (heven : |y - z| = 1 / 2 → z % 2 = 0) :
    NearestEven y z :=
  h.lt_or_eq.imp_right fun h => ⟨h, heven h⟩

/-- **Rounding finds the nearest whole number.** -/
theorem Describes.roundedMantissa (h : Describes em y) (hz : NearestEven y z) :
    em.roundedMantissa = z := by
  obtain ⟨rest, hrest, hrest', rfl, hsticky⟩ := h
  obtain ⟨hbelow, habove⟩ := abs_le.mp hz.abs_le
  obtain ⟨mantissa, roundBit, stickyBit⟩ := em
  dsimp only at hsticky hz hbelow habove
  cases roundBit with
  | false =>
    rw [if_neg Bool.false_ne_true] at hbelow habove
    have h₁ : mantissa < z + 1 := by exact_mod_cast (by linarith : (mantissa : ℚ) < z + 1)
    have h₂ : z < mantissa + 1 := by exact_mod_cast (by linarith : (z : ℚ) < mantissa + 1)
    have h : mantissa = z := by omega
    cases stickyBit <;> exact h
  | true =>
    rw [if_pos rfl] at hbelow habove
    cases stickyBit with
    | false =>
      -- the number lies halfway between two whole ones, so `z` is the even one of them
      obtain rfl : rest = 0 := by simpa using hsticky
      have h₁ : mantissa ≤ z := by exact_mod_cast (by linarith : (mantissa : ℚ) ≤ z)
      have h₂ : z ≤ mantissa + 1 := by exact_mod_cast (by linarith : (z : ℚ) ≤ mantissa + 1)
      have heven : z % 2 = 0 := by
        rcases hz with hz | ⟨-, heven⟩
        · rcases (by omega : z = mantissa ∨ z = mantissa + 1) with rfl | rfl <;>
            norm_num [abs_lt] at hz
        · exact heven
      change mantissa + mantissa % 2 = z
      omega
    | true =>
      have hpos : 0 < rest := lt_of_le_of_ne hrest (Ne.symm (hsticky.mp rfl))
      have h₁ : mantissa < z := by exact_mod_cast (by linarith : (mantissa : ℚ) < z)
      have h₂ : z < mantissa + 2 := by exact_mod_cast (by linarith : (z : ℚ) < mantissa + 2)
      change mantissa + 1 = z
      omega

/-! ## 2. The numbers that round to a double -/

theorem two_zpow_pos (k : Int) : (0 : ℚ) < 2 ^ k := zpow_pos (by norm_num) k

theorem two_zpow_eq_mul (k : Nat) {a b : Int} (h : a = k + b) : (2 : ℚ) ^ a = 2 ^ k * 2 ^ b := by
  rw [h, zpow_add₀ (by norm_num), zpow_natCast]

theorem lt_of_two_zpow_lt {a b : Int} (h : (2 : ℚ) ^ a < 2 ^ b) : a < b :=
  (zpow_lt_zpow_iff_right₀ (by norm_num)).mp h

namespace Binary

variable {b : Binary} {q : ℚ}

/-- **The number that a mantissa and an exponent write.** -/
def value (b : Binary) : ℚ :=
  b.mantissa * 2 ^ b.exponent

/-- **A quarter of the last place.**  The ends of the rounding interval are whole in it. -/
def quarter (b : Binary) : ℚ :=
  2 ^ (b.exponent - 2)

/-- **The numbers that round to a double**: those of an interval around it, whose ends belong to it
iff the mantissa is even. -/
structure Covers (b : Binary) (y : ℚ) : Prop where
  low_le : b.low * b.quarter ≤ y
  le_high : y ≤ b.high * b.quarter
  closed : y = b.low * b.quarter ∨ y = b.high * b.quarter → b.mantissa % 2 = 0

theorem quarter_pos (b : Binary) : 0 < b.quarter := two_zpow_pos _

/-- **Powers of two in quarters of the last place.** -/
theorem two_zpow_eq_quarter (b : Binary) (k : Nat) {a : Int} (h : a = k + (b.exponent - 2)) :
    (2 : ℚ) ^ a = 2 ^ k * b.quarter :=
  two_zpow_eq_mul k h

theorem value_eq_quarter (b : Binary) : b.value = 4 * b.mantissa * b.quarter := by
  rw [value, b.two_zpow_eq_quarter 2 (by omega)]
  ring

theorem low_eq_sub_one (h : b.mantissa = 2 ^ 52) (h' : -1074 < b.exponent) :
    b.low = 2 ^ 54 - 1 := by
  rw [low, if_pos ⟨h, h'⟩, h]
  rfl

theorem low_le_sub_one (b : Binary) : b.low ≤ 4 * b.mantissa - 1 := by
  unfold low
  split <;> omega

theorem sub_two_le_low (b : Binary) : 4 * b.mantissa - 2 ≤ b.low := by
  unfold low
  split <;> omega

theorem cast_low_le (hb : b.IsDouble) : (b.low : ℚ) + 1 ≤ 4 * b.mantissa := by
  have : b.low + 1 ≤ 4 * b.mantissa := by
    have := b.low_le_sub_one
    have := hb.pos
    omega
  exact_mod_cast this

theorem le_cast_low (b : Binary) : (4 * b.mantissa : ℚ) ≤ b.low + 2 := by
  have : 4 * b.mantissa ≤ b.low + 2 := by
    have := b.sub_two_le_low
    omega
  exact_mod_cast this

theorem cast_high (b : Binary) : (b.high : ℚ) = 4 * b.mantissa + 2 := by
  simp [high]

/-- **A double rounds to itself.** -/
theorem IsDouble.covers_value (hb : b.IsDouble) : b.Covers b.value := by
  have hquarter := b.quarter_pos
  have hlow := cast_low_le hb
  have hhigh := b.cast_high
  rw [value_eq_quarter]
  refine ⟨?_, ?_, ?_⟩
  · nlinarith
  · nlinarith
  · rintro (h | h) <;> nlinarith

theorem Covers.two_zpow_le (h : b.Covers q) {k : Nat} (hlow : 2 ^ k ≤ b.low) :
    (2 : ℚ) ^ (k + (b.exponent - 2)) ≤ q := by
  have hlow : (2 ^ k : ℚ) ≤ b.low := by exact_mod_cast hlow
  rw [b.two_zpow_eq_quarter k rfl]
  exact le_trans (mul_le_mul_of_nonneg_right hlow b.quarter_pos.le) h.low_le

theorem Covers.lt_two_zpow (h : b.Covers q) {k : Nat} (hhigh : b.high < 2 ^ k) :
    q < (2 : ℚ) ^ (k + (b.exponent - 2)) := by
  have hhigh : (b.high : ℚ) < 2 ^ k := by exact_mod_cast hhigh
  rw [b.two_zpow_eq_quarter k rfl]
  exact lt_of_le_of_lt h.le_high (mul_lt_mul_of_pos_right hhigh b.quarter_pos)

theorem IsDouble.high_lt (hb : b.IsDouble) : b.high < 2 ^ 55 := by
  have := hb.lt
  unfold high
  omega

theorem IsDouble.two_le_low (hb : b.IsDouble) : 2 ^ 1 ≤ b.low := by
  have := b.sub_two_le_low
  have := hb.pos
  omega

theorem Covers.pos (hb : b.IsDouble) (h : b.Covers q) : 0 < q :=
  lt_of_lt_of_le (two_zpow_pos _) (h.two_zpow_le hb.two_le_low)

/-- **The mantissa is nearest to what it covers**, in units of the last place. -/
theorem Covers.nearestEven (h : b.Covers q) : NearestEven (q / 2 ^ b.exponent) b.mantissa := by
  obtain ⟨hlow, hhigh, hclosed⟩ := h
  have hquarter := b.quarter_pos
  have hlow' := b.le_cast_low
  have hhigh' := b.cast_high
  rw [b.two_zpow_eq_quarter 2 (by omega)]
  generalize b.quarter = u at *
  obtain ⟨y, rfl⟩ : ∃ y, q = y * (2 ^ 2 * u) := ⟨q / (2 ^ 2 * u), by field_simp⟩
  rw [mul_div_cancel_right₀ y (by positivity)]
  have hbelow : (b.low : ℚ) ≤ 4 * y := le_of_mul_le_mul_right (by linarith) hquarter
  have habove : 4 * y ≤ b.high := le_of_mul_le_mul_right (by linarith) hquarter
  refine nearestEven_of_abs_le (abs_le.mpr ⟨by linarith, by linarith⟩) fun heq => hclosed ?_
  rcases eq_or_eq_neg_of_abs_eq heq with h | h
  · right
    rw [show (b.high : ℚ) = 4 * y by linarith]
    ring
  · left
    rw [show (b.low : ℚ) = 4 * y by linarith]
    ring

/-- **Below a power of two the units are half as large**, and what rounds up to it is nearest to
`2^53` of them. -/
theorem Covers.nearestEven_of_lt (hm : b.mantissa = 2 ^ 52) (he : -1074 < b.exponent)
    (h : b.Covers q) (hq : q < 2 ^ (52 + b.exponent)) :
    NearestEven (q / 2 ^ (b.exponent - 1)) (2 ^ 53) := by
  have hlow := h.low_le
  have hquarter := b.quarter_pos
  rw [low_eq_sub_one hm he] at hlow
  rw [b.two_zpow_eq_quarter 54 (by omega)] at hq
  rw [b.two_zpow_eq_quarter 1 (by omega)]
  generalize b.quarter = u at *
  obtain ⟨y, rfl⟩ : ∃ y, q = y * (2 ^ 1 * u) := ⟨q / (2 ^ 1 * u), by field_simp⟩
  rw [mul_div_cancel_right₀ y (by positivity)]
  have hbelow : ((2 ^ 54 - 1 : Nat) : ℚ) ≤ 2 * y := le_of_mul_le_mul_right (by linarith) hquarter
  have habove : 2 * y < 2 ^ 54 := lt_of_mul_lt_mul_right (by linarith) hquarter.le
  norm_num at hbelow habove
  have habs : |y - (2 ^ 53 : Nat)| ≤ 1 / 2 := by
    rw [abs_le]
    norm_num
    constructor <;> linarith
  exact nearestEven_of_abs_le habs fun _ => rfl

end Binary

/-! ## 3. Rounding -/

section Rounding

variable {M : Nat} {t T L : Int} {acc : Accuracy} {q : ℚ} {sign : Sign}

theorem targetExponent_eq (k : Int) : Format.binary64.targetExponent k = max (k - 53) (-1074) := rfl

theorem div_two_zpow_shift (q : ℚ) (h : t ≤ T) : q / 2 ^ t / 2 ^ (T - t).toNat = q / 2 ^ T := by
  rw [two_zpow_eq_mul (T - t).toNat (by omega : T = (T - t).toNat + t), div_div, mul_comm]

/-- **The mantissa after the first shift**, rounded, and its exponent. -/
theorem shiftToExponent_spec (h : Describes (.ofMantissaAndAccuracy M acc) (q / 2 ^ t))
    (ht : t ≤ T) (hz : NearestEven (q / 2 ^ T) z) :
    (shiftToExponent M t acc T).1.roundedMantissa = z ∧ (shiftToExponent M t acc T).2 = T := by
  constructor
  · have := h.shiftRight (T - t).toNat
    rw [div_two_zpow_shift q ht] at this
    exact this.roundedMantissa hz
  · change t + ((T - t).toNat : Int) = T
    omega

theorem roundWithAccuracy_eq (h : Describes (.ofMantissaAndAccuracy M acc) (q / 2 ^ t))
    (hT : Format.binary64.targetExponent (totalExponent M t) = T) (ht : t ≤ T)
    (hz : NearestEven (q / 2 ^ T) z) (hpos : 0 < z) (hlt : z < 2 ^ 53) :
    roundWithAccuracy .binary64 sign M t acc = .finite sign z T hpos := by
  obtain ⟨hmantissa, hexponent⟩ := shiftToExponent_spec h ht hz
  have hlog : z.log2 < 53 := (Nat.log2_lt (Nat.pos_iff_ne_zero.mp hpos)).mpr hlt
  have hleast : -1074 ≤ T := by
    rw [← hT, targetExponent_eq]
    exact le_max_right _ _
  have hstay : (Format.binary64.targetExponent (totalExponent z T) - T).toNat = 0 := by
    rw [targetExponent_eq, totalExponent]
    omega
  have hfirst : shiftToTargetExponent .binary64 M t acc = shiftToExponent M t acc T := by
    rw [shiftToTargetExponent, hT]
  have hsecond : shiftToTargetExponent .binary64 z T .exact = (⟨z, false, false⟩, T) := by
    rw [shiftToTargetExponent, shiftToExponent, hstay]
    simp [ExtendedMantissa.ofMantissaAndAccuracy, HShiftRight.hShiftRight, Nat.repeat]
  simp only [roundWithAccuracy, hfirst, hmantissa, hexponent, hsecond]
  exact dif_neg (Nat.pos_iff_ne_zero.mp hpos)

/-- **Rounding up to a power of two** makes the mantissa one bit longer, and the second shift takes
that bit off. -/
theorem roundWithAccuracy_carry (h : Describes (.ofMantissaAndAccuracy M acc) (q / 2 ^ t))
    (hT : Format.binary64.targetExponent (totalExponent M t) = T) (ht : t ≤ T)
    (hz : NearestEven (q / 2 ^ T) (2 ^ 53)) :
    roundWithAccuracy .binary64 sign M t acc = .finite sign (2 ^ 52) (T + 1) (by decide) := by
  obtain ⟨hmantissa, hexponent⟩ := shiftToExponent_spec h ht hz
  have hleast : -1074 ≤ T := by
    rw [← hT, targetExponent_eq]
    exact le_max_right _ _
  have hshift : (Format.binary64.targetExponent (totalExponent (2 ^ 53) T) - T).toNat = 1 := by
    rw [targetExponent_eq, totalExponent, Nat.log2_two_pow]
    omega
  have hfirst : shiftToTargetExponent .binary64 M t acc = shiftToExponent M t acc T := by
    rw [shiftToTargetExponent, hT]
  have hsecond : shiftToTargetExponent .binary64 (2 ^ 53) T .exact =
      (⟨2 ^ 52, false, false⟩, T + 1) := by
    rw [shiftToTargetExponent, shiftToExponent, hshift]
    rfl
  simp only [roundWithAccuracy, hfirst, hmantissa, hexponent, hsecond]
  exact dif_neg (by decide)

/-- **The first shift goes to the exponent that the number asks for**, which the whole part of it
shows, even if that is zero. -/
theorem targetExponent_of_describes (h : Describes em (q / 2 ^ t)) (hL : 2 ^ L ≤ q)
    (hL' : q < 2 ^ (L + 1)) (ht : t ≤ max (L - 52) (-1074)) :
    Format.binary64.targetExponent (totalExponent em.mantissa t) = max (L - 52) (-1074) := by
  have hunit := two_zpow_pos t
  have hbelow : q < (em.mantissa + 1) * 2 ^ t := (div_lt_iff₀ hunit).mp h.lt_mantissa
  have habove : em.mantissa * 2 ^ t ≤ q := (le_div_iff₀ hunit).mp h.mantissa_le
  rw [targetExponent_eq, totalExponent]
  rcases le_or_gt t L with htL | htL
  · have hlow : 2 ^ (L - t).toNat < em.mantissa + 1 := by
      rw [two_zpow_eq_mul (L - t).toNat (by omega : L = (L - t).toNat + t)] at hL
      exact_mod_cast lt_of_mul_lt_mul_right (lt_of_le_of_lt hL hbelow) hunit.le
    have hhigh : em.mantissa < 2 ^ ((L - t).toNat + 1) := by
      rw [two_zpow_eq_mul ((L - t).toNat + 1)
        (by omega : L + 1 = ((L - t).toNat + 1 : Nat) + t)] at hL'
      exact_mod_cast lt_of_mul_lt_mul_right (lt_of_le_of_lt habove hL') hunit.le
    have hpos := Nat.two_pow_pos (L - t).toNat
    have hlog : em.mantissa.log2 = (L - t).toNat :=
      (Nat.log2_eq_iff (by omega)).mpr ⟨Nat.le_of_lt_succ hlow, hhigh⟩
    rw [hlog]
    omega
  · have hzero : em.mantissa < 1 := by
      have hle : (2 : ℚ) ^ (L + 1) ≤ 1 * 2 ^ t := by
        rw [one_mul]
        exact zpow_le_zpow_right₀ (by norm_num) htL
      exact_mod_cast lt_of_mul_lt_mul_right (lt_of_le_of_lt habove (hL'.trans_le hle)) hunit.le
    rw [Nat.lt_one_iff.mp hzero, Nat.log2_zero]
    omega

namespace Binary

variable {b : Binary}

theorem Covers.targetExponent_carry (hm : b.mantissa = 2 ^ 52) (he : -1074 < b.exponent)
    (hq : b.Covers q) (hbelow : q < 2 ^ (52 + b.exponent)) (hL : 2 ^ L ≤ q)
    (hL' : q < 2 ^ (L + 1)) : max (L - 52) (-1074) = b.exponent - 1 := by
  have hin := hq.two_zpow_le (k := 53) (by rw [low_eq_sub_one hm he]; decide)
  have h₁ := lt_of_two_zpow_lt (lt_of_le_of_lt hin hL')
  have h₂ := lt_of_two_zpow_lt (lt_of_le_of_lt hL hbelow)
  omega

theorem Covers.targetExponent_eq (hb : b.IsDouble) (hq : b.Covers q)
    (hin : 2 ^ (52 + b.exponent) ≤ q ∨ b.exponent = -1074) (hL : 2 ^ L ≤ q)
    (hL' : q < 2 ^ (L + 1)) : max (L - 52) (-1074) = b.exponent := by
  have h₁ := lt_of_two_zpow_lt (lt_of_le_of_lt hL (hq.lt_two_zpow hb.high_lt))
  have hleast := hb.least
  rcases hin with hin | he
  · have h₂ := lt_of_two_zpow_lt (lt_of_le_of_lt hin hL')
    omega
  · omega

/-- **A number is below the double's power of two** only if it is rounded up to it. -/
theorem Covers.carry_or_le (hb : b.IsDouble) (hq : b.Covers q) :
    (b.mantissa = 2 ^ 52 ∧ -1074 < b.exponent ∧ q < 2 ^ (52 + b.exponent)) ∨
      (2 ^ (52 + b.exponent) ≤ q ∨ b.exponent = -1074) := by
  rcases hb.least.eq_or_lt with he | he
  · exact .inr (.inr he.symm)
  · rcases lt_or_ge q (2 ^ (52 + b.exponent)) with hlt | hle
    · refine .inl ⟨?_, he, hlt⟩
      have hnormal : 2 ^ 52 ≤ b.mantissa := hb.normal.resolve_right he.ne'
      refine le_antisymm (not_lt.mp fun hm => ?_) hnormal
      have hlow := b.sub_two_le_low
      have hin := hq.two_zpow_le (k := 54) (by omega)
      have := lt_of_two_zpow_lt (lt_of_le_of_lt hin hlt)
      omega
    · exact .inr (.inl hle)

/-- **Rounding gives the double that covers the number**, if the number has been cut off finely
enough: it has `k` binary places in front of the point, and `t` is no more than they ask for. -/
theorem Covers.roundWithAccuracy (hb : b.IsDouble) (hq : b.Covers q) (k : Int)
    (h : Describes (.ofMantissaAndAccuracy M acc) (q / 2 ^ t)) (hk : 2 ^ (k - 1) ≤ q)
    (ht : t ≤ Format.binary64.targetExponent k) :
    UnpackedFloat.roundWithAccuracy .binary64 sign M t acc =
      .finite sign b.mantissa b.exponent hb.pos := by
  obtain ⟨L, hL, hL'⟩ := exists_mem_Ico_zpow (hq.pos hb) (by norm_num : (1 : ℚ) < 2)
  have hmantissa : (ExtendedMantissa.ofMantissaAndAccuracy M acc).mantissa = M := by
    unfold ExtendedMantissa.ofMantissaAndAccuracy
    split <;> rfl
  have ht : t ≤ max (L - 52) (-1074) := by
    have := lt_of_two_zpow_lt (lt_of_le_of_lt hk hL')
    rw [Lisp.targetExponent_eq] at ht
    omega
  have hT := targetExponent_of_describes h hL hL' ht
  rw [hmantissa] at hT
  rcases hq.carry_or_le hb with ⟨hm, he, hbelow⟩ | hin
  · rw [hq.targetExponent_carry hm he hbelow hL hL'] at hT ht
    rw [roundWithAccuracy_carry h hT ht (hq.nearestEven_of_lt hm he hbelow)]
    congr 1
    · exact hm.symm
    · omega
  · rw [hq.targetExponent_eq hb hin hL hL'] at hT ht
    exact roundWithAccuracy_eq h hT ht hq.nearestEven hb.pos hb.lt

end Binary

theorem two_zpow_log2_le {n : Nat} (h : 0 < n) : (2 : ℚ) ^ (n.log2 : Int) ≤ n := by
  rw [zpow_natCast]
  exact_mod_cast Nat.log2_self_le (Nat.pos_iff_ne_zero.mp h)

theorem lt_two_zpow_log2 (n : Nat) : (n : ℚ) < 2 ^ ((n.log2 : Int) + 1) := by
  have : n < 2 ^ (n.log2 + 1) := Nat.lt_log2_self
  exact_mod_cast this

theorem two_zpow_totalExponent_le {n : Nat} (h : 0 < n) (e : Int) :
    (2 : ℚ) ^ (totalExponent n e - 1) ≤ n * 2 ^ e := by
  have : totalExponent n e - 1 = n.log2 + e := by
    unfold totalExponent
    omega
  rw [this, zpow_add₀ (by norm_num)]
  exact mul_le_mul_of_nonneg_right (two_zpow_log2_le h) (two_zpow_pos e).le

/-- **A mantissa from which nothing has been dropped.** -/
theorem describes_exact (M : Nat) : Describes (.ofMantissaAndAccuracy M .exact) M :=
  ⟨0, le_rfl, by norm_num, by simp [ExtendedMantissa.ofMantissaAndAccuracy],
    by simp [ExtendedMantissa.ofMantissaAndAccuracy]⟩

/-- **Rounding keeps a double**, whatever mantissa and exponent write it. -/
theorem Binary.IsDouble.round_eq {b : Binary} (hb : b.IsDouble) {n : Nat} {e : Int} (hn : 0 < n)
    (hvalue : (n : ℚ) * 2 ^ e = b.value) :
    UnpackedFloat.round .binary64 sign n e = .finite sign b.mantissa b.exponent hb.pos := by
  have hcovers := hb.covers_value
  rw [← hvalue] at hcovers
  refine hcovers.roundWithAccuracy hb (totalExponent n e) ?_ ?_ ?_
  · generalize Format.binary64.targetExponent (totalExponent n e) = target
    have hshift : (n : ℚ) * 2 ^ e / 2 ^ (e - (e - target).toNat) =
        (n <<< (e - target).toNat : Nat) := by
      rw [two_zpow_eq_mul (e - target).toNat
        (by omega : e = (e - target).toNat + (e - (e - target).toNat)), ← mul_assoc,
        mul_div_cancel_right₀ _ (two_zpow_pos _).ne', Nat.shiftLeft_eq]
      push_cast
      rfl
    rw [hshift]
    exact describes_exact _
  · exact two_zpow_totalExponent_le hn e
  · omega

end Rounding

/-! ## 4. Division -/

section Division

variable {b : Binary} {m₁ m₂ : Nat} {e₁ e₂ : Int} {h₁ : 0 < m₁} {h₂ : 0 < m₂} {s₁ s₂ : Sign}

/-- **A quotient of whole numbers is described** by the whole quotient and by how twice the
remainder compares with the divisor. -/
theorem describes_accuracyOfFraction {n d : Nat} (hd : 0 < d) :
    Describes (.ofMantissaAndAccuracy (n / d) (accuracyOfFraction (n % d) d)) ((n : ℚ) / d) := by
  have hdpos : (0 : ℚ) < d := by exact_mod_cast hd
  have hvalue : (n : ℚ) / d = (n / d : Nat) + ((n % d : Nat) : ℚ) / d := by
    have : (n : ℚ) = d * (n / d : Nat) + (n % d : Nat) := by
      exact_mod_cast (Nat.div_add_mod n d).symm
    field_simp
    linarith
  have hlt : ((n % d : Nat) : ℚ) < d := by exact_mod_cast Nat.mod_lt n hd
  rw [hvalue]
  generalize n / d = whole
  generalize n % d = rest at *
  unfold accuracyOfFraction
  split
  · next hzero =>
    exact ⟨0, le_rfl, by norm_num, by simp [hzero, ExtendedMantissa.ofMantissaAndAccuracy],
      by simp [ExtendedMantissa.ofMantissaAndAccuracy]⟩
  · next hzero =>
    have hpos : (0 : ℚ) < rest := by exact_mod_cast Nat.pos_of_ne_zero hzero
    have hquot : (0 : ℚ) < rest / d := div_pos hpos hdpos
    cases hcompare : compare (2 * rest) d with
    | lt =>
      have : (2 * rest : ℚ) < d := by exact_mod_cast Nat.compare_eq_lt.mp hcompare
      have hhalf : (rest / d : ℚ) < 1 / 2 := by
        rw [div_lt_iff₀ hdpos]
        linarith
      exact ⟨rest / d, hquot.le, hhalf, by simp [ExtendedMantissa.ofMantissaAndAccuracy],
        by simp [ExtendedMantissa.ofMantissaAndAccuracy, hquot.ne']⟩
    | eq =>
      have : (2 * rest : ℚ) = d := by exact_mod_cast Nat.compare_eq_eq.mp hcompare
      have hhalf : (rest / d : ℚ) = 1 / 2 := by
        rw [div_eq_iff hdpos.ne']
        linarith
      exact ⟨0, le_rfl, by norm_num, by simp [ExtendedMantissa.ofMantissaAndAccuracy, hhalf],
        by simp [ExtendedMantissa.ofMantissaAndAccuracy]⟩
    | gt =>
      have : (d : ℚ) < 2 * rest := by exact_mod_cast Nat.compare_eq_gt.mp hcompare
      have hhalf : (1 / 2 : ℚ) < rest / d := by
        rw [lt_div_iff₀ hdpos]
        linarith
      have hone : (rest / d : ℚ) < 1 := (div_lt_one hdpos).mpr hlt
      refine ⟨rest / d - 1 / 2, by linarith, by linarith, ?_, ?_⟩
      · simp [ExtendedMantissa.ofMantissaAndAccuracy]
      · simp only [ExtendedMantissa.ofMantissaAndAccuracy, true_iff]
        linarith

/-- **The quotient of two doubles is the double that covers the exact quotient.** -/
theorem Binary.Covers.div_eq (hb : b.IsDouble) (hq : b.Covers (m₁ * 2 ^ e₁ / (m₂ * 2 ^ e₂))) :
    UnpackedFloat.div .binary64 (.finite s₁ m₁ e₁ h₁) (.finite s₂ m₂ e₂ h₂) =
      .finite (s₁ / s₂) b.mantissa b.exponent hb.pos := by
  have hm₂ : (0 : ℚ) < m₂ := by exact_mod_cast h₂
  refine hq.roundWithAccuracy hb (totalExponent m₁ e₁ - totalExponent m₂ e₂) ?_ ?_ ?_
  · generalize Format.binary64.targetExponent _ = target
    have hexact : (m₁ * 2 ^ e₁ / (m₂ * 2 ^ e₂) / 2 ^ min (e₁ - e₂) target : ℚ) =
        ((m₁ <<< (e₁ - e₂ - min (e₁ - e₂) target).toNat : Nat) : ℚ) / m₂ := by
      have : (2 : ℚ) ^ e₁ = 2 ^ (e₁ - e₂ - min (e₁ - e₂) target).toNat *
          2 ^ (e₂ + min (e₁ - e₂) target) := two_zpow_eq_mul _ (by omega)
      rw [this, zpow_add₀ (by norm_num), Nat.shiftLeft_eq]
      push_cast
      have := two_zpow_pos e₂
      have := two_zpow_pos (min (e₁ - e₂) target)
      field_simp
    rw [hexact]
    exact describes_accuracyOfFraction h₂
  · have : totalExponent m₁ e₁ - totalExponent m₂ e₂ - 1 =
        (m₁.log2 + e₁) - (m₂.log2 + 1 + e₂) := by
      unfold totalExponent
      omega
    rw [this, zpow_sub₀ (by norm_num), zpow_add₀ (by norm_num), zpow_add₀ (by norm_num)]
    exact div_le_div₀ (by positivity)
      (mul_le_mul_of_nonneg_right (two_zpow_log2_le h₁) (two_zpow_pos e₁).le) (by positivity)
      (mul_le_mul_of_nonneg_right (lt_two_zpow_log2 m₂).le (two_zpow_pos e₂).le)
  · exact min_le_right _ _

end Division

/-! ## 5. Decimal notation -/

section Decimal

variable {b : Binary} {n places : Nat}

/-- **A whole number below `2^53` is a double.** -/
theorem exists_isDouble_natCast (hn : 0 < n) (hlt : n < 2 ^ 53) :
    ∃ b : Binary, b.IsDouble ∧ b.value = n := by
  have hn' := Nat.pos_iff_ne_zero.mp hn
  have hlog : n.log2 ≤ 52 := Nat.lt_succ_iff.mp ((Nat.log2_lt hn').mpr hlt)
  refine ⟨⟨n * 2 ^ (52 - n.log2), n.log2 - 52⟩, ⟨?_, ?_, ?_, ?_, .inl ?_⟩, ?_⟩
  · exact Nat.mul_pos hn (Nat.two_pow_pos _)
  · calc n * 2 ^ (52 - n.log2) < 2 ^ (n.log2 + 1) * 2 ^ (52 - n.log2) :=
          Nat.mul_lt_mul_of_pos_right Nat.lt_log2_self (Nat.two_pow_pos _)
      _ = 2 ^ 53 := by rw [← pow_add]; congr 1; omega
  · dsimp only
    omega
  · dsimp only
    omega
  · calc 2 ^ 52 = 2 ^ n.log2 * 2 ^ (52 - n.log2) := by rw [← pow_add]; congr 1; omega
      _ ≤ n * 2 ^ (52 - n.log2) := Nat.mul_le_mul_right _ (Nat.log2_self_le hn')
  · have : (2 : ℚ) ^ (0 : Int) = 2 ^ (52 - n.log2) * 2 ^ ((n.log2 : Int) - 52) :=
      two_zpow_eq_mul _ (by omega)
    rw [zpow_zero] at this
    rw [Binary.value]
    push_cast
    rw [mul_assoc, ← this, mul_one]

/-- **Whether a float is the whole number.** -/
def isNatural (x : Float) (n : Nat) : Bool :=
  match x.toModel.unpack with
  | .finite .positive m e _ => m * 2 ^ e.toNat == n * 2 ^ (-e).toNat
  | _ => false

theorem unpack_of_isNatural {x : Float} (h : isNatural x n = true) :
    ∃ (m : Nat) (e : Int) (hm : 0 < m),
      x.toModel.unpack = .finite .positive m e hm ∧ (m : ℚ) * 2 ^ e = n := by
  unfold isNatural at h
  split at h
  · next m e hm hunpack =>
    refine ⟨m, e, hm, hunpack, ?_⟩
    have h : m * 2 ^ e.toNat = n * 2 ^ (-e).toNat := beq_iff_eq.mp h
    have h : (m : ℚ) * 2 ^ (e.toNat : Int) = n * 2 ^ (-e).toNat := by exact_mod_cast h
    rw [two_zpow_eq_mul (-e).toNat (by omega : (e.toNat : Int) = (-e).toNat + e),
      mul_left_comm, mul_comm (n : ℚ)] at h
    exact mul_left_cancel₀ (by positivity) h
  · cases h

theorem isNatural_powerOfTen : ∀ k : Fin Float.exactlyRepresentablePowersOfTen.size,
    isNatural Float.exactlyRepresentablePowersOfTen[k] (10 ^ k.val) = true := by
  decide +kernel

theorem unpack_powerOfTen (h : places < Float.exactlyRepresentablePowersOfTen.size) :
    ∃ (m : Nat) (e : Int) (hm : 0 < m),
      Float.exactlyRepresentablePowersOfTen[places].toModel.unpack = .finite .positive m e hm ∧
        (m : ℚ) * 2 ^ e = (10 ^ places : Nat) :=
  unpack_of_isNatural (isNatural_powerOfTen ⟨places, h⟩)

theorem unpack_natToFloat (hn : 0 < n) (hlt : n < 2 ^ 53) :
    ∃ (m : Nat) (e : Int) (hm : 0 < m),
      n.toUInt64.toFloat.toModel.unpack = .finite .positive m e hm ∧ (m : ℚ) * 2 ^ e = n := by
  obtain ⟨b, hb, hvalue⟩ := exists_isDouble_natCast hn hlt
  have hnat : n.toUInt64.toNat = n := Nat.mod_eq_of_lt (by omega)
  have hround : UnpackedFloat.ofNat .binary64 n =
      .finite .positive b.mantissa b.exponent hb.pos := by
    have hcompare : compare (n : Int) 0 = .gt := by
      rw [compare_gt_iff_gt]
      omega
    simp only [UnpackedFloat.ofNat, UnpackedFloat.ofInt, UnpackedFloat.normalize, hcompare]
    exact hb.round_eq hn (by rw [hvalue, zpow_zero, mul_one]; rfl)
  refine ⟨b.mantissa, b.exponent, hb.pos, ?_, hvalue⟩
  change (Float.Model.pack (UnpackedFloat.ofNat .binary64 n.toUInt64.toNat)).unpack = _
  rw [hnat, hround]
  exact hb.unpack_toFloat

/-- **What rounds to a double other than zero** has no more places than exact division allows. -/
theorem Binary.Covers.places_le (hb : b.IsDouble) (hq : b.Covers ((n : ℚ) / 10 ^ places)) :
    places ≤ 2048 + n.log2 := by
  have hlow : (2 : ℚ) ^ (-1075 : Int) ≤ n / 10 ^ places := by
    have hleast := hb.least
    exact le_trans (zpow_le_zpow_right₀ (by norm_num) (by omega)) (hq.two_zpow_le hb.two_le_low)
  have hten : (2 : ℚ) ^ ((3 * places : Nat) : Int) ≤ 10 ^ places := by
    rw [zpow_natCast, pow_mul]
    exact pow_le_pow_left₀ (by norm_num) (by norm_num) places
  have hlt : (2 : ℚ) ^ ((3 * places : Nat) + (-1075 : Int)) < 2 ^ ((n.log2 : Int) + 1) := by
    rw [zpow_add₀ (by norm_num)]
    rw [le_div_iff₀ (by positivity)] at hlow
    calc (2 : ℚ) ^ ((3 * places : Nat) : Int) * 2 ^ (-1075 : Int)
        ≤ 10 ^ places * 2 ^ (-1075 : Int) :=
          mul_le_mul_of_nonneg_right hten (two_zpow_pos (-1075)).le
      _ ≤ n := by rwa [mul_comm]
      _ < 2 ^ ((n.log2 : Int) + 1) := lt_two_zpow_log2 n
  have := lt_of_two_zpow_lt hlt
  omega

/-- **Decimal notation is read as the double that covers it**, whether the digits and the power of
ten are doubles themselves or not. -/
theorem Binary.Covers.ofScientific_eq (hb : b.IsDouble) (hn : 0 < n) (hplaces : 0 < places)
    (hq : b.Covers ((n : ℚ) / 10 ^ places)) :
    Float.ofScientific n true places = hb.toFloat .positive := by
  unfold Float.ofScientific
  split
  · next hsmall =>
    obtain ⟨m₁, e₁, h₁, hn₁, hvalue₁⟩ := unpack_natToFloat hn hsmall.1
    have hsize : places < Float.exactlyRepresentablePowersOfTen.size :=
      Nat.lt_succ_iff.mpr hsmall.2
    obtain ⟨m₂, e₂, h₂, hn₂, hvalue₂⟩ := unpack_powerOfTen hsize
    have hquot : b.Covers (m₁ * 2 ^ e₁ / (m₂ * 2 ^ e₂)) := by
      rw [hvalue₁, hvalue₂]
      exact_mod_cast hq
    change Float.ofModel (Float.Model.pack (UnpackedFloat.div .binary64
      n.toUInt64.toFloat.toModel.unpack
      Float.exactlyRepresentablePowersOfTen[places].toModel.unpack)) = _
    rw [hn₁, hn₂, hquot.div_eq hb]
    rfl
  · have hguard := hq.places_le hb
    have hquot : b.Covers (n * 2 ^ (0 : Int) / ((10 ^ places : Nat) * 2 ^ (0 : Int))) := by
      simpa using hq
    change Float.ofModel (Float.Model.pack (UnpackedFloat.ofScientific .binary64 n
      (Int.negOfNat places))) = _
    have hdiv : UnpackedFloat.ofScientific .binary64 n (Int.negOfNat places) =
        UnpackedFloat.div .binary64 (.finite .positive n 0 hn)
          (.finite .positive (10 ^ places) 0 (Nat.pow_pos (by decide))) := by
      have hbits : (2 : Int) ^ Format.binary64.exponentBits = 2048 := rfl
      rw [Int.negOfNat_eq, Int.ofNat_eq_natCast]
      unfold UnpackedFloat.ofScientific
      rw [hbits, dif_neg (Nat.pos_iff_ne_zero.mp hn), if_neg (by omega), if_neg (by omega),
        if_neg (by omega)]
      simp
    rw [hdiv, hquot.div_eq hb]
    rfl

end Decimal

end Lisp
