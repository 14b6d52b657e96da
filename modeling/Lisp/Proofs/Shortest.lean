/-
# The shortest decimal

The search for the decimal to print goes from coarse grids to fine ones, looks only at the two
neighbours of the number on each, and is bounded by a fixed number of grids.  This module proves
that it finds what it is for:

* every double is printed as a decimal that rounds to it (`IsDouble.covers_shortest`), because the
  grid `10^-324` is finer than any rounding interval;
* no decimal with fewer digits rounds to it (`IsDouble.length_digits_shortest_le`), because the
  search starts above the number and passes over no grid with a point in the interval;
* the decimals are in the order of the doubles (`shortest_value_lt`), because two intervals do not
  meet (`Covers.lt`).

The comparisons of whole numbers that the search makes are taken to the rationals first
(`admits_iff`).
-/
import Lisp.Proofs.Rounding
import Lisp.Decimal.FloatText

namespace Lisp

/-- **The number that a decimal writes.** -/
def Decimal.value (d : Decimal) : ℚ :=
  d.coefficient * 10 ^ d.exponent

/-! ## 1. Comparison -/

section Compare

variable {c m : Nat} {p q : Int}

theorem natCast_scale (n base : Nat) (hbase : 0 < base) (k : Int) :
    (n : ℚ) * (base : ℚ) ^ k.toNat = n * (base : ℚ) ^ k * (base : ℚ) ^ (-k).toNat := by
  have hbase : (base : ℚ) ≠ 0 := by exact_mod_cast Nat.pos_iff_ne_zero.mp hbase
  rw [mul_assoc, ← zpow_natCast, ← zpow_natCast, ← zpow_add₀ hbase]
  congr 2
  omega

/-- **Both numbers are multiplied by the same** to make them whole. -/
theorem compareDecimal_scale (c m : Nat) (p q : Int) : ∃ scale : ℚ, 0 < scale ∧
    ((c * Nat.pow 10 p.toNat * Nat.pow 2 (-q).toNat : Nat) : ℚ) = c * 10 ^ p * scale ∧
    ((m * Nat.pow 2 q.toNat * Nat.pow 10 (-p).toNat : Nat) : ℚ) = m * 2 ^ q * scale := by
  refine ⟨10 ^ (-p).toNat * 2 ^ (-q).toNat, by positivity, ?_, ?_⟩
  · have := natCast_scale c 10 (by decide) p
    push_cast [Nat.pow_eq] at this ⊢
    rw [this, mul_assoc]
  · have := natCast_scale m 2 (by decide) q
    push_cast [Nat.pow_eq] at this ⊢
    rw [this]
    ring

theorem compareDecimal_eq_lt : compareDecimal c p m q = .lt ↔ (c : ℚ) * 10 ^ p < m * 2 ^ q := by
  obtain ⟨scale, hpos, hc, hm⟩ := compareDecimal_scale c m p q
  rw [compareDecimal, Nat.compare_eq_lt, ← Nat.cast_lt (α := ℚ), hc, hm, mul_lt_mul_iff_left₀ hpos]

theorem compareDecimal_eq_gt : compareDecimal c p m q = .gt ↔ (m : ℚ) * 2 ^ q < c * 10 ^ p := by
  obtain ⟨scale, hpos, hc, hm⟩ := compareDecimal_scale c m p q
  rw [compareDecimal, Nat.compare_eq_gt, ← Nat.cast_lt (α := ℚ), hc, hm, mul_lt_mul_iff_left₀ hpos]

theorem compareDecimal_eq_eq : compareDecimal c p m q = .eq ↔ (c : ℚ) * 10 ^ p = m * 2 ^ q := by
  obtain ⟨scale, hpos, hc, hm⟩ := compareDecimal_scale c m p q
  rw [compareDecimal, Nat.compare_eq_eq, ← Nat.cast_inj (R := ℚ), hc, hm, mul_left_inj' hpos.ne']

end Compare

namespace Binary

variable {b b' : Binary} {c : Nat} {p : Int} {y y' : ℚ}

theorem low_lt_high (b : Binary) : b.low < b.high := by
  have := b.low_le_sub_one
  unfold high
  omega

/-- **The search accepts what rounds to the number**, and nothing else. -/
theorem admits_iff : b.admits c p = true ↔ b.Covers (c * 10 ^ p) := by
  have hlt : b.low * b.quarter < b.high * b.quarter :=
    mul_lt_mul_of_pos_right (by exact_mod_cast b.low_lt_high) b.quarter_pos
  simp only [admits, Bool.and_eq_true, Bool.or_eq_true, beq_iff_eq, compareDecimal_eq_lt,
    compareDecimal_eq_gt, compareDecimal_eq_eq]
  change (b.low * b.quarter < _ ∨ _ ∧ _ = b.low * b.quarter) ∧
    (_ < b.high * b.quarter ∨ _ ∧ _ = b.high * b.quarter) ↔ _
  generalize (c : ℚ) * 10 ^ p = y
  constructor
  · rintro ⟨hlow, hhigh⟩
    refine ⟨?_, ?_, ?_⟩
    · exact hlow.elim le_of_lt fun h => h.2.ge
    · exact hhigh.elim le_of_lt fun h => h.2.le
    · rintro (heq | heq)
      · exact hlow.elim (fun h => absurd heq h.ne') fun h => h.1
      · exact hhigh.elim (fun h => absurd heq h.ne) fun h => h.1
  · rintro ⟨hlow, hhigh, hclosed⟩
    constructor
    · exact hlow.lt_or_eq.imp_right fun h => ⟨hclosed (.inl h.symm), h.symm⟩
    · exact hhigh.lt_or_eq.imp_right fun h => ⟨hclosed (.inr h), h⟩

/-! ## 2. The search ends in the interval -/

/-- **The number lies between its two neighbours on a grid.** -/
theorem floorAt_spec (b : Binary) (p : Int) :
    (b.floorAt p : ℚ) * 10 ^ p ≤ b.value ∧ b.value < (b.floorAt p + 1) * 10 ^ p := by
  obtain ⟨scale, hpos, hc, hm⟩ := compareDecimal_scale 1 b.mantissa p b.exponent
  rw [Nat.one_mul, Nat.cast_one, one_mul] at hc
  have hunit : 0 < Nat.pow 10 p.toNat * Nat.pow 2 (-b.exponent).toNat :=
    Nat.mul_pos (Nat.pow_pos (by decide)) (Nat.pow_pos (by decide))
  have hbelow : b.floorAt p * _ ≤ _ := (Nat.le_div_iff_mul_le hunit).mp le_rfl
  have habove : _ < (b.floorAt p + 1) * _ := (Nat.div_lt_iff_lt_mul hunit).mp (Nat.lt_succ_self _)
  rw [← Nat.cast_le (α := ℚ), hm, Nat.cast_mul, hc, ← mul_assoc] at hbelow
  rw [← Nat.cast_lt (α := ℚ), hm, Nat.cast_mul, hc, ← mul_assoc] at habove
  push_cast at habove
  exact ⟨le_of_mul_le_mul_right hbelow hpos, lt_of_mul_lt_mul_right habove hpos.le⟩

/-- **A grid as fine as a quarter of the last place** has a point that rounds to the number. -/
theorem admits_floorAt (hb : b.IsDouble) (hp : 10 ^ p ≤ b.quarter) :
    b.admits (b.floorAt p) p = true := by
  obtain ⟨hbelow, habove⟩ := b.floorAt_spec p
  rw [value_eq_quarter] at hbelow habove
  have hquarter := b.quarter_pos
  have hlow : (b.low + 1) * b.quarter ≤ 4 * b.mantissa * b.quarter :=
    mul_le_mul_of_nonneg_right (cast_low_le hb) hquarter.le
  have h₁ : b.low * b.quarter < b.floorAt p * 10 ^ p := by linarith
  have h₂ : b.floorAt p * 10 ^ p < b.high * b.quarter := by
    rw [cast_high]
    linarith
  rw [admits_iff]
  exact ⟨h₁.le, h₂.le, fun h => h.elim (fun h => absurd h h₁.ne') fun h => absurd h h₂.ne⟩

theorem admits_of_onGrid (h : b.onGrid? p = some c) : b.admits c p = true := by
  unfold onGrid? at h
  dsimp only at h
  split at h
  · next hbelow habove =>
    split at h <;> cases h
    · exact hbelow
    · exact habove
  · next hbelow _ =>
    cases h
    exact hbelow
  · next _ habove =>
    cases h
    exact habove
  · cases h

/-- **The search ends in the interval** if its bound takes it down to the grid `10^-324`. -/
theorem covers_search (hb : b.IsDouble) {fuel : Nat} (hp : p ≤ fuel - 324) :
    b.Covers (b.search fuel p).value := by
  induction fuel generalizing p with
  | zero =>
    refine admits_iff.mp (admits_floorAt hb ?_)
    have hleast := hb.least
    calc (10 : ℚ) ^ p ≤ 10 ^ (-324 : Int) := zpow_le_zpow_right₀ (by norm_num) (by omega)
      _ ≤ 2 ^ (-1076 : Int) := by
        have : 2 ^ 1076 ≤ 10 ^ 324 := by decide +kernel
        rw [zpow_neg, zpow_neg]
        exact inv_anti₀ (by positivity) (by exact_mod_cast this)
      _ ≤ b.quarter := zpow_le_zpow_right₀ (by norm_num) (by omega)
  | succ fuel ih =>
    rw [search]
    split
    · next c hc => exact admits_iff.mp (admits_of_onGrid hc)
    · exact ih (by omega)

theorem startExponent_le (hb : b.IsDouble) : b.startExponent ≤ 342 := by
  have hlog : b.mantissa.log2 < 53 := (Nat.log2_lt (Nat.pos_iff_ne_zero.mp hb.pos)).mpr hb.lt
  have := hb.greatest
  simp only [startExponent]
  split <;> omega

/-- **A double is printed as a decimal that rounds to it.** -/
theorem IsDouble.covers_shortest (hb : b.IsDouble) : b.Covers b.shortest.value :=
  covers_search hb (by have := startExponent_le hb; omega)

/-! ## 3. Order -/

/-- **The interval of a double ends where that of a greater one begins**, if not before, and then
the end belongs to one of them at most. -/
theorem ends_le (hb : b.IsDouble) (hb' : b'.IsDouble) (h : b.Below b') :
    b.high * b.quarter ≤ b'.low * b'.quarter ∧
      (b.high * b.quarter = b'.low * b'.quarter → b.mantissa % 2 = 1 ∨ b'.mantissa % 2 = 1) := by
  have hquarter := b.quarter_pos
  have hlow := b'.sub_two_le_low
  have hpos := hb'.pos
  rcases h with he | ⟨he, hm⟩
  · -- the greater one has no subnormal mantissa, and its units are at least twice as large
    have hleast := hb.least
    have hlow' : 2 ^ 54 ≤ b'.low + 1 := by
      have hnormal := hb'.normal
      by_cases hm : b'.mantissa = 2 ^ 52
      · have := low_eq_sub_one hm (by omega)
        omega
      · omega
    have hlow' : (2 ^ 54 : ℚ) ≤ b'.low + 1 := by exact_mod_cast hlow'
    have hdouble : 2 * b.quarter ≤ b'.quarter := by
      have := b.two_zpow_eq_quarter 1 (by omega : b.exponent - 1 = (1 : Nat) + (b.exponent - 2))
      rw [pow_one] at this
      rw [← this]
      exact zpow_le_zpow_right₀ (by norm_num) (by omega)
    have hstep : (2 ^ 54 - 1) * (2 * b.quarter) ≤ b'.low * b'.quarter :=
      mul_le_mul (by linarith) hdouble (by positivity) (by positivity)
    have hhigh : b.high ≤ 2 ^ 55 - 2 := by
      have := hb.lt
      unfold high
      omega
    have hhigh' : (b.high : ℚ) ≤ (2 ^ 55 - 2 : Nat) := by exact_mod_cast hhigh
    have htop : b.high * b.quarter ≤ (2 ^ 55 - 2 : Nat) * b.quarter :=
      mul_le_mul_of_nonneg_right hhigh' hquarter.le
    have hmiddle : (2 ^ 55 - 2 : Nat) * b.quarter = (2 ^ 54 - 1) * (2 * b.quarter) := by
      norm_num
      ring
    refine ⟨htop.trans (hmiddle.le.trans hstep), fun heq => .inl ?_⟩
    have htight : b.high * b.quarter = (2 ^ 55 - 2 : Nat) * b.quarter :=
      le_antisymm htop (by rw [hmiddle, heq]; exact hstep)
    have htight : b.high = 2 ^ 55 - 2 := by
      exact_mod_cast mul_right_cancel₀ hquarter.ne' htight
    unfold high at htight
    omega
  · have hsame : b'.quarter = b.quarter := by rw [quarter, quarter, he]
    have hle : b.high ≤ b'.low := by
      unfold high
      omega
    rw [hsame]
    refine ⟨mul_le_mul_of_nonneg_right (by exact_mod_cast hle) hquarter.le, fun heq => ?_⟩
    have heq : b.high = b'.low := by exact_mod_cast mul_right_cancel₀ hquarter.ne' heq
    have := b'.low_le_sub_one
    unfold high at heq
    omega

/-- **The rounding intervals of two doubles do not meet.** -/
theorem Covers.lt (hb : b.IsDouble) (hb' : b'.IsDouble) (h : b.Below b') (hy : b.Covers y)
    (hy' : b'.Covers y') : y < y' := by
  obtain ⟨hends, hodd⟩ := ends_le hb hb' h
  have hle : y ≤ y' := hy.le_high.trans (hends.trans hy'.low_le)
  refine hle.lt_of_ne ?_
  rintro rfl
  have hhigh : y = b.high * b.quarter := le_antisymm hy.le_high (hends.trans hy'.low_le)
  have hlow : y = b'.low * b'.quarter := le_antisymm (hy.le_high.trans hends) hy'.low_le
  have heven := hy.closed (.inr hhigh)
  have heven' := hy'.closed (.inl hlow)
  have := hodd (hhigh.symm.trans hlow)
  omega

/-- **Numbers that round to doubles are in the order of the doubles**, if one double has only one of
them. -/
theorem Covers.lt_iff (hb : b.IsDouble) (hb' : b'.IsDouble) (hy : b.Covers y) (hy' : b'.Covers y')
    (hone : b = b' → y = y') : y < y' ↔ b.Below b' := by
  constructor
  · intro hlt
    rcases below_trichotomy b b' with hbelow | heq | habove
    · exact hbelow
    · exact absurd (hone heq) hlt.ne
    · exact absurd (Covers.lt hb' hb habove hy' hy) hlt.not_gt
  · exact fun hbelow => Covers.lt hb hb' hbelow hy hy'

/-- **The shortest decimals are in the order of the doubles.** -/
theorem shortest_value_lt (hb : b.IsDouble) (hb' : b'.IsDouble) :
    b.shortest.value < b'.shortest.value ↔ b.Below b' :=
  Covers.lt_iff hb hb' hb.covers_shortest hb'.covers_shortest fun h => by rw [h]

theorem shortest_value_le (hb : b.IsDouble) (hb' : b'.IsDouble) :
    b.shortest.value ≤ b'.shortest.value ↔ ¬ b'.Below b := by
  rw [← not_lt, shortest_value_lt hb' hb]

end Binary

/-! ## 4. Digits -/

namespace Decimal

variable {d : Decimal}

theorem length_digits_pos (d : Decimal) : 0 < d.digits.length :=
  Nat.length_toDigits_pos

theorem coefficient_pos_of_value (h : 0 < d.value) : 0 < d.coefficient := by
  refine Nat.pos_of_ne_zero fun hzero => ?_
  rw [value, hzero, Nat.cast_zero, zero_mul] at h
  exact lt_irrefl _ h

/-- **The place of the first digit says how large the number is.** -/
theorem value_bounds (h : 0 < d.value) :
    (10 : ℚ) ^ (d.pointIndex - 1) ≤ d.value ∧ d.value < 10 ^ d.pointIndex := by
  have hlength := d.length_digits_pos
  have hp : (0 : ℚ) < 10 ^ d.exponent := zpow_pos (by norm_num) _
  have habove : d.coefficient < 10 ^ d.digits.length :=
    (Nat.length_toDigits_le_iff (by decide) hlength).mp le_rfl
  have hbelow : 10 ^ (d.digits.length - 1) ≤ d.coefficient := by
    rcases Nat.eq_or_lt_of_le hlength with hone | hmore
    · rw [← hone]
      exact coefficient_pos_of_value h
    · refine not_lt.mp fun hlt => ?_
      have : d.digits.length ≤ d.digits.length - 1 :=
        (Nat.length_toDigits_le_iff (by decide) (by omega)).mpr hlt
      omega
  constructor
  · have : d.pointIndex - 1 = ((d.digits.length - 1 : Nat) : Int) + d.exponent := by
      unfold pointIndex
      omega
    rw [this, zpow_add₀ (by norm_num), zpow_natCast]
    exact mul_le_mul_of_nonneg_right (by exact_mod_cast hbelow) hp.le
  · rw [pointIndex, zpow_add₀ (by norm_num), zpow_natCast]
    exact mul_lt_mul_of_pos_right (by exact_mod_cast habove) hp

theorem le_place_iff (h : 0 < d.value) (k : Int) : k ≤ d.pointIndex - 1 ↔ 10 ^ k ≤ d.value := by
  obtain ⟨hbelow, habove⟩ := value_bounds h
  constructor
  · exact fun hk => le_trans (zpow_le_zpow_right₀ (by norm_num) hk) hbelow
  · intro hk
    have := (zpow_lt_zpow_iff_right₀ (by norm_num : (1 : ℚ) < 10)).mp (lt_of_le_of_lt hk habove)
    omega

end Decimal

/-! ## 5. No shorter decimal -/

namespace Binary

variable {b : Binary} {c : Nat} {p : Int} {y y₁ y₂ : ℚ}

/-- **The numbers that round to a double** lie together. -/
theorem Covers.between (h₁ : b.Covers y₁) (h₂ : b.Covers y₂) (hbelow : y₁ ≤ y) (habove : y ≤ y₂) :
    b.Covers y where
  low_le := h₁.low_le.trans hbelow
  le_high := habove.trans h₂.le_high
  closed := by
    rintro (h | h)
    · exact h₁.closed (.inl (le_antisymm (hbelow.trans h.le) h₁.low_le))
    · exact h₂.closed (.inr (le_antisymm h₂.le_high (h.ge.trans habove)))

theorem onGrid_ne_none
    (h : b.admits (b.floorAt p) p = true ∨ b.admits (b.floorAt p + 1) p = true) :
    b.onGrid? p ≠ none := by
  unfold onGrid?
  dsimp only
  split
  · split <;> exact Option.some_ne_none _
  · exact Option.some_ne_none _
  · exact Option.some_ne_none _
  · next hbelow habove =>
    rw [hbelow, habove] at h
    simp at h

/-- **If the neighbours of the number on a grid do not round to it**, no point of the grid does. -/
theorem not_covers_of_onGrid (hb : b.IsDouble) (h : b.onGrid? p = none) (c : Nat) :
    ¬ b.Covers (c * 10 ^ p) := by
  intro hc
  have hp : (0 : ℚ) ≤ 10 ^ p := zpow_nonneg (by norm_num) p
  obtain ⟨hbelow, habove⟩ := b.floorAt_spec p
  rcases Nat.lt_or_ge (b.floorAt p) c with hlt | hle
  · have hle : (b.floorAt p : ℚ) + 1 ≤ c := by exact_mod_cast hlt
    have hnext := hb.covers_value.between hc habove.le (mul_le_mul_of_nonneg_right hle hp)
    refine onGrid_ne_none (.inr (admits_iff.mpr ?_)) h
    exact_mod_cast hnext
  · have hle : (c : ℚ) ≤ b.floorAt p := by exact_mod_cast hle
    have hfloor := hc.between hb.covers_value (mul_le_mul_of_nonneg_right hle hp) hbelow
    exact onGrid_ne_none (.inl (admits_iff.mpr hfloor)) h

theorem not_covers_of_search (hb : b.IsDouble) {fuel : Nat} {start : Int}
    (hbelow : (b.search fuel start).exponent < p) (habove : p ≤ start) (c : Nat) :
    ¬ b.Covers (c * 10 ^ p) := by
  induction fuel generalizing start with
  | zero => exact absurd hbelow habove.not_gt
  | succ fuel ih =>
    rw [search] at hbelow
    split at hbelow
    · exact absurd hbelow habove.not_gt
    · next hnone =>
      rcases habove.eq_or_lt with rfl | hlt
      · exact not_covers_of_onGrid hb hnone c
      · exact ih hbelow (by omega)

theorem Covers.lt_two_zpow_log2 (h : b.Covers y) :
    y < 2 ^ (b.mantissa.log2 + 1 + b.exponent) := by
  have hlog : b.mantissa < 2 ^ (b.mantissa.log2 + 1) := Nat.lt_log2_self
  have hhigh : b.high < 2 ^ (b.mantissa.log2 + 3) := by
    have : 2 ^ (b.mantissa.log2 + 3) = 4 * 2 ^ (b.mantissa.log2 + 1) := by ring
    unfold high
    omega
  have hexponent : b.mantissa.log2 + 1 + b.exponent =
      (b.mantissa.log2 + 3 : Nat) + (b.exponent - 2) := by omega
  rw [hexponent]
  exact h.lt_two_zpow hhigh

theorem two_zpow_le_ten_zpow {a k : Int} (h : a ≤ 3 * k) (hk : 0 ≤ k) : (2 : ℚ) ^ a ≤ 10 ^ k :=
  calc (2 : ℚ) ^ a ≤ 2 ^ (3 * k) := zpow_le_zpow_right₀ (by norm_num) h
    _ = (2 ^ (3 : Int)) ^ k := zpow_mul _ _ _
    _ ≤ 10 ^ k := zpow_le_zpow_left₀ hk (by norm_num) (by norm_num)

theorem two_zpow_le_ten_zpow_neg {a : Int} {k : Nat} (h : 3 * a ≤ -(10 * k)) :
    (2 : ℚ) ^ a ≤ 10 ^ (-k : Int) := by
  have hcubes : ((2 : ℚ) ^ a) ^ 3 ≤ (10 ^ (-k : Int)) ^ 3 :=
    calc ((2 : ℚ) ^ a) ^ 3 = 2 ^ (3 * a) := by rw [← zpow_natCast, ← zpow_mul, mul_comm]; rfl
      _ ≤ 2 ^ (-(10 * k) : Int) := zpow_le_zpow_right₀ (by norm_num) h
      _ = ((2 ^ 10) ^ k)⁻¹ := by rw [zpow_neg, ← pow_mul]; norm_cast
      _ ≤ ((10 ^ 3) ^ k)⁻¹ :=
        inv_anti₀ (by positivity) (pow_le_pow_left₀ (by norm_num) (by norm_num) k)
      _ = (10 ^ (-k : Int)) ^ 3 := by
        rw [zpow_neg, zpow_natCast, inv_pow, ← pow_mul, ← pow_mul, mul_comm]
  exact (pow_le_pow_iff_left₀ (two_zpow_pos a).le (zpow_nonneg (by norm_num) _) (by decide)).mp
    hcubes

/-- **The search starts above the number**, and above all that rounds to it. -/
theorem Covers.lt_startExponent (h : b.Covers y) : y < 10 ^ b.startExponent := by
  refine lt_of_lt_of_le h.lt_two_zpow_log2 ?_
  simp only [startExponent]
  split
  · exact two_zpow_le_ten_zpow (by omega) (by omega)
  · next hneg =>
    generalize (b.mantissa.log2 : Int) + 1 + b.exponent = bits at *
    obtain ⟨k, hk⟩ : ∃ k : Nat, 3 * bits / 10 + 1 = -(k : Int) :=
      ⟨(-(3 * bits / 10 + 1)).toNat, by omega⟩
    rw [hk]
    exact two_zpow_le_ten_zpow_neg (by omega)

/-- **Only finer grids** than the one of the printed decimal have other points that round to the
number. -/
theorem not_covers_coarser (hb : b.IsDouble) (hc : 0 < c) (hp : b.shortest.exponent < p) :
    ¬ b.Covers (c * 10 ^ p) := by
  rcases le_or_gt p b.startExponent with hle | hlt
  · exact not_covers_of_search hb hp hle c
  · intro h
    have hstart : (10 : ℚ) ^ b.startExponent ≤ 10 ^ p := zpow_le_zpow_right₀ (by norm_num) hlt.le
    have hone : (1 : ℚ) ≤ c := by exact_mod_cast hc
    have hmul : (10 : ℚ) ^ p ≤ c * 10 ^ p :=
      le_mul_of_one_le_left (zpow_nonneg (by norm_num) p) hone
    exact absurd h.lt_startExponent (hstart.trans hmul).not_gt

/-- **No decimal that rounds to the number has fewer digits** than the printed one. -/
theorem IsDouble.length_digits_shortest_le (hb : b.IsDouble) {d : Decimal} (h : b.Covers d.value) :
    b.shortest.digits.length ≤ d.digits.length := by
  refine not_lt.mp fun hlt => ?_
  have hshortest := hb.covers_shortest
  obtain ⟨-, habove⟩ := Decimal.value_bounds (h.pos hb)
  obtain ⟨hbelow, -⟩ := Decimal.value_bounds (hshortest.pos hb)
  have hlength := d.length_digits_pos
  have hpoint : b.shortest.pointIndex = b.shortest.digits.length + b.shortest.exponent := rfl
  have hpoint' : d.pointIndex = d.digits.length + d.exponent := rfl
  rcases lt_or_ge b.shortest.exponent d.exponent with hcoarser | hfiner
  · exact not_covers_coarser hb (Decimal.coefficient_pos_of_value (h.pos hb)) hcoarser h
  · -- a power of ten lies between the two numbers, and so rounds to the double as well
    have hpower : b.Covers ((1 : Nat) * 10 ^ (b.shortest.pointIndex - 1)) := by
      rw [Nat.cast_one, one_mul]
      refine h.between hshortest (habove.le.trans ?_) hbelow
      exact zpow_le_zpow_right₀ (by norm_num) (by omega)
    exact not_covers_coarser hb (by decide) (by omega) hpower

end Binary

end Lisp
