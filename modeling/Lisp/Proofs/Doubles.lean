/-
# Doubles and their bits

A double is a pattern of 64 bits: a sign, an exponent of 11 bits and a mantissa of 52.  Arithmetic
and printing both unpack the pattern, into a sign, a whole mantissa and an exponent of two, and
arithmetic packs its result again.

For finite doubles the two directions are inverse to each other.  The library has it that packing
undoes unpacking.  This module proves that unpacking yields mantissas and exponents in canonical
form only (`Binary.IsDouble`, `isDouble_of_unpack`), and that it undoes the packing of all that have
this form (`IsDouble.unpack_toFloat`).  The canonical form is what makes the order of two positive
doubles a matter of the exponents first and of the mantissas second (`Binary.Below`).
-/
import Lisp.Decimal.Shortest
import Mathlib

namespace Lisp

open Float.Model (UnpackedFloat Format)
open Float.Model.UnpackedFloat

/-- **A positive finite double**, by its mantissa and its exponent.  The mantissa has 53 bits,
unless the exponent is the least one. -/
structure Binary.IsDouble (b : Binary) : Prop where
  pos : 0 < b.mantissa
  lt : b.mantissa < 2 ^ 53
  least : -1074 ≤ b.exponent
  greatest : b.exponent ≤ 971
  normal : 2 ^ 52 ≤ b.mantissa ∨ b.exponent = -1074

/-! ## 1. Patterns of finite doubles -/

theorem toNat_one_append (v : BitVec 52) : (1#1 ++ v).toNat = 2 ^ 52 + v.toNat := by
  rw [BitVec.toNat_append, ← Nat.shiftLeft_add_eq_or_of_lt v.isLt]
  rfl

theorem ofNat_ne_of_toNat {w n : Nat} {v : BitVec w} (h : n % 2 ^ w ≠ v.toNat) :
    BitVec.ofNat w n ≠ v := by
  rintro rfl
  exact h (BitVec.toNat_ofNat n w).symm

variable {s : Sign} {m : Nat} {e : Int} {hm : 0 < m}

theorem pack_normal (h : 2 ^ 52 ≤ m) (h' : m < 2 ^ 53) (he : -1074 ≤ e) (he' : e ≤ 971) :
    pack .binary64 (.finite s m e hm) =
      packComponents .binary64 s (BitVec.ofNat 11 (e + 1075).toNat) (BitVec.ofNat 52 m) := by
  have hlog : m.log2 = 52 := (Nat.log2_eq_iff (Nat.pos_iff_ne_zero.mp hm)).mpr ⟨h, h'⟩
  have hbias : e + Format.binary64.exponentBias + Format.binary64.mantissaBitsWithoutImplicit =
      e + 1075 := by
    change e + 1023 + 52 = e + 1075
    omega
  have hsmall : ¬ 2 ^ Format.binary64.exponentBits ≤ (e + 1075).toNat + 1 := by
    change ¬ 2 ^ 11 ≤ (e + 1075).toNat + 1
    omega
  have hbits : m.log2 + 1 = Format.binary64.mantissaBits := by
    rw [hlog]
    rfl
  simp only [pack, hbias, if_neg hsmall, if_pos hbits]

theorem pack_subnormal (h : m < 2 ^ 52) :
    pack .binary64 (.finite s m (-1074) hm) =
      packComponents .binary64 s 0#11 (BitVec.ofNat 52 m) := by
  have hlog : m.log2 < 52 := (Nat.log2_lt (Nat.pos_iff_ne_zero.mp hm)).mpr h
  have hsmall : ¬ 2 ^ Format.binary64.exponentBits ≤
      ((-1074 : Int) + Format.binary64.exponentBias +
        Format.binary64.mantissaBitsWithoutImplicit).toNat + 1 := by decide
  have hbits : ¬ m.log2 + 1 = Format.binary64.mantissaBits := by
    change ¬ m.log2 + 1 = 53
    omega
  simp only [pack, if_neg hsmall, if_neg hbits]

theorem unpack_pack_bits (h : Binary.IsDouble ⟨m, e⟩) :
    unpack .binary64 (pack .binary64 (.finite s m e hm)) = .finite s m e hm := by
  obtain ⟨-, hlt, hleast, hgreatest, hnormal⟩ := h
  dsimp only at hlt hleast hgreatest hnormal
  by_cases hsize : 2 ^ 52 ≤ m
  · rw [pack_normal hsize hlt hleast hgreatest]
    have hexponent : (BitVec.ofNat 11 (e + 1075).toNat).toNat = (e + 1075).toNat := by
      rw [BitVec.toNat_ofNat, Nat.mod_eq_of_lt (by omega)]
    have hzero : BitVec.ofNat 11 (e + 1075).toNat ≠ 0#11 :=
      ofNat_ne_of_toNat (by change _ ≠ 0; omega)
    have hlast : BitVec.ofNat 11 (e + 1075).toNat ≠ -1#11 :=
      ofNat_ne_of_toNat (by change _ ≠ 2047; omega)
    have hmantissa : (1#1 ++ BitVec.ofNat 52 m).toNat = m := by
      rw [toNat_one_append, BitVec.toNat_ofNat]
      omega
    unfold unpack
    simp only [unpackMantissa_packComponents, unpackExponent_packComponents,
      unpackSign_packComponents, Sign.ofBitVec_toBitVec, hzero, hlast, if_false, hmantissa,
      hexponent]
    congr 1
    change ((e + 1075).toNat : Int) - (1023 + 52) = e
    omega
  · obtain rfl : e = -1074 := hnormal.resolve_left hsize
    rw [pack_subnormal (by omega)]
    have hmantissa : (BitVec.ofNat 52 m).toNat = m := by
      rw [BitVec.toNat_ofNat, Nat.mod_eq_of_lt (by omega)]
    have hzero : BitVec.ofNat 52 m ≠ 0#52 := ofNat_ne_of_toNat (by change _ ≠ 0; omega)
    unfold unpack
    simp only [unpackMantissa_packComponents, unpackExponent_packComponents,
      unpackSign_packComponents, Sign.ofBitVec_toBitVec, hzero, hmantissa]
    rw [if_neg (by decide : (0#11 : BitVec 11) ≠ -1#11)]
    rfl

/-! ## 2. Finite doubles -/

/-- **What a double unpacks to is canonical**: the exponent bits of the pattern are all zero, or the
mantissa has one bit more than the pattern. -/
theorem isDouble_of_unpack {x : Float.Model} (h : x.unpack = .finite s m e hm) :
    Binary.IsDouble ⟨m, e⟩ := by
  have hmantissa : (@unpackMantissa .binary64 x.toBits.toBitVec).toNat < 2 ^ 52 := BitVec.isLt _
  have hexponent : (@unpackExponent .binary64 x.toBits.toBitVec).toNat < 2 ^ 11 := BitVec.isLt _
  unfold Float.Model.unpack unpack at h
  dsimp only at h
  split at h
  · split at h <;> cases h
  · next hlast =>
    split at h
    · next hzero =>
      split at h
      · cases h
      · cases h
        rw [hzero]
        change Binary.IsDouble ⟨_, -1074⟩
        constructor <;> dsimp only <;> omega
    · next hzero =>
      cases h
      rw [toNat_one_append]
      have hzero : ¬ _ = 0 := fun h => hzero (BitVec.eq_of_toNat_eq h)
      have hlast : ¬ _ = 2047 := fun h => hlast (BitVec.eq_of_toNat_eq h)
      change Binary.IsDouble ⟨_, _ - 1075⟩
      constructor <;> dsimp only <;> omega

/-- **A double is what it unpacks to**, packed again. -/
theorem eq_ofModel_pack (x : Float) : x = .ofModel (.pack x.toModel.unpack) :=
  x.ofBits_toBits.symm

namespace Binary

variable {b b' : Binary}

/-- **The double of this sign, mantissa and exponent.** -/
def IsDouble.toFloat (h : b.IsDouble) (s : Sign) : Float :=
  .ofModel (.pack (.finite s b.mantissa b.exponent h.pos))

theorem IsDouble.unpack_toFloat (h : b.IsDouble) :
    (h.toFloat s).toModel.unpack = .finite s b.mantissa b.exponent h.pos :=
  unpack_pack_bits h

theorem IsDouble.eq_toFloat {x : Float} (hx : x.toModel.unpack = .finite s m e hm)
    (h : IsDouble ⟨m, e⟩) : x = h.toFloat s := by
  rw [eq_ofModel_pack x, hx]
  rfl

theorem IsDouble.neg_toFloat (h : b.IsDouble) : -h.toFloat s = h.toFloat (-s) := by
  change Float.ofModel (.pack (h.toFloat s).toModel.unpack.neg) = _
  rw [h.unpack_toFloat]
  rfl

end Binary

/-- **The absolute value** drops the sign. -/
theorem unpack_abs (x : Float) : x.abs.toModel.unpack = x.toModel.unpack.abs := by
  change (Float.Model.pack x.toModel.unpack.abs).unpack = _
  cases hx : x.toModel.unpack with
  | notANumber => rfl
  | infinity s => cases s <;> rfl
  | zero s => cases s <;> rfl
  | finite s m e hm => exact (isDouble_of_unpack hx).unpack_toFloat

/-! ## 3. Order -/

theorem float_lt_iff {x y : Float} :
    x < y ↔ x.toModel.unpack.compare y.toModel.unpack = some .lt := by
  change decide (_ = true) = true ↔ _
  rw [decide_eq_true_iff]
  exact beq_iff_eq (α := Option Ordering)

theorem float_le_iff {x y : Float} :
    x ≤ y ↔ (x.toModel.unpack.compare y.toModel.unpack).any (·.isLE) = true := by
  change decide (_ = true) = true ↔ _
  rw [decide_eq_true_iff]
  rfl

namespace Binary

variable {b b' : Binary}

/-- **The order of doubles**: by their exponents, and by their mantissas if the exponents agree. -/
def Below (b b' : Binary) : Prop :=
  b.exponent < b'.exponent ∨ (b.exponent = b'.exponent ∧ b.mantissa < b'.mantissa)

theorem below_trichotomy (b b' : Binary) : b.Below b' ∨ b = b' ∨ b'.Below b := by
  obtain ⟨m, e⟩ := b
  obtain ⟨m', e'⟩ := b'
  simp only [Below, Binary.mk.injEq]
  omega

theorem IsDouble.compare_toFloat (h : b.IsDouble) (h' : b'.IsDouble) :
    (h.toFloat .positive).toModel.unpack.compare (h'.toFloat .positive).toModel.unpack =
      some ((compare b.exponent b'.exponent).then (compare b.mantissa b'.mantissa)) := by
  rw [h.unpack_toFloat, h'.unpack_toFloat]
  rfl

theorem IsDouble.toFloat_lt_iff (h : b.IsDouble) (h' : b'.IsDouble) :
    h.toFloat .positive < h'.toFloat .positive ↔ b.Below b' := by
  rw [float_lt_iff, h.compare_toFloat h', Option.some.injEq, Ordering.then_eq_lt,
    Int.compare_eq_lt, Int.compare_eq_eq, Nat.compare_eq_lt]
  rfl

theorem IsDouble.toFloat_le_iff (h : b.IsDouble) (h' : b'.IsDouble) :
    h.toFloat .positive ≤ h'.toFloat .positive ↔ ¬ b'.Below b := by
  rw [float_le_iff, h.compare_toFloat h', Option.any_some, Ordering.isLE_then_iff_or,
    Int.compare_eq_lt, Int.compare_eq_eq, Nat.isLE_compare, Below]
  omega

end Binary

end Lisp
