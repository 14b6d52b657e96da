/-
# Which floats read back

The printer writes a float with an exponent when its first digit stands below the fourth place
after the point or above the sixteenth before it, and the reader knows no exponents.  So a float
reads back as itself exactly when it is zero or its magnitude lies from `1e-4` up to `1e16`.  All
the others, the infinities and the NaN are read as symbols (`readAll_text_float`).

The text of a float is one token in any case, because it has none of the characters that end one.
Positional notation is a numeral, and what the reader makes of it is the double that covers the
printed decimal, which is the one that was printed (`Decimal.ofChars_positional`).  That the
notation is chosen by the decimal, and not by the double, makes no difference: the decimals are in
the order of the doubles, so it is enough to know how the doubles nearest to `10^-4` and `10^16` are
printed (`Binary.IsDouble.place_iff`).
-/
import Lisp.Proofs.Shortest
import Lisp.Proofs.Printing

namespace Lisp

open Float.Model (UnpackedFloat)

/-! ## 1. Numerals with a point -/

namespace Numeral

theorem digitsValue_append_zeros (digits : List Char) (k : Nat) :
    digitsValue (digits ++ List.replicate k '0') = digitsValue digits * 10 ^ k := by
  change Nat.ofDigitChars 10 _ 0 = Nat.ofDigitChars 10 _ 0 * _
  rw [Nat.ofDigitChars_append, Nat.ofDigitChars_replicate_zero, Nat.mul_comm]

theorem digitsValue_zeros_append (k : Nat) (digits : List Char) :
    digitsValue (List.replicate k '0' ++ digits) = digitsValue digits := by
  change Nat.ofDigitChars 10 _ 0 = Nat.ofDigitChars 10 _ 0
  rw [Nat.ofDigitChars_append, Nat.ofDigitChars_replicate_zero, Nat.mul_zero]

/-- **Digits around a point**, with or without a sign, are a numeral. -/
theorem ofChars?_point {text whole fraction : List Char} {negative : Bool}
    (hsign : takeSign text = (negative, whole ++ '.' :: fraction))
    (hwhole : ∀ c ∈ whole, c.isDigit) (hfraction : ∀ c ∈ fraction, c.isDigit)
    (hne : fraction ≠ []) : ofChars? text = some ⟨negative, whole, some fraction⟩ := by
  have hplain : ∀ c ∈ whole, (decide (c ≠ '.')) = true := fun c hc => by
    simpa using (digit_plain (hwhole c hc)).2.1
  have hsplit : splitPoint (whole ++ '.' :: fraction) = (whole, some fraction) := by
    rw [splitPoint, List.dropWhile_append_of_pos hplain, List.takeWhile_append_of_pos hplain]
    simp
  simp [ofChars?, hsign, hsplit, wellFormed, hne, List.all_eq_true.mpr hwhole,
    List.all_eq_true.mpr hfraction]

theorem mem_takeSign {text : List Char} {c : Char} (hc : c ∈ text) (hminus : c ≠ '-')
    (hplus : c ≠ '+') : c ∈ (takeSign text).2 := by
  unfold takeSign
  split <;> simp_all

/-- **The parts around the first point** spell the text. -/
theorem splitPoint_spells (text : List Char) :
    text = (splitPoint text).1 ++ (splitPoint text).2.elim [] ('.' :: ·) := by
  unfold splitPoint
  split
  · simp
  · next c fraction hdrop =>
    have hc : c = '.' := by
      have := List.head?_dropWhile_not (· ≠ '.') text
      rw [hdrop] at this
      simpa using this
    have hsplit := List.takeWhile_append_dropWhile (p := (decide <| · ≠ '.')) (l := text)
    rw [hdrop, hc] at hsplit
    exact hsplit.symm

theorem mem_splitPoint {text : List Char} {c : Char} (hc : c ∈ text) (hpoint : c ≠ '.') :
    c ∈ (splitPoint text).1 ∨ ∃ fraction, (splitPoint text).2 = some fraction ∧ c ∈ fraction := by
  rw [splitPoint_spells text, List.mem_append] at hc
  rcases hc with hc | hc
  · exact .inl hc
  · cases hfraction : (splitPoint text).2 with
    | none =>
      rw [hfraction] at hc
      cases hc
    | some fraction =>
      rw [hfraction, Option.elim_some, List.mem_cons] at hc
      exact .inr ⟨fraction, rfl, hc.resolve_left hpoint⟩

theorem isDigit_of_wellFormed {n : Numeral} (h : n.wellFormed = true) {c : Char}
    (hc : c ∈ n.whole ∨ ∃ fraction, n.fraction = some fraction ∧ c ∈ fraction) : c.isDigit := by
  obtain ⟨hwhole, hfraction⟩ := Bool.and_eq_true_iff.mp h
  rcases hc with hc | ⟨fraction, hsome, hc⟩
  · exact List.all_eq_true.mp hwhole c hc
  · rw [hsome] at hfraction
    exact List.all_eq_true.mp (Bool.and_eq_true_iff.mp hfraction).2 c hc

/-- **No numeral has a letter** in it. -/
theorem ofChars?_eq_none {text : List Char} {c : Char} (hc : c ∈ text)
    (hdigit : c.isDigit = false) (hpoint : c ≠ '.') (hminus : c ≠ '-') (hplus : c ≠ '+') :
    ofChars? text = none := by
  refine if_neg fun hwell => ?_
  have := isDigit_of_wellFormed hwell (mem_splitPoint (mem_takeSign hc hminus hplus) hpoint)
  rw [hdigit] at this
  cases this

theorem nearestFloat_eq {b : Binary} (hb : b.IsDouble) {n places : Nat} (hn : 0 < n)
    (hplaces : 0 < places) (h : b.Covers ((n : ℚ) / 10 ^ places)) (s : UnpackedFloat.Sign) :
    nearestFloat (s == .negative) n places = hb.toFloat s := by
  rw [nearestFloat, h.ofScientific_eq hb hn hplaces]
  cases s with
  | positive => rfl
  | negative => exact hb.neg_toFloat

end Numeral

/-! ## 2. Positional notation -/

namespace Decimal

/-- **Digits around a point that write the decimal.** -/
structure PointShape (d : Decimal) (whole fraction : List Char) : Prop where
  wholeDigits : ∀ c ∈ whole, c.isDigit
  fractionDigits : ∀ c ∈ fraction, c.isDigit
  wholeNonempty : whole ≠ []
  fractionNonempty : fraction ≠ []
  value : (Numeral.digitsValue (whole ++ fraction) : ℚ) / 10 ^ fraction.length = d.value

theorem digitsValue_digits (d : Decimal) : Numeral.digitsValue d.digits = d.coefficient :=
  Numeral.digitsValue_toDigits d.coefficient

theorem isDigit_of_mem_digits {d : Decimal} {c : Char} (hc : c ∈ d.digits) : c.isDigit :=
  isDigit_of_mem_toDigits hc

theorem isDigit_of_mem_zeros {k : Nat} {c : Char} (hc : c ∈ List.replicate k '0') : c.isDigit := by
  rw [List.eq_of_mem_replicate hc]
  rfl

theorem isDigit_of_mem_append {ds es : List Char} (hds : ∀ c ∈ ds, c.isDigit)
    (hes : ∀ c ∈ es, c.isDigit) : ∀ c ∈ ds ++ es, c.isDigit :=
  fun c hc => (List.mem_append.mp hc).elim (hds c) (hes c)

theorem div_pow_eq_value (d : Decimal) {places : Nat} (h : d.exponent = -(places : Int)) :
    (d.coefficient : ℚ) / 10 ^ places = d.value := by
  rw [Decimal.value, h, zpow_neg, zpow_natCast, div_eq_mul_inv]

/-- **Positional notation** has digits around its point, wherever that stands. -/
theorem positional_shape (d : Decimal) :
    ∃ whole fraction, d.positional = whole ++ '.' :: fraction ∧
      d.PointShape whole fraction := by
  have hdigits : ∀ c ∈ d.digits, c.isDigit := fun c => isDigit_of_mem_digits
  have hpos := d.length_digits_pos
  have hpoint : d.pointIndex = d.digits.length + d.exponent := rfl
  unfold positional
  dsimp only
  split
  · -- zeros between the point and the first digit
    next hzero =>
    refine ⟨['0'], List.replicate (-d.pointIndex).toNat '0' ++ d.digits, rfl,
      List.forall_mem_singleton.mpr rfl,
      isDigit_of_mem_append (fun c => isDigit_of_mem_zeros) hdigits, by simp,
      by simp [List.ne_nil_of_length_pos hpos], ?_⟩
    have hvalue : Numeral.digitsValue
        (['0'] ++ (List.replicate (-d.pointIndex).toNat '0' ++ d.digits)) = d.coefficient := by
      rw [← List.append_assoc]
      exact (Numeral.digitsValue_zeros_append ((-d.pointIndex).toNat + 1) d.digits).trans
        d.digitsValue_digits
    rw [hvalue]
    refine d.div_pow_eq_value ?_
    rw [List.length_append, List.length_replicate]
    omega
  · split
    · -- the point stands between two digits
      next hzero hinside =>
      refine ⟨d.digits.take d.pointIndex.toNat, d.digits.drop d.pointIndex.toNat, rfl,
        fun c hc => hdigits c (List.mem_of_mem_take hc),
        fun c hc => hdigits c (List.mem_of_mem_drop hc), ?_, ?_, ?_⟩
      · rw [← List.length_pos_iff, List.length_take]
        omega
      · rw [← List.length_pos_iff, List.length_drop]
        omega
      · rw [List.take_append_drop, d.digitsValue_digits]
        refine d.div_pow_eq_value ?_
        rw [List.length_drop]
        omega
    · -- zeros between the last digit and the point
      next hzero hafter =>
      refine ⟨d.digits ++ List.replicate (d.pointIndex - d.digits.length).toNat '0', ['0'],
        by simp, isDigit_of_mem_append hdigits (fun c => isDigit_of_mem_zeros),
        List.forall_mem_singleton.mpr rfl, by simp [List.ne_nil_of_length_pos hpos], by simp, ?_⟩
      have hvalue := Numeral.digitsValue_append_zeros d.digits
        ((d.pointIndex - d.digits.length).toNat + 1)
      rw [List.replicate_succ', ← List.append_assoc, d.digitsValue_digits] at hvalue
      have hexponent : d.exponent = ((d.pointIndex - d.digits.length).toNat : Int) := by omega
      rw [hvalue, Decimal.value, hexponent, zpow_natCast]
      push_cast
      rw [pow_succ, ← mul_assoc, List.length_singleton, pow_one]
      exact mul_div_cancel_right₀ _ (by norm_num)

end Decimal

/-! ## 3. The characters of a float -/

/-- **The characters of numbers**, of their exponents and of what is no number. -/
def isFloatChar (c : Char) : Bool :=
  c.isDigit || ['-', '.', 'e', 'i', 'n', 'f', 'N', 'a'].contains c

variable {text : List Char} {s : UnpackedFloat.Sign}

theorem isFloatChar_of_isDigit {c : Char} (hc : c.isDigit) : isFloatChar c := by
  simp [isFloatChar, hc]

theorem isFloatChar_plain {c : Char} (hc : isFloatChar c) :
    isDelimiter c = false ∧ c ≠ '#' ∧ c ≠ '\'' ∧ c ≠ '"' ∧ c ≠ '`' := by
  rcases Bool.or_eq_true_iff.mp hc with hdigit | hother
  · obtain ⟨hdelimiter, -, -, -, hhash, hquotes⟩ := digit_plain hdigit
    exact ⟨hdelimiter, hhash, hquotes⟩
  · simp only [List.contains_eq_mem, List.mem_cons, List.not_mem_nil, or_false,
      decide_eq_true_eq] at hother
    rcases hother with rfl | rfl | rfl | rfl | rfl | rfl | rfl | rfl <;> decide

theorem atomText_of_isFloatChar (hplain : ∀ c ∈ text, isFloatChar c) {c : Char} (hc : c ∈ text)
    (hpoint : c ≠ '.') : AtomText text where
  nonempty := List.ne_nil_of_mem hc
  undelimited d hd := (isFloatChar_plain (hplain d hd)).1
  unquoted d hd := (isFloatChar_plain (hplain d (List.mem_of_head? hd))).2.2
  undotted := by
    rintro rfl
    exact hpoint (List.mem_singleton.mp hc)

theorem ofChars_of_isFloatChar (hplain : ∀ c ∈ text, isFloatChar c) :
    Atom.ofChars text = match Numeral.ofChars? text with
      | some numeral => numeral.toAtom
      | none => .symbol (String.ofList text) := by
  have hboolean : ∀ c, text ≠ ['#', c] := by
    rintro c rfl
    exact (isFloatChar_plain (hplain '#' List.mem_cons_self)).2.1 rfl
  exact (if_neg (hboolean 't')).trans (if_neg (hboolean 'f'))

theorem isFloatChar_of_mem_sign_append (htext : ∀ c ∈ text, isFloatChar c) :
    ∀ c ∈ signChars s ++ text, isFloatChar c := by
  intro c hc
  rcases List.mem_append.mp hc with hc | hc
  · cases s with
    | positive => nomatch hc
    | negative =>
      rw [List.mem_singleton.mp hc]
      rfl
  · exact htext c hc

namespace Decimal

variable {d : Decimal}

theorem isFloatChar_of_mem_positional : ∀ c ∈ d.positional, isFloatChar c := by
  obtain ⟨whole, fraction, htext, hshape⟩ := d.positional_shape
  rw [htext]
  intro c hc
  rcases List.mem_append.mp hc with hc | hc
  · exact isFloatChar_of_isDigit (hshape.wholeDigits c hc)
  · rcases List.mem_cons.mp hc with rfl | hc
    · rfl
    · exact isFloatChar_of_isDigit (hshape.fractionDigits c hc)

theorem isFloatChar_of_mem_toString {n : Int} : ∀ c ∈ (toString n).toList, isFloatChar c := by
  intro c hc
  cases n with
  | ofNat n =>
    rw [toList_toString_ofNat] at hc
    exact isFloatChar_of_isDigit (isDigit_of_mem_toDigits hc)
  | negSucc n =>
    rw [toList_toString_negSucc] at hc
    rcases List.mem_cons.mp hc with rfl | hc
    · rfl
    · exact isFloatChar_of_isDigit (isDigit_of_mem_toDigits hc)

theorem isFloatChar_of_mem_scientific : ∀ c ∈ d.scientific, isFloatChar c := by
  have hdigits : ∀ c ∈ d.digits, isFloatChar c :=
    fun c hc => isFloatChar_of_isDigit (isDigit_of_mem_digits hc)
  have hexponent : ∀ c ∈ 'e' :: (toString (d.pointIndex - 1)).toList, isFloatChar c :=
    List.forall_mem_cons.mpr ⟨rfl, isFloatChar_of_mem_toString⟩
  unfold scientific
  dsimp only
  split
  · exact hexponent
  · next first hds =>
    rw [hds] at hdigits
    exact List.forall_mem_cons.mpr ⟨hdigits first List.mem_cons_self, hexponent⟩
  · next first rest _ hds =>
    rw [hds] at hdigits
    obtain ⟨hfirst, hrest⟩ := List.forall_mem_cons.mp hdigits
    exact List.forall_mem_cons.mpr ⟨hfirst, List.forall_mem_append.mpr
      ⟨List.forall_mem_cons.mpr ⟨rfl, hrest⟩, hexponent⟩⟩

theorem mem_scientific (d : Decimal) : 'e' ∈ d.scientific := by
  unfold scientific
  dsimp only
  split <;> simp

end Decimal

/-- **The text of a float has such characters only**, and it is more than a point. -/
theorem isFloatChar_of_mem_floatChars (x : Float) :
    (∀ c ∈ floatChars x, isFloatChar c) ∧ ∃ c ∈ floatChars x, c ≠ '.' := by
  unfold floatChars
  split
  · exact ⟨List.all_eq_true.mp rfl, 'N', by decide, by decide⟩
  · exact ⟨isFloatChar_of_mem_sign_append (List.all_eq_true.mp rfl), 'i',
      List.mem_append_right _ (by decide), by decide⟩
  · exact ⟨isFloatChar_of_mem_sign_append (List.all_eq_true.mp rfl), '0',
      List.mem_append_right _ (by decide), by decide⟩
  · dsimp only [Decimal.text]
    split
    · obtain ⟨whole, fraction, htext, hshape⟩ := (Binary.shortest _).positional_shape
      refine ⟨isFloatChar_of_mem_sign_append Decimal.isFloatChar_of_mem_positional, ?_⟩
      obtain ⟨c, others, rfl⟩ := List.exists_cons_of_ne_nil hshape.wholeNonempty
      refine ⟨c, List.mem_append_right _ (by rw [htext]; exact List.mem_cons_self), ?_⟩
      exact (digit_plain (hshape.wholeDigits c List.mem_cons_self)).2.1
    · exact ⟨isFloatChar_of_mem_sign_append Decimal.isFloatChar_of_mem_scientific, 'e',
        List.mem_append_right _ (Decimal.mem_scientific _), by decide⟩

theorem atomText_floatChars (x : Float) : AtomText (floatChars x) := by
  obtain ⟨hplain, c, hc, hpoint⟩ := isFloatChar_of_mem_floatChars x
  exact atomText_of_isFloatChar hplain hc hpoint

/-! ## 4. The atom of a notation -/

/-- **A text with a letter is a symbol.** -/
theorem ofChars_letter (hplain : ∀ c ∈ text, isFloatChar c) {c : Char} (hc : c ∈ text)
    (hletter : c ∈ ['e', 'i', 'N']) : Atom.ofChars text = .symbol (String.ofList text) := by
  have hnone : Numeral.ofChars? text = none := by
    simp only [List.mem_cons, List.not_mem_nil, or_false] at hletter
    rcases hletter with rfl | rfl | rfl <;>
      exact Numeral.ofChars?_eq_none hc (by decide) (by decide) (by decide) (by decide)
  rw [ofChars_of_isFloatChar hplain, hnone]

namespace Decimal

variable {d : Decimal} {b : Binary}

theorem ofChars_scientific (d : Decimal) (s : UnpackedFloat.Sign) :
    Atom.ofChars (signChars s ++ d.scientific) =
      .symbol (String.ofList (signChars s ++ d.scientific)) :=
  ofChars_letter (isFloatChar_of_mem_sign_append isFloatChar_of_mem_scientific)
    (List.mem_append_right _ d.mem_scientific) (by decide)

/-- **Positional notation is read as the double that covers the decimal.** -/
theorem ofChars_positional (hb : b.IsDouble) (h : b.Covers d.value) (s : UnpackedFloat.Sign) :
    Atom.ofChars (signChars s ++ d.positional) = .float (hb.toFloat s) := by
  obtain ⟨whole, fraction, htext, hshape⟩ := d.positional_shape
  have hvalue := hshape.value
  have hn : 0 < Numeral.digitsValue (whole ++ fraction) := by
    refine Nat.pos_of_ne_zero fun hzero => (h.pos hb).ne' ?_
    rw [← hvalue, hzero, Nat.cast_zero, zero_div]
  have hsign : Numeral.takeSign (signChars s ++ d.positional) =
      (s == .negative, whole ++ '.' :: fraction) := by
    rw [htext]
    cases s with
    | negative => rfl
    | positive =>
      obtain ⟨c, others, rfl⟩ := List.exists_cons_of_ne_nil hshape.wholeNonempty
      exact Numeral.takeSign_digits (hshape.wholeDigits c List.mem_cons_self) _
  have hnumeral := Numeral.ofChars?_point hsign hshape.wholeDigits hshape.fractionDigits
    hshape.fractionNonempty
  rw [← hvalue] at h
  rw [ofChars_of_isFloatChar (isFloatChar_of_mem_sign_append isFloatChar_of_mem_positional),
    hnumeral]
  exact congrArg Atom.float (Numeral.nearestFloat_eq hb hn
    (List.length_pos_iff.mpr hshape.fractionNonempty) h s)

end Decimal

/-! ## 5. The notation of a double -/

namespace Binary

variable {b : Binary}

/-- **The double nearest to `10^-4`.** -/
def tenThousandth : Binary := ⟨7378697629483821, -66⟩

/-- **The double `10^16`.** -/
def tenQuadrillion : Binary := ⟨5000000000000000, 1⟩

theorem isDouble_tenThousandth : tenThousandth.IsDouble := by
  constructor <;> decide

theorem isDouble_tenQuadrillion : tenQuadrillion.IsDouble := by
  constructor <;> decide

theorem value_shortest_tenThousandth : tenThousandth.shortest.value = 10 ^ (-4 : Int) := by
  have : tenThousandth.shortest = ⟨1, -4⟩ := by decide +kernel
  rw [this, Decimal.value, Nat.cast_one, one_mul]

theorem value_shortest_tenQuadrillion : tenQuadrillion.shortest.value = 10 ^ (16 : Int) := by
  have : tenQuadrillion.shortest = ⟨1, 16⟩ := by decide +kernel
  rw [this, Decimal.value, Nat.cast_one, one_mul]

theorem toFloat_tenThousandth : isDouble_tenThousandth.toFloat .positive = 1e-4 :=
  (IsDouble.eq_toFloat rfl isDouble_tenThousandth).symm

theorem toFloat_tenQuadrillion : isDouble_tenQuadrillion.toFloat .positive = 1e16 :=
  (IsDouble.eq_toFloat rfl isDouble_tenQuadrillion).symm

/-- **Positional notation is for the doubles from `1e-4` up to `1e16`.** -/
theorem IsDouble.place_iff (hb : b.IsDouble) :
    (Decimal.positionalRange.1 ≤ b.shortest.pointIndex - 1 ∧
        b.shortest.pointIndex - 1 ≤ Decimal.positionalRange.2) ↔
      1e-4 ≤ hb.toFloat .positive ∧ hb.toFloat .positive < 1e16 := by
  have hpos := hb.covers_shortest.pos hb
  have hlow := Decimal.le_place_iff hpos (-4)
  have hhigh := Decimal.le_place_iff hpos 16
  rw [← value_shortest_tenThousandth, shortest_value_le isDouble_tenThousandth hb] at hlow
  rw [← value_shortest_tenQuadrillion, shortest_value_le isDouble_tenQuadrillion hb] at hhigh
  rw [← toFloat_tenThousandth, ← toFloat_tenQuadrillion, toFloat_le_iff, toFloat_lt_iff, ← hlow,
    ← not_iff_comm.mp hhigh.symm]
  change -4 ≤ _ ∧ _ ≤ 15 ↔ _
  omega

end Binary

theorem float_beq_zero_iff {x : Float} : (x == 0) = true ↔ ∃ s, x.toModel.unpack = .zero s := by
  change x.toModel.unpack.beq (.zero .positive) = true ↔ _
  rw [UnpackedFloat.beq_iff_ne_notANumber_and_eq]
  constructor
  · rintro ⟨-, -, h | ⟨h, -⟩ | ⟨h, -⟩⟩
    all_goals exact ⟨_, h⟩
  · rintro ⟨s, h⟩
    cases s <;> simp [h]

/-! ## 6. Reading the text of a float -/

/-- **The text of a float denotes it**, or a symbol if the float is not written positionally. -/
theorem ofChars_floatChars (x : Float) : Atom.ofChars (floatChars x) =
    if x == 0 ∨ (1e-4 ≤ x.abs ∧ x.abs < 1e16) then .float x
    else .symbol (String.ofList (floatChars x)) := by
  have habs := unpack_abs x
  have hbits : UnpackedFloat.unpack .binary64 x.toBits.toBitVec = x.toModel.unpack := rfl
  cases hx : x.toModel.unpack with
  | notANumber =>
    rw [hx] at habs
    have hsize : ¬ ((x == 0) = true ∨ 1e-4 ≤ x.abs ∧ x.abs < 1e16) := by
      rw [float_beq_zero_iff, float_le_iff, habs, hx]
      rintro (⟨_, ⟨⟩⟩ | ⟨hle, -⟩)
      cases hle
    rw [if_neg hsize, floatChars, hbits, hx]
    rfl
  | infinity s =>
    rw [hx] at habs
    have hsize : ¬ ((x == 0) = true ∨ 1e-4 ≤ x.abs ∧ x.abs < 1e16) := by
      rw [float_beq_zero_iff, float_lt_iff, habs, hx]
      rintro (⟨_, ⟨⟩⟩ | ⟨-, hlt⟩)
      cases hlt
    rw [if_neg hsize, floatChars, hbits, hx]
    cases s <;> rfl
  | zero s =>
    rw [if_pos (.inl (float_beq_zero_iff.mpr ⟨s, hx⟩)), floatChars, hbits, eq_ofModel_pack x, hx]
    cases s <;> decide +kernel
  | finite s m e hm =>
    rw [hx] at habs
    have hb := isDouble_of_unpack hx
    have hzero : ¬ (x == 0) = true := by
      simp [float_beq_zero_iff, hx]
    have hplaces := hb.place_iff
    rw [← Binary.IsDouble.eq_toFloat habs hb] at hplaces
    rw [floatChars, hbits, hx]
    dsimp only [Decimal.text]
    split
    · next hplace =>
      rw [if_pos (.inr (hplaces.mp hplace)), Decimal.ofChars_positional hb hb.covers_shortest,
        ← Binary.IsDouble.eq_toFloat hx hb]
    · next hplace =>
      rw [if_neg fun h => hplace (hplaces.mpr (h.resolve_left hzero)), Decimal.ofChars_scientific]

/-- **The text of a float is read as one form.**  The form is the float, to the bit, if the float is
zero or its magnitude is at least `1e-4` and below `1e16`.  Otherwise it is a symbol. -/
theorem readAll_text_float (file id : Nat) (x : Float) :
    ∃ form, readAll file (Value.atom id (.float x)).text = .ok [form] ∧
      form.bare = .atom (if x == 0 ∨ (1e-4 ≤ x.abs ∧ x.abs < 1e16) then .float x
        else .symbol (Value.atom id (.float x)).text) none := by
  have htext : (Value.atom id (.float x)).text = String.ofList (floatChars x) :=
    Value.text_atom id (.float x)
  have hread := ((atomText_floatChars x).writes (ofChars_floatChars x)).readAll_eq file
  rw [htext]
  simpa using hread

/-- **The reader makes floats that do not read back**: an integer too large for 64 bits is read as a
float, which is printed with an exponent, which is read as a symbol. -/
theorem float_reads_as_symbol :
    ¬ ∀ (text : List Char) (x : Float), Atom.ofChars text = .float x →
      ∃ form, readAll 0 (Value.atom 0 (.float x)).text = .ok [form] ∧
        ∃ y, form.bare = .atom (.float y) none := by
  intro h
  have hread : Atom.ofChars "10000000000000000000".toList = .float 1e19 := by decide +kernel
  have htext : (Value.atom 0 (.float 1e19)).text = "1e19" := by decide +kernel
  have hword : AtomText "1e19".toList := .of_all rfl (by decide) (by decide)
  have hsymbol : Atom.ofChars "1e19".toList = .symbol "1e19" := by decide
  obtain ⟨form, hform, y, hfloat⟩ := h _ _ hread
  obtain ⟨form', hform', hbare⟩ := (hword.writes hsymbol).readAll_eq 0
  rw [htext] at hform
  obtain rfl : form = form' := by simpa using hform.symm.trans hform'
  rw [hbare] at hfloat
  cases hfloat

end Lisp
