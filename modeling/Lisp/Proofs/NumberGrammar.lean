/-
# The number grammar

The reader takes a sign off, splits at the first point and looks for what is no digit.  What it
accepts by this is the grammar

    integer   [+-]?[0-9]+
    decimal   [+-]?[0-9]*[.][0-9]+

which is written down here as two regular expressions, and what it makes of the digits of an
integer is their sum weighted by the powers of ten (`writtenInteger`).  Neither says anything of how
the reader goes about it.

The two meet in `Numeral.ofChars?`: it finds a numeral without a point just in the texts of the
first form (`mem_integerForm_iff`) and one with a point just in those of the second
(`mem_decimalForm_iff`).  A word of a form is a sign and digits around at most one point, and so
says what `takeSign` and `splitPoint` give; in the other direction the parts they give spell the
text again.  A text of neither form is a symbol, whatever keeps it from being a number: a sign or a
point by itself, a second point, nothing after the point.
-/
import Lisp.Proofs.FloatReading
import Lisp.Proofs.IntegerArithmetic
import Mathlib.Computability.RegularExpressions

namespace Lisp

/-! ## 1. The two forms -/

namespace NumberGrammar

/-- **One of some characters.** -/
def oneOf (cs : List Char) : RegularExpression Char := (cs.map RegularExpression.char).sum

/-- `[0-9]` -/
def digit : RegularExpression Char := oneOf "0123456789".toList

/-- `[+-]?` -/
def sign : RegularExpression Char := 1 + oneOf ['+', '-']

/-- `[0-9]+` -/
def digits : RegularExpression Char := digit * digit.star

/-- `[+-]?[0-9]+` -/
def integerForm : RegularExpression Char := sign * digits

/-- `[+-]?[0-9]*[.][0-9]+` -/
def decimalForm : RegularExpression Char := sign * (digit.star * (oneOf ['.'] * digits))

/-- **The integer that a sign and digits write**: each digit weighted by its power of ten, the last
digit being the ones. -/
def writtenInteger (text : List Char) : Int :=
  let magnitude : Nat := Nat.ofDigits 10
    ((text.filter Char.isDigit).reverse.map fun c => c.toNat - '0'.toNat)
  if text.head? = some '-' then -(magnitude : Int) else magnitude

variable {word text : List Char}

theorem mem_oneOf {cs : List Char} : word ∈ (oneOf cs).matches' ↔ ∃ c ∈ cs, word = [c] := by
  induction cs with
  | nil => simp [oneOf, RegularExpression.matches'_zero]
  | cons c cs ih =>
    rw [oneOf, List.map_cons, List.sum_cons, RegularExpression.matches'_add, Language.mem_add,
      List.exists_mem_cons_iff]
    exact or_congr Iff.rfl ih

theorem mem_digit : word ∈ digit.matches' ↔ ∃ c : Char, c.isDigit ∧ word = [c] := by
  have hchars : ∀ c : Char, c ∈ "0123456789".toList ↔ c.isDigit := by
    intro c
    constructor
    · intro hc
      exact List.all_eq_true.mp (show "0123456789".toList.all Char.isDigit by decide) c hc
    · intro hc
      obtain ⟨hlow, hhigh⟩ : 48 ≤ c.toNat ∧ c.toNat ≤ 57 := by
        simpa [Char.isDigit, UInt32.le_iff_toNat_le] using hc
      rw [← Char.ofNat_toNat c]
      interval_cases c.toNat <;> decide
  simp only [digit, mem_oneOf, hchars]

theorem mem_star_digit : word ∈ digit.star.matches' ↔ ∀ c ∈ word, c.isDigit := by
  rw [RegularExpression.matches'_star, Language.mem_kstar]
  constructor
  · rintro ⟨pieces, rfl, hpieces⟩ c hc
    obtain ⟨piece, hpiece, hc⟩ := List.mem_flatten.mp hc
    obtain ⟨d, hd, rfl⟩ := mem_digit.mp (hpieces piece hpiece)
    rwa [List.mem_singleton.mp hc]
  · intro hword
    refine ⟨word.map ([·]), by simp [← List.flatMap_def], fun piece hpiece => ?_⟩
    obtain ⟨c, hc, rfl⟩ := List.mem_map.mp hpiece
    exact mem_digit.mpr ⟨c, hword c hc, rfl⟩

theorem mem_digits : word ∈ digits.matches' ↔ word ≠ [] ∧ ∀ c ∈ word, c.isDigit := by
  rw [digits, RegularExpression.matches'_mul, Language.mem_mul]
  constructor
  · rintro ⟨first, hfirst, rest, hrest, rfl⟩
    obtain ⟨c, hc, rfl⟩ := mem_digit.mp hfirst
    exact ⟨List.cons_ne_nil c rest, List.forall_mem_cons.mpr ⟨hc, mem_star_digit.mp hrest⟩⟩
  · rintro ⟨hne, hword⟩
    obtain ⟨c, rest, rfl⟩ := List.exists_cons_of_ne_nil hne
    obtain ⟨hc, hrest⟩ := List.forall_mem_cons.mp hword
    exact ⟨[c], mem_digit.mpr ⟨c, hc, rfl⟩, rest, mem_star_digit.mpr hrest, rfl⟩

theorem mem_sign : word ∈ sign.matches' ↔ word = [] ∨ word = ['+'] ∨ word = ['-'] := by
  rw [sign, RegularExpression.matches'_add, Language.mem_add, mem_oneOf]
  simp [Language.mem_one]

theorem mem_integerForm : text ∈ integerForm.matches' ↔
    ∃ s ∈ sign.matches', ∃ whole ≠ [], (∀ c ∈ whole, c.isDigit) ∧ text = s ++ whole := by
  simp only [integerForm, RegularExpression.matches'_mul, Language.mem_mul, mem_digits, and_assoc,
    eq_comm]

theorem mem_decimalForm : text ∈ decimalForm.matches' ↔
    ∃ s ∈ sign.matches', ∃ whole : List Char, (∀ c ∈ whole, c.isDigit) ∧
      ∃ fraction ≠ [], (∀ c ∈ fraction, c.isDigit) ∧ text = s ++ (whole ++ '.' :: fraction) := by
  rw [decimalForm, RegularExpression.matches'_mul, Language.mem_mul]
  simp only [RegularExpression.matches'_mul, Language.mem_mul, mem_star_digit, mem_digits,
    mem_oneOf]
  constructor
  · rintro ⟨s, hs, _, ⟨whole, hwhole, _, ⟨_, ⟨c, hc, rfl⟩, fraction, ⟨hne, hfraction⟩, rfl⟩,
      rfl⟩, rfl⟩
    cases List.mem_singleton.mp hc
    exact ⟨s, hs, whole, hwhole, fraction, hne, hfraction, rfl⟩
  · rintro ⟨s, hs, whole, hwhole, fraction, hne, hfraction, rfl⟩
    exact ⟨s, hs, _, ⟨whole, hwhole, _, ⟨['.'], ⟨'.', List.mem_singleton_self _, rfl⟩, fraction,
      ⟨hne, hfraction⟩, rfl⟩, rfl⟩, rfl⟩

end NumberGrammar

/-! ## 2. What the reader makes of the parts -/

namespace Numeral

open NumberGrammar

variable {text : List Char} {n : Numeral}

/-- **A sign that is written is taken off**, and no digit or point is taken for one. -/
theorem takeSign_append {s rest : List Char} (hs : s ∈ sign.matches')
    (hrest : ∀ c ∈ rest.head?, c.isDigit ∨ c = '.') :
    takeSign (s ++ rest) = (decide (s = ['-']), rest) := by
  rcases mem_sign.mp hs with rfl | rfl | rfl
  · cases rest with
    | nil => rfl
    | cons c rest =>
      rcases hrest c rfl with hc | rfl
      · exact takeSign_digits hc rest
      · rfl
  · rfl
  · rfl

theorem exists_sign (text : List Char) :
    ∃ s ∈ sign.matches', (takeSign text).1 = decide (s = ['-']) ∧
      text = s ++ (takeSign text).2 := by
  unfold takeSign
  split
  · exact ⟨['-'], mem_sign.mpr (.inr (.inr rfl)), rfl, rfl⟩
  · exact ⟨['+'], mem_sign.mpr (.inr (.inl rfl)), rfl, rfl⟩
  · exact ⟨[], mem_sign.mpr (.inl rfl), rfl, rfl⟩

/-- **A numeral spells the text it was found in**, after its sign. -/
theorem exists_sign_of_ofChars? (h : ofChars? text = some n) :
    n.wellFormed ∧ ∃ s ∈ sign.matches', n.negative = decide (s = ['-']) ∧
      text = s ++ (n.whole ++ n.fraction.elim [] ('.' :: ·)) := by
  obtain ⟨s, hs, hnegative, htext⟩ := exists_sign text
  unfold ofChars? at h
  dsimp only at h
  split at h
  · next hwell =>
    cases h
    refine ⟨hwell, s, hs, hnegative, htext.trans (congrArg (s ++ ·) ?_)⟩
    exact splitPoint_spells (takeSign text).2
  · cases h

/-- **A row of digits writes their weighted sum.** -/
theorem digitsValue_eq_ofDigits (digits : List Char) :
    digitsValue digits = Nat.ofDigits 10 (digits.reverse.map fun c => c.toNat - '0'.toNat) := by
  rw [digitsValue, Nat.ofDigits_eq_foldr, List.foldr_map, List.foldr_reverse]
  congr 1
  funext value c
  exact Nat.add_comm _ _

/-- **A sign and digits write what the reader makes of them.** -/
theorem writtenInteger_append {s whole : List Char} (hs : s ∈ sign.matches')
    (hwhole : ∀ c ∈ whole, c.isDigit) :
    writtenInteger (s ++ whole) = wholeValue ⟨decide (s = ['-']), whole, none⟩ := by
  have hdigits : (s ++ whole).filter Char.isDigit = whole := by
    rw [List.filter_append, List.filter_eq_self.mpr hwhole]
    rcases mem_sign.mp hs with rfl | rfl | rfl <;> rfl
  have hhead : (s ++ whole).head? = some '-' ↔ s = ['-'] := by
    rcases mem_sign.mp hs with rfl | rfl | rfl
    · refine iff_of_false (fun hminus => ?_) (by simp)
      exact (digit_plain (hwhole '-' (List.mem_of_head? hminus))).2.2.1 rfl
    · simp
    · simp
  simp only [writtenInteger, wholeValue, hdigits, hhead, digitsValue_eq_ofDigits, decide_eq_true_eq]

/-- **A numeral without a point** is found in the texts of the first form. -/
theorem mem_integerForm_iff : text ∈ integerForm.matches' ↔
    ∃ n, ofChars? text = some n ∧ n.fraction = none := by
  rw [mem_integerForm]
  constructor
  · rintro ⟨s, hs, whole, hne, hwhole, rfl⟩
    have hsign := takeSign_append hs fun c hc => .inl (hwhole c (List.mem_of_head? hc))
    exact ⟨_, ofChars?_of_takeSign hsign hne hwhole, rfl⟩
  · rintro ⟨⟨negative, whole, fraction⟩, hn, rfl⟩
    obtain ⟨hwell, s, hs, -, htext⟩ := exists_sign_of_ofChars? hn
    refine ⟨s, hs, whole, ?_, fun c hc => isDigit_of_wellFormed hwell (.inl hc), ?_⟩
    · simpa [wellFormed] using (Bool.and_eq_true_iff.mp hwell).2
    · simpa using htext

/-- **A numeral without a point denotes** the integer that its text writes. -/
theorem wholeValue_eq_writtenInteger (h : ofChars? text = some n) (hn : n.fraction = none) :
    n.wholeValue = writtenInteger text := by
  obtain ⟨negative, whole, fraction⟩ := n
  obtain rfl : fraction = none := hn
  obtain ⟨hwell, s, hs, rfl, rfl⟩ := exists_sign_of_ofChars? h
  rw [Option.elim_none, List.append_nil]
  exact (writtenInteger_append hs fun c hc => isDigit_of_wellFormed hwell (.inl hc)).symm

/-- **A numeral with a point** is found in the texts of the second form. -/
theorem mem_decimalForm_iff : text ∈ decimalForm.matches' ↔
    ∃ n fraction, ofChars? text = some n ∧ n.fraction = some fraction := by
  rw [mem_decimalForm]
  constructor
  · rintro ⟨s, hs, whole, hwhole, fraction, hne, hfraction, rfl⟩
    have hfirst : ∀ c ∈ (whole ++ '.' :: fraction).head?, c.isDigit ∨ c = '.' := by
      cases whole with
      | nil =>
        rintro _ ⟨⟩
        exact .inr rfl
      | cons d whole =>
        rintro _ ⟨⟩
        exact .inl (hwhole d List.mem_cons_self)
    exact ⟨_, fraction, ofChars?_point (takeSign_append hs hfirst) hwhole hfraction hne, rfl⟩
  · rintro ⟨⟨negative, whole, _⟩, fraction, hn, rfl⟩
    obtain ⟨hwell, s, hs, -, htext⟩ := exists_sign_of_ofChars? hn
    refine ⟨s, hs, whole, fun c hc => isDigit_of_wellFormed hwell (.inl hc), fraction, ?_,
      fun c hc => isDigit_of_wellFormed hwell (.inr ⟨fraction, rfl, hc⟩), htext⟩
    have := (Bool.and_eq_true_iff.mp hwell).2
    simpa using (Bool.and_eq_true_iff.mp this).1

end Numeral

/-! ## 3. What atoms are read as -/

open NumberGrammar

/-- **What an atom text is read as.**  A lexeme of this text is handed on as this datum wherever
the reader accepts it, and the text by itself is this datum and nothing else. -/
structure ReadAs (text : List Char) (a : Atom) : Prop where
  handedOn : ∀ file (r next : Reading) (l : Lexeme), l.token = .atom text →
    r.step file l = .ok next →
    next = .supply file r.forms l.stop (.atom a (some ⟨file, l.start, l.stop⟩)) r.pending
  alone : ∀ file, ∃ span, readAll file (String.ofList text) = .ok [.atom a span]

variable {text : List Char}

theorem AtomText.readAs (htext : AtomText text) : ReadAs text (.ofChars text) where
  handedOn file r next l hl hnext := by
    cases Reading.step_ok_iff.mp hnext with
    | leaf _ hd =>
      rw [Reading.leaf?, hl] at hd
      cases hd
      rfl
    | opening | quote | dot | close | closeDotted => cases hl
  alone file := by
    obtain ⟨form, hread, hform⟩ := (htext.writes rfl).readAll_eq file
    rw [List.append_nil] at hread
    cases form with
    | atom a span =>
      cases hform
      exact ⟨span, hread⟩
    | nil => cases hform
    | pair head tail span => cases hform

/-- **A numeral without a point** is an integer as far as 64 bits go, and beyond them a float. -/
theorem Numeral.toAtom_of_no_point {n : Numeral} (hn : n.fraction = none) :
    (InRange n.wholeValue ∧ ∃ k : Int64, n.toAtom = .integer k ∧ k.toInt = n.wholeValue) ∨
      (¬ InRange n.wholeValue ∧ ∃ x, n.toAtom = .float x) := by
  have hmin : Int64.minValue.toInt = -2 ^ 63 := by decide
  have hmax : Int64.maxValue.toInt = 2 ^ 63 - 1 := by decide
  rw [toAtom, hn, hmin, hmax]
  by_cases hrange : InRange n.wholeValue
  · refine .inl ⟨hrange, _, if_pos hrange, Int64.toInt_ofInt_of_le hrange.1 ?_⟩
    have hhigh := hrange.2
    omega
  · exact .inr ⟨hrange, _, if_neg hrange⟩

theorem Numeral.toAtom_of_point {n : Numeral} {fraction : List Char}
    (hn : n.fraction = some fraction) : ∃ x, n.toAtom = .float x := by
  rw [toAtom, hn]
  exact ⟨_, rfl⟩

theorem not_mem_decimalForm (h : text ∈ integerForm.matches') : text ∉ decimalForm.matches' := by
  intro hdecimal
  obtain ⟨n, hn, hnone⟩ := Numeral.mem_integerForm_iff.mp h
  obtain ⟨n', fraction, hn', hsome⟩ := Numeral.mem_decimalForm_iff.mp hdecimal
  cases hn.symm.trans hn'
  rw [hnone] at hsome
  cases hsome

/-- **What the number grammar makes of a text**: an integer of 64 bits and its value, a float. -/
inductive Graded (text : List Char) : Atom → Prop where
  | integer {k : Int64} (h : text ∈ integerForm.matches') (hvalue : k.toInt = writtenInteger text) :
    Graded text (.integer k)
  | large {x : Float} (h : text ∈ integerForm.matches') (hrange : ¬ InRange (writtenInteger text)) :
    Graded text (.float x)
  | decimal {x : Float} (h : text ∈ decimalForm.matches') : Graded text (.float x)
  | symbol (hinteger : text ∉ integerForm.matches') (hdecimal : text ∉ decimalForm.matches') :
    Graded text (.symbol (String.ofList text))

/-- **An atom other than a boolean** is what the number grammar makes of it. -/
theorem graded_ofChars (htrue : text ≠ ['#', 't']) (hfalse : text ≠ ['#', 'f']) :
    Graded text (.ofChars text) := by
  rw [Atom.ofChars, if_neg htrue, if_neg hfalse]
  cases hn : Numeral.ofChars? text with
  | none =>
    refine .symbol (fun h => ?_) (fun h => ?_)
    · obtain ⟨n, hsome, -⟩ := Numeral.mem_integerForm_iff.mp h
      cases hn.symm.trans hsome
    · obtain ⟨n, _, hsome, -⟩ := Numeral.mem_decimalForm_iff.mp h
      cases hn.symm.trans hsome
  | some n =>
    dsimp only
    cases hfraction : n.fraction with
    | none =>
      have hform : text ∈ integerForm.matches' := Numeral.mem_integerForm_iff.mpr ⟨n, hn, hfraction⟩
      have hwritten := Numeral.wholeValue_eq_writtenInteger hn hfraction
      rcases Numeral.toAtom_of_no_point hfraction with ⟨hrange, k, hk, hvalue⟩ | ⟨hrange, x, hx⟩
      · rw [hk]
        exact .integer hform (hvalue.trans hwritten)
      · rw [hx]
        exact .large hform (hwritten ▸ hrange)
    | some fraction =>
      obtain ⟨x, hx⟩ := Numeral.toAtom_of_point hfraction
      rw [hx]
      exact .decimal (Numeral.mem_decimalForm_iff.mpr ⟨n, fraction, hn, hfraction⟩)

/-- **Atoms are read by the number grammar.**  An atom text other than `#t` and `#f` is read as an
integer if and only if it has the form `[+-]?[0-9]+` and the integer it writes fits in 64 bits, and
then as that integer; as a float if and only if it has the form `[+-]?[0-9]*[.][0-9]+`, or the other
one with an integer that does not fit; and else as the symbol of this text. -/
theorem atom_read_by_number_grammar (htext : AtomText text) (htrue : text ≠ ['#', 't'])
    (hfalse : text ≠ ['#', 'f']) :
    ∃ a, ReadAs text a ∧
      ((∃ k, a = .integer k) ↔ text ∈ integerForm.matches' ∧ InRange (writtenInteger text)) ∧
      (∀ k, a = .integer k → k.toInt = writtenInteger text) ∧
      ((∃ x, a = .float x) ↔ text ∈ decimalForm.matches' ∨
        text ∈ integerForm.matches' ∧ ¬ InRange (writtenInteger text)) ∧
      (a = .symbol (String.ofList text) ↔
        text ∉ integerForm.matches' ∧ text ∉ decimalForm.matches') := by
  refine ⟨.ofChars text, htext.readAs, ?_⟩
  have hgraded := graded_ofChars htrue hfalse
  generalize Atom.ofChars text = a at hgraded
  cases hgraded with
  | @integer k h hvalue =>
    have hrange : InRange (writtenInteger text) := hvalue ▸ inRange_toInt k
    simp [h, not_mem_decimalForm h, hvalue, hrange]
  | large h hrange => simp [h, hrange]
  | decimal h =>
    have hinteger : text ∉ integerForm.matches' := fun hinteger => not_mem_decimalForm hinteger h
    simp [h, hinteger]
  | symbol hinteger hdecimal => simp [hinteger, hdecimal]

/-- The most negative integer of 64 bits, with leading zeros, is read as itself. -/
theorem atom_read_at_least_integer :
    AtomText "-009223372036854775808".toList ∧
      ∃ k, ReadAs "-009223372036854775808".toList (.integer k) ∧ k.toInt = -2 ^ 63 := by
  have htext : AtomText "-009223372036854775808".toList :=
    show AtomText ('-' :: "009223372036854775808".toList) from .of_all rfl (by decide) (by decide)
  obtain ⟨a, hread, hinteger, hvalue, -⟩ :=
    atom_read_by_number_grammar htext (by decide) (by decide)
  have hwritten : writtenInteger "-009223372036854775808".toList = -2 ^ 63 := by decide
  have hform : "-009223372036854775808".toList ∈ integerForm.matches' :=
    mem_integerForm.mpr ⟨['-'], mem_sign.mpr (.inr (.inr rfl)), "009223372036854775808".toList,
      List.cons_ne_nil _ _, fun c => List.all_eq_true.mp (by decide) c, rfl⟩
  obtain ⟨k, rfl⟩ := hinteger.mpr ⟨hform, by rw [hwritten]; decide⟩
  exact ⟨htext, k, hread, (hvalue k rfl).trans hwritten⟩

end Lisp
