/-
# Chained comparisons

A comparison of several numbers compares neighbours: integers exactly, and as doubles wherever a
float takes part.  Whether it thereby compares every number with every later one depends on how
exact and rounded comparisons go together:

* exact comparisons are transitive, and so are rounded ones;
* an exact one followed by a rounded one gives a rounded one, because integers keep their order as
  doubles.  The order of the doubles may be weaker, but the rounded comparison makes up for it
  (`Between.weaken_trans`).

So what holds between all neighbours holds between any two arguments, as doubles if there is a float
anywhere between them (`Linked.trans`).  For two integers this is less than what the comparison of
the two says, but only if they are one double, and only for `=`, `<=` and `>=`
(`chains_hold_throughout`): 2^53 + 1 and 2^53 are both equal to 2^53 as a float
(`chain_of_unequal_integers`).
-/
import Lisp.Proofs.DoubleOrder
import Lisp.Host.Function

namespace Lisp

/-! ## 1. Relations of a linear order -/

namespace Relation

/-- **The relation in any linear order.** -/
def Between {α : Type} [LinearOrder α] : Relation → α → α → Prop
  | .equal, i, j => i = j
  | .less, i, j => i < j
  | .greater, i, j => j < i
  | .lessOrEqual, i, j => i ≤ j
  | .greaterOrEqual, i, j => j ≤ i

/-- **The relation without what makes it strict.** -/
def weaken : Relation → Relation
  | .less => .lessOrEqual
  | .greater => .greaterOrEqual
  | r => r

/-- **Whether nothing is related to itself.** -/
def isStrict : Relation → Bool
  | .less | .greater => true
  | _ => false

section Orders

variable {α β : Type} [LinearOrder α] [LinearOrder β] {r : Relation} {i j k : α} {v w : β}

theorem Between.weaken (h : r.Between i j) : r.weaken.Between i j := by
  cases r with
  | less => exact le_of_lt h
  | greater => exact le_of_lt h
  | _ => exact h

theorem Between.weaken_trans (h : r.weaken.Between i j) (h' : r.Between j k) : r.Between i k := by
  cases r with
  | equal => exact Eq.trans h h'
  | less => exact lt_of_le_of_lt h h'
  | greater => exact lt_of_lt_of_le h' h
  | lessOrEqual => exact le_trans h h'
  | greaterOrEqual => exact le_trans h' h

theorem Between.trans_weaken (h : r.Between i j) (h' : r.weaken.Between j k) : r.Between i k := by
  cases r with
  | equal => exact Eq.trans h h'
  | less => exact lt_of_lt_of_le h h'
  | greater => exact lt_of_le_of_lt h' h
  | lessOrEqual => exact le_trans h h'
  | greaterOrEqual => exact le_trans h' h

theorem Between.trans (h : r.Between i j) (h' : r.Between j k) : r.Between i k :=
  h.weaken.weaken_trans h'

/-- **Where the order is kept, relations are, but not strictly.** -/
theorem Between.map (hle : i ≤ j → v ≤ w) (hge : j ≤ i → w ≤ v) (h : r.Between i j) :
    r.weaken.Between v w := by
  cases r with
  | equal => exact le_antisymm (hle (le_of_eq h)) (hge (ge_of_eq h))
  | less => exact hle (le_of_lt h)
  | greater => exact hge (le_of_lt h)
  | lessOrEqual => exact hle h
  | greaterOrEqual => exact hge h

/-- **Back from where the order is kept**: the relation holds, unless it is not strict and the two
have become one. -/
theorem Between.comap (hle : i ≤ j → v ≤ w) (hge : j ≤ i → w ≤ v) (h : r.Between v w) :
    r.Between i j ∨ (r.isStrict = false ∧ v = w) := by
  cases r with
  | equal => exact .inr ⟨rfl, h⟩
  | less => exact .inl (lt_of_not_ge fun hji => absurd (hge hji) (not_le_of_gt h))
  | greater => exact .inl (lt_of_not_ge fun hij => absurd (hle hij) (not_le_of_gt h))
  | lessOrEqual =>
    rcases le_or_gt i j with hij | hji
    · exact .inl hij
    · exact .inr ⟨rfl, le_antisymm h (hge hji.le)⟩
  | greaterOrEqual =>
    rcases le_or_gt j i with hji | hij
    · exact .inl hji
    · exact .inr ⟨rfl, le_antisymm (hle hij.le) h⟩

end Orders

theorem onIntegers_iff (r : Relation) (m n : Int64) :
    r.onIntegers m n = true ↔ r.Between m.toInt n.toInt := by
  cases r <;> simp [onIntegers, Between, Int64.lt_iff_toInt_lt, Int64.le_iff_toInt_le,
    Int64.toInt_inj]

theorem onFloats_iff (r : Relation) (x y : Float) :
    r.onFloats x y = true ↔
      ∃ v w, floatValue? x = some v ∧ floatValue? y = some w ∧ r.Between v w := by
  cases r with
  | equal => exact float_beq_iff_value
  | less => exact decide_eq_true_iff.trans float_lt_iff_value
  | lessOrEqual => exact decide_eq_true_iff.trans float_le_iff_value
  | greater =>
    rw [onFloats, decide_eq_true_iff, float_lt_iff_value, exists_comm]
    simp only [Between, and_left_comm]
  | greaterOrEqual =>
    rw [onFloats, decide_eq_true_iff, float_le_iff_value, exists_comm]
    simp only [Between, and_left_comm]

end Relation

/-! ## 2. Two numbers -/

namespace HostValue

/-- **The number that a value stands for as a double.** -/
def value? : HostValue → Option (WithBot (WithTop ℚ))
  | .integer n => floatValue? (integerToFloat n)
  | .float x => floatValue? x
  | _ => none

/-- **Whether the value is an integer.** -/
def isInteger : HostValue → Bool
  | .integer _ => true
  | _ => false

variable {a b : HostValue} {v : WithBot (WithTop ℚ)}

theorem value?_eq_some_iff :
    a.value? = some v ↔ ∃ x, a.toFloat = .ok x ∧ floatValue? x = some v := by
  cases a <;> simp [value?, toFloat]

theorem isInteger_both (h : (a.isInteger && b.isInteger) = true) :
    (∃ m, a = .integer m) ∧ ∃ n, b = .integer n := by
  cases a <;> cases b <;> first | exact ⟨⟨_, rfl⟩, _, rfl⟩ | cases h

end HostValue

namespace Relation

variable {r : Relation} {a b c : HostValue} {exact exact' : Bool} {args between : List HostValue}

/-- **What a relation says about two numbers**: of two integers exactly, of any two as doubles. -/
inductive Linked (r : Relation) : Bool → HostValue → HostValue → Prop where
  | integers {m n : Int64} (h : r.Between m.toInt n.toInt) : Linked r true (.integer m) (.integer n)
  | doubles {a b : HostValue} {v w : WithBot (WithTop ℚ)} (ha : a.value? = some v)
    (hb : b.value? = some w) (h : r.Between v w) : Linked r false a b

theorem holds_doubles (h : (a.isInteger && b.isInteger) = false) :
    r.holds a b = (do
      let x ← a.toFloat
      let y ← b.toFloat
      pure (r.onFloats x y)) := by
  cases a <;> cases b <;> first | rfl | cases h

theorem linked_integers_iff {m n : Int64} :
    Linked r true (.integer m) (.integer n) ↔ r.Between m.toInt n.toInt :=
  ⟨fun h => by cases h; assumption, .integers⟩

theorem linked_doubles_iff : Linked r false a b ↔
    ∃ x y, a.toFloat = .ok x ∧ b.toFloat = .ok y ∧ r.onFloats x y = true := by
  simp only [onFloats_iff]
  constructor
  · intro h
    cases h with
    | doubles ha hb h =>
      obtain ⟨x, ha, hx⟩ := HostValue.value?_eq_some_iff.mp ha
      obtain ⟨y, hb, hy⟩ := HostValue.value?_eq_some_iff.mp hb
      exact ⟨x, y, ha, hb, _, _, hx, hy, h⟩
  · rintro ⟨x, y, ha, hb, v, w, hx, hy, h⟩
    have ha := HostValue.value?_eq_some_iff.mpr ⟨x, ha, hx⟩
    have hb := HostValue.value?_eq_some_iff.mpr ⟨y, hb, hy⟩
    exact .doubles ha hb h

/-- **The comparison of two values is what links them.** -/
theorem holds_iff : r.holds a b = .ok true ↔ Linked r (a.isInteger && b.isInteger) a b := by
  cases hboth : a.isInteger && b.isInteger with
  | true =>
    obtain ⟨⟨m, rfl⟩, n, rfl⟩ := HostValue.isInteger_both hboth
    rw [linked_integers_iff, ← onIntegers_iff]
    exact iff_of_eq (Except.ok.injEq (r.onIntegers m n) true)
  | false =>
    rw [holds_doubles hboth, linked_doubles_iff]
    cases a.toFloat <;> cases b.toFloat <;> simp [bind, Except.bind, pure, Except.pure]

theorem exists_holds (ha : a.isNumber = true) (hb : b.isNumber = true) :
    ∃ outcome, r.holds a b = .ok outcome := by
  cases a <;> cases b <;> first | exact ⟨_, rfl⟩ | simp [HostValue.isNumber] at ha hb

theorem value_mono {m n : Int64} {v w : WithBot (WithTop ℚ)}
    (hm : HostValue.value? (.integer m) = some v) (hn : HostValue.value? (.integer n) = some w)
    (h : m.toInt ≤ n.toInt) : v ≤ w := by
  obtain ⟨v', w', hm', hn', hle⟩ :=
    float_le_iff_value.mp (integerToFloat_mono (Int64.le_iff_toInt_le.mpr h))
  obtain rfl := Option.some.inj (hm.symm.trans hm')
  obtain rfl := Option.some.inj (hn.symm.trans hn')
  exact hle

/-- **Links compose**, and what they say together is exact only if both are. -/
theorem Linked.trans (h : Linked r exact a c) (h' : Linked r exact' c b) :
    Linked r (exact && exact') a b := by
  cases h with
  | integers h =>
    cases h' with
    | integers h' => exact .integers (h.trans h')
    | doubles hc hb h' =>
      obtain ⟨q, -, ha⟩ := floatValue_integerToFloat _
      exact .doubles ha hb ((h.map (value_mono ha hc) (value_mono hc ha)).weaken_trans h')
  | doubles ha hc h =>
    cases h' with
    | integers h' =>
      obtain ⟨q, -, hb⟩ := floatValue_integerToFloat _
      exact .doubles ha hb (h.trans_weaken (h'.map (value_mono hc hb) (value_mono hb hc)))
    | doubles hc' hb h' =>
      obtain rfl := Option.some.inj (hc.symm.trans hc')
      exact .doubles ha hb (h.trans h')

/-! ## 3. Rows of numbers -/

/-- **A comparison of several values holds if it holds between all neighbours.** -/
theorem chained_iff :
    r.chained args = .ok true ↔ args.IsChain fun a b => r.holds a b = .ok true := by
  fun_induction chained r args with
  | case1 a b rest ih =>
    rw [List.isChain_cons_cons]
    cases hfirst : r.holds a b with
    | error fault => simp [bind, Except.bind]
    | ok outcome => cases outcome <;> simp [bind, Except.bind, pure, Except.pure, ih]
  | case2 args hshort =>
    match args, hshort with
    | [], _ => simp [pure, Except.pure]
    | [a], _ => simp [pure, Except.pure]
    | a :: b :: rest, hshort => exact absurd rfl (hshort a b rest)

/-- **What holds between all neighbours holds between the ends**, exactly if there are only
integers, and as doubles otherwise. -/
theorem linked_of_isChain
    (h : (a :: (between ++ [b])).IsChain fun a b => r.holds a b = .ok true) :
    Linked r ((a :: (between ++ [b])).all HostValue.isInteger) a b := by
  induction between generalizing a with
  | nil =>
    have hpair := holds_iff.mp (List.isChain_cons_cons.mp h).1
    simpa using hpair
  | cons c between ih =>
    obtain ⟨hstep, hrest⟩ := List.isChain_cons_cons.mp h
    have hlink := (holds_iff.mp hstep).trans (ih hrest)
    cases hc : c.isInteger <;> simpa [hc] using hlink

theorem exists_chained (h : ∀ a ∈ args, a.isNumber = true) :
    ∃ outcome, r.chained args = .ok outcome := by
  fun_induction chained r args with
  | case1 a b rest ih =>
    obtain ⟨ha, hrest⟩ := List.forall_mem_cons.mp h
    obtain ⟨outcome, hfirst⟩ := exists_holds (r := r) ha (List.forall_mem_cons.mp hrest).1
    rw [hfirst]
    cases outcome with
    | false => exact ⟨false, rfl⟩
    | true => exact ih hrest
  | case2 args _ => exact ⟨true, rfl⟩

/-- **The arguments are looked at in turn**, and the first that is not a number is reported. -/
theorem forIn_toFloat (args : List HostValue) :
    (forIn args PUnit.unit fun arg _ => do
      let _ ← arg.toFloat
      pure (ForInStep.yield PUnit.unit) : Except HostFault PUnit) =
      match args.find? (fun a => !a.isNumber) with
      | some a => .error (.notANumber a)
      | none => .ok PUnit.unit := by
  induction args with
  | nil => rfl
  | cons a args ih =>
    rw [List.forIn_cons, List.find?_cons]
    cases a with
    | integer n => exact ih
    | float x => exact ih
    | _ => rfl

/-- **All arguments are looked at before any two are compared.** -/
theorem compareAll_eq (args : List HostValue) : r.compareAll args =
    match args.find? (fun a => !a.isNumber) with
    | some a => .error (.notANumber a)
    | none => (r.chained args).map .boolean := by
  unfold compareAll
  rw [forIn_toFloat]
  cases args.find? fun a => !a.isNumber with
  | some a => rfl
  | none => cases r.chained args <;> rfl

theorem compareAll_of_numbers (h : ∀ a ∈ args, a.isNumber = true) :
    r.compareAll args = (r.chained args).map .boolean := by
  have hnone : (args.find? fun a => !a.isNumber) = none := by simpa using h
  rw [compareAll_eq, hnone]

theorem compareAll_no_number (h : ∃ a ∈ args, a.isNumber = false) :
    ∃ fault, r.compareAll args = .error fault := by
  have hsome : (args.find? fun a => !a.isNumber).isSome = true := by simpa using h
  obtain ⟨a, ha⟩ := Option.isSome_iff_exists.mp hsome
  rw [compareAll_eq, ha]
  exact ⟨_, rfl⟩

theorem compareAll_pair (ha : a.isNumber = true) (hb : b.isNumber = true) :
    r.compareAll [a, b] = .ok (.boolean true) ↔ r.holds a b = .ok true := by
  have hnumbers : ∀ c ∈ [a, b], c.isNumber = true := by simp [ha, hb]
  rw [compareAll_of_numbers hnumbers]
  have hpair : r.chained [a, b] = .ok true ↔ r.holds a b = .ok true := by
    rw [chained_iff]
    simp
  rw [← hpair]
  cases r.chained [a, b] <;> simp [Except.map]

/-- **Two integers meet** in one double if a float stands between them in the row. -/
def Meet (a b : HostValue) (between : List HostValue) : Prop :=
  ∃ m n x, a = .integer m ∧ b = .integer n ∧ (integerToFloat m == integerToFloat n) = true ∧
    HostValue.float x ∈ between

/-- **What holds between all neighbours holds between any two**, or they are two integers that meet
in one double. -/
theorem holds_or_meet
    (h : (a :: (between ++ [b])).IsChain fun a b => r.holds a b = .ok true)
    (hnumbers : ∀ c ∈ between, c.isNumber = true) :
    r.holds a b = .ok true ∨ (r.isStrict = false ∧ Meet a b between) := by
  have hlink := linked_of_isChain h
  rw [holds_iff]
  cases hboth : a.isInteger && b.isInteger with
  | false =>
    have hall : (a :: (between ++ [b])).all HostValue.isInteger = false := by
      rcases Bool.and_eq_false_iff.mp hboth with ha | hb <;> simp [*]
    exact .inl (hall ▸ hlink)
  | true =>
    obtain ⟨⟨m, rfl⟩, n, rfl⟩ := HostValue.isInteger_both hboth
    by_cases hall : between.all HostValue.isInteger = true
    · exact .inl (by simpa [HostValue.isInteger, hall] using hlink)
    · obtain ⟨x, hx⟩ : ∃ x, HostValue.float x ∈ between := by
        simp only [List.all_eq_true, not_forall] at hall
        obtain ⟨c, hc, hfloat⟩ := hall
        have hnumber := hnumbers c hc
        cases c with
        | float x => exact ⟨x, hc⟩
        | integer n => exact absurd rfl hfloat
        | _ => cases hnumber
      have hdoubles : Linked r false (.integer m) (.integer n) := by
        simpa [HostValue.isInteger, hall] using hlink
      cases hdoubles with
      | doubles ha hb h =>
        rw [linked_integers_iff]
        refine (h.comap (value_mono ha hb) (value_mono hb ha)).imp_right ?_
        rintro ⟨hstrict, rfl⟩
        exact ⟨hstrict, m, n, x, rfl, rfl, float_beq_iff_value.mpr ⟨_, _, ha, hb, rfl⟩, hx⟩

/-- **The name that the relation is called by.** -/
def name : Relation → String
  | .equal => "="
  | .less => "<"
  | .greater => ">"
  | .lessOrEqual => "<="
  | .greaterOrEqual => ">="

/-- **Chained comparisons hold throughout, or integers meet.**  A comparison of several values fails
exactly if one of them is not a number.  Otherwise it holds exactly if it holds between every one
and every later one, NaN included, but for integers that `=`, `<=` and `>=` do not tell apart
because both are the double that a float between them is compared with. -/
theorem chains_hold_throughout (r : Relation) (args : List HostValue) :
    HostFunction.standard.lookup r.name = some (.silent r.compareAll) ∧
    ((∃ fault, r.compareAll args = .error fault) ↔ ∃ a ∈ args, a.isNumber = false) ∧
    ((∀ a ∈ args, a.isNumber = true) →
      ∃ outcome, r.compareAll args = .ok (.boolean outcome) ∧
        (outcome = true ↔ ∀ a between b, a :: (between ++ [b]) <:+: args →
          r.compareAll [a, b] = .ok (.boolean true) ∨
            (r.isStrict = false ∧ Meet a b between))) := by
  have hsucceeds (h : ∀ a ∈ args, a.isNumber = true) :
      ∃ outcome, r.chained args = .ok outcome ∧ r.compareAll args = .ok (.boolean outcome) := by
    obtain ⟨outcome, houtcome⟩ := exists_chained (r := r) h
    exact ⟨outcome, houtcome, by rw [compareAll_of_numbers h, houtcome]; rfl⟩
  refine ⟨by cases r <;> rfl, ⟨?_, compareAll_no_number⟩, fun hnumbers => ?_⟩
  · rintro ⟨fault, hfault⟩
    by_contra hnumbers
    obtain ⟨outcome, -, hok⟩ := hsucceeds (by simpa using hnumbers)
    exact absurd (hok.symm.trans hfault) nofun
  · obtain ⟨outcome, hchained, hok⟩ := hsucceeds hnumbers
    refine ⟨outcome, hok, ?_⟩
    have hpair {a b : HostValue} {between : List HostValue}
        (hin : a :: (between ++ [b]) <:+: args) :
        r.compareAll [a, b] = .ok (.boolean true) ↔ r.holds a b = .ok true :=
      compareAll_pair (hnumbers a (hin.subset (by simp))) (hnumbers b (hin.subset (by simp)))
    have hchain : outcome = true ↔ args.IsChain fun a b => r.holds a b = .ok true := by
      rw [← chained_iff, hchained, Except.ok.injEq]
    rw [hchain]
    constructor
    · intro hall a between b hin
      have hpart := List.IsChain.infix hall hin
      have hsubset : between ⊆ args := fun c hc => hin.subset (by simp [hc])
      rw [hpair hin]
      exact holds_or_meet hpart fun c hc => hnumbers c (hsubset hc)
    · intro hall
      refine (List.isChain_isInfix args).imp fun a b hin => ?_
      have hin : a :: ([] ++ [b]) <:+: args := hin
      rcases hall a [] b hin with hholds | ⟨-, _, _, _, -, -, -, hnone⟩
      · exact (hpair hin).mp hholds
      · cases hnone

/-- 1 is less than 2.5 and 2.5 less than 3, so 1 is less than 3. -/
theorem chains_hold_throughout_mixed :
    let args : List HostValue := [.integer 1, .float 2.5, .integer 3]
    (∀ a ∈ args, a.isNumber = true) ∧ Relation.less.compareAll args = .ok (.boolean true) ∧
      Relation.less.compareAll [.integer 1, .integer 3] = .ok (.boolean true) := by
  intro args
  have hnumbers : ∀ a ∈ args, a.isNumber = true := by decide
  have hchain : Relation.less.compareAll args = .ok (.boolean true) := rfl
  obtain ⟨outcome, hok, hiff⟩ := (chains_hold_throughout .less args).2.2 hnumbers
  obtain rfl : outcome = true :=
    HostValue.boolean.inj (Except.ok.inj (hok.symm.trans hchain))
  have hends := hiff.mp rfl (.integer 1) [.float 2.5] (.integer 3) (List.infix_refl _)
  exact ⟨hnumbers, hchain, hends.resolve_right fun h => Bool.noConfusion h.1⟩

/-- **Integers that meet**: 2^53 + 1 and 2^53 both equal 2^53 as a float, and not each other. -/
theorem chain_of_unequal_integers :
    let args : List HostValue :=
      [.integer 9007199254740993, .float 9007199254740992, .integer 9007199254740992]
    (9007199254740992 : Float).isNaN = false ∧
      Relation.equal.compareAll args = .ok (.boolean true) ∧
      Relation.equal.compareAll [.integer 9007199254740993, .integer 9007199254740992] =
        .ok (.boolean false) := by
  exact ⟨by decide +kernel, rfl, rfl⟩

end Relation

end Lisp
