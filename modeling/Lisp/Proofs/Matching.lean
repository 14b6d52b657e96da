/-
# What patterns match

What a pattern matches is said twice.  `Pattern.match?` walks along a chain of pairs and computes.
`Pattern.Matches` says what a match is: the chain has so many elements at its front, so many at its
back and any number between, these match the patterns at the same places, and what ends the chain
matches what ends the pattern.  The two agree (`Pattern.isSome_match?`) on every pattern with at
most one ellipsis in each list, and compiling makes no other (`single_of_compile`).

The definition of a match is by counting, that of the matcher by going from part to part.  What
connects them is that the relation can be taken apart along the parts: `Parts.fits_part_iff` and
`Parts.fits_repeated_iff`.
-/
import Lisp.Proofs.Compilation
import Mathlib.Data.List.Forall2

namespace Lisp

/-! ## 1. The parts of a list pattern -/

namespace Parts

/-- **The parts in front of the ellipsis**, or all of them if there is none. -/
def fixed : Parts → List Pattern
  | .stop | .repeated .. => []
  | .part first rest => first :: rest.fixed

/-- **The repeated part and the parts after it**, if there is an ellipsis. -/
def repetition? : Parts → Option (Pattern × List Pattern)
  | .stop => none
  | .part _ rest => rest.repetition?
  | .repeated item after => some (item, after.fixed)

/-- **What is left of a chain for the end of the pattern**: with an ellipsis all elements are
taken, without one only as many as there are parts. -/
def remainder (parts : Parts) (v : Value) : Value :=
  if parts.hasEllipsis then v.ending else v.drop parts.fixed.length

theorem repetition?_eq_none_iff :
    ∀ parts : Parts, parts.repetition? = none ↔ parts.hasEllipsis = false
  | .stop => by simp [repetition?, hasEllipsis]
  | .part _ rest => by simpa [repetition?, hasEllipsis] using repetition?_eq_none_iff rest
  | .repeated _ _ => by simp [repetition?, hasEllipsis]

/-- Without an ellipsis every part needs an element. -/
theorem count_eq_length_fixed :
    ∀ parts : Parts, parts.hasEllipsis = false → parts.count = parts.fixed.length
  | .stop, _ => rfl
  | .part _ rest, h => congrArg (· + 1) (count_eq_length_fixed rest h)

theorem remainder_of_row {parts : Parts} (h : parts.repetition? = none) (v : Value) :
    parts.remainder v = v.drop parts.fixed.length := by
  rw [remainder, (repetition?_eq_none_iff parts).mp h, if_neg (by simp)]

theorem remainder_of_repetition {parts : Parts} {r : Pattern × List Pattern}
    (h : parts.repetition? = some r) (v : Value) : parts.remainder v = v.ending := by
  have hellipsis : parts.hasEllipsis = true := by
    by_contra hno
    rw [(repetition?_eq_none_iff parts).mpr (by simpa using hno)] at h
    cases h
  rw [remainder, if_pos hellipsis]

/-- Another part in front takes another element from the chain. -/
theorem remainder_part (first : Pattern) (rest : Parts) (id : Nat) (head tail : Value) :
    (part first rest).remainder (.pair id head tail) = rest.remainder tail := rfl

/-- The parts after an ellipsis end where the whole does. -/
theorem remainder_drop {after : Parts} (hafter : after.hasEllipsis = false) {v : Value}
    (hlength : after.count ≤ v.elements.length) :
    after.remainder (v.drop (v.elements.length - after.count)) = v.ending := by
  rw [remainder, hafter, if_neg (by simp), ← count_eq_length_fixed after hafter, Value.drop_drop,
    Nat.sub_add_cancel hlength, Value.drop_length_elements]

end Parts

/-! ## 2. What a match is -/

/-- **What a pattern without parts matches.** -/
def Leaf.Matches : Leaf → Value → Prop
  | .variable _, _ | .wildcard, _ => True
  | .literal name, v => v.symbol? = some name
  | .constant value, v => v.equal value

/-- **What may end the chain**: the empty list, or what the pattern after the dot matches. -/
def EndingMatches : Option Leaf → Value → Prop
  | none, v => v = .nil
  | some last, v => last.Matches v

/-- **The elements of a chain as an ellipsis divides them**: one for each part in front of it, one
for each part after it, and any number in the middle. -/
structure Parts.Divides (parts : Parts) (after : List Pattern) (v : Value)
    (front middle back : List Value) : Prop where
  elements : v.elements = front ++ (middle ++ back)
  front_length : front.length = parts.fixed.length
  back_length : back.length = after.length

/-- **What a pattern matches.** -/
inductive Pattern.Matches : Pattern → Value → Prop where
  | leaf {single v} (h : single.Matches v) : Matches (.leaf single) v
  /-- Without an ellipsis the first elements match the parts, and the rest of the chain, which may
  go on, matches the end of the pattern. -/
  | row {parts ending v front others} (hparts : parts.repetition? = none)
    (helements : v.elements = front ++ others) (hfront : List.Forall₂ Matches parts.fixed front)
    (hending : EndingMatches ending (v.drop front.length)) : Matches (.list parts ending) v
  /-- With an ellipsis the first elements match the parts before it, the last elements those after
  it, every element between the repeated one, and what ends the chain the end of the pattern. -/
  | repeated {parts ending v item after front middle back}
    (hparts : parts.repetition? = some (item, after))
    (hdivides : parts.Divides after v front middle back)
    (hfront : List.Forall₂ Matches parts.fixed front) (hmiddle : ∀ e ∈ middle, Matches item e)
    (hback : List.Forall₂ Matches after back)
    (hending : EndingMatches ending v.ending) : Matches (.list parts ending) v

/-- **The parts alone match the elements**, whatever ends the chain. -/
def Parts.Fits (parts : Parts) (v : Value) : Prop :=
  (Pattern.list parts (some .wildcard)).Matches v

namespace Pattern

/-- **A list pattern matches** if its parts do and the remainder matches its end. -/
theorem matches_list_iff {parts : Parts} {ending : Option Leaf} {v : Value} :
    (list parts ending).Matches v ↔
      parts.Fits v ∧ EndingMatches ending (parts.remainder v) := by
  constructor
  · intro h
    cases h with
    | row hparts helements hfront hending =>
      refine ⟨.row hparts helements hfront trivial, ?_⟩
      rwa [Parts.remainder_of_row hparts, hfront.length_eq]
    | repeated hparts hdivides hfront hmiddle hback hending =>
      refine ⟨.repeated hparts hdivides hfront hmiddle hback trivial, ?_⟩
      rwa [Parts.remainder_of_repetition hparts]
  · rintro ⟨hfits, hending⟩
    cases hfits with
    | row hparts helements hfront _ =>
      rw [Parts.remainder_of_row hparts, hfront.length_eq] at hending
      exact .row hparts helements hfront hending
    | repeated hparts hdivides hfront hmiddle hback _ =>
      rw [Parts.remainder_of_repetition hparts] at hending
      exact .repeated hparts hdivides hfront hmiddle hback hending

end Pattern

namespace Parts

theorem fits_stop (v : Value) : stop.Fits v :=
  .row rfl (List.nil_append v.elements).symm .nil trivial

/-- **Parts that begin with one to be matched once** fit a chain that begins with a match. -/
theorem fits_part_iff {first : Pattern} {rest : Parts} {v : Value} :
    (part first rest).Fits v ↔
      ∃ id head tail, v = .pair id head tail ∧ first.Matches head ∧ rest.Fits tail := by
  constructor
  · intro h
    -- the first part needs an element, so there is a pair
    have pair_of_elements : ∀ {e es}, v.elements = e :: es →
        ∃ id tail, v = .pair id e tail ∧ tail.elements = es := by
      intro e es he
      cases v <;> simp [Value.elements] at he
      next id head tail => exact ⟨id, tail, by rw [he.1], he.2⟩
    cases h with
    | row hparts helements hfront _ =>
      cases hfront with
      | cons hfirst hfront =>
        obtain ⟨id, tail, rfl, htail⟩ := pair_of_elements helements
        exact ⟨id, _, tail, rfl, hfirst, .row hparts htail hfront trivial⟩
    | repeated hparts hdivides hfront hmiddle hback _ =>
      obtain ⟨helements, hlength, hafter⟩ := hdivides
      cases hfront with
      | cons hfirst hfront =>
        obtain ⟨id, tail, rfl, htail⟩ := pair_of_elements helements
        exact ⟨id, _, tail, rfl, hfirst,
          .repeated hparts ⟨htail, Nat.succ.inj hlength, hafter⟩ hfront hmiddle hback trivial⟩
  · rintro ⟨id, head, tail, rfl, hfirst, hrest⟩
    cases hrest with
    | @row _ _ _ front others hparts helements hfront _ =>
      have hcons : (Value.pair id head tail).elements = (head :: front) ++ others := by
        rw [Value.elements, helements, List.cons_append]
      exact .row hparts hcons (.cons hfirst hfront) trivial
    | @repeated _ _ _ _ _ front middle back hparts hdivides hfront hmiddle hback _ =>
      obtain ⟨helements, hlength, hafter⟩ := hdivides
      have hcons : (Value.pair id head tail).elements = (head :: front) ++ (middle ++ back) := by
        rw [Value.elements, helements, List.cons_append]
      exact .repeated hparts ⟨hcons, congrArg (· + 1) hlength, hafter⟩ (.cons hfirst hfront)
        hmiddle hback trivial

variable {item : Pattern} {after : Parts} {v : Value} {front middle back : List Value}

theorem Divides.count_le (hafter : after.hasEllipsis = false)
    (h : (repeated item after).Divides after.fixed v front middle back) :
    after.count ≤ v.elements.length := by
  rw [count_eq_length_fixed after hafter, h.elements, List.length_append, List.length_append,
    h.back_length]
  omega

/-- **A chain with enough elements is divided in one way** by an ellipsis in front of all other
parts: the last elements belong to these. -/
theorem divides_repeated_iff (hafter : after.hasEllipsis = false)
    (hlength : after.count ≤ v.elements.length) :
    (repeated item after).Divides after.fixed v front middle back ↔
      front = [] ∧ middle = v.elements.take (v.elements.length - after.count) ∧
        back = (v.drop (v.elements.length - after.count)).elements := by
  rw [count_eq_length_fixed after hafter] at hlength ⊢
  rw [Value.elements_drop]
  constructor
  · rintro ⟨helements, hfront, hback⟩
    obtain rfl := List.eq_nil_of_length_eq_zero hfront
    rw [List.nil_append] at helements
    rw [helements, List.length_append, hback, Nat.add_sub_cancel]
    exact ⟨rfl, List.take_left.symm, List.drop_left.symm⟩
  · rintro ⟨rfl, rfl, rfl⟩
    refine ⟨?_, rfl, ?_⟩
    · rw [List.take_append_drop, List.nil_append]
    · rw [List.length_drop]
      omega

/-- **Parts that begin with the repeated one** fit a chain if the last elements fit the parts after
it, and all the others match it. -/
theorem fits_repeated_iff (hafter : after.hasEllipsis = false) :
    (repeated item after).Fits v ↔
      after.count ≤ v.elements.length ∧
      (∀ e ∈ v.elements.take (v.elements.length - after.count), item.Matches e) ∧
      after.Fits (v.drop (v.elements.length - after.count)) := by
  have hrow : after.repetition? = none := (repetition?_eq_none_iff after).mpr hafter
  constructor
  · intro h
    cases h with
    | row hparts => cases hparts
    | repeated hparts hdivides hfront hmiddle hback _ =>
      cases hparts
      have hlength := hdivides.count_le hafter
      obtain ⟨rfl, rfl, rfl⟩ := (divides_repeated_iff hafter hlength).mp hdivides
      exact ⟨hlength, hmiddle, .row hrow (List.append_nil _).symm hback trivial⟩
  · rintro ⟨hlength, hmiddle, hfits⟩
    cases hfits with
    | repeated hparts => rw [hrow] at hparts; cases hparts
    | @row _ _ _ front others _ helements hfront _ =>
      -- exactly as many elements are left as there are parts
      have hothers : others = [] := by
        have hleft := congrArg List.length helements
        rw [Value.elements_drop, List.length_drop, List.length_append, ← hfront.length_eq,
          ← count_eq_length_fixed after hafter] at hleft
        exact List.eq_nil_of_length_eq_zero (by omega)
      rw [hothers, List.append_nil] at helements
      have hdivides : (repeated item after).Divides after.fixed v [] _ front :=
        (divides_repeated_iff hafter hlength).mpr ⟨rfl, rfl, helements.symm⟩
      exact .repeated rfl hdivides .nil hmiddle hfront trivial

end Parts

/-! ## 3. What the matcher does -/

theorem mapM_eq_some_iff {α β : Type} {f : α → Option β} {as : List α} {bs : List β} :
    as.mapM f = some bs ↔ List.Forall₂ (fun a b => f a = some b) as bs := by
  induction as generalizing bs with
  | nil => simp [eq_comm]
  | cons a as ih =>
    simp only [List.mapM_cons, Option.bind_eq_bind, Option.bind_eq_some_iff, Option.pure_def,
      Option.some.injEq, List.forall₂_cons_left_iff]
    constructor
    · rintro ⟨b, hb, bs, hbs, rfl⟩
      exact ⟨b, bs, hb, ih.mp hbs, rfl⟩
    · rintro ⟨b, bs, hb, hbs, rfl⟩
      exact ⟨b, hb, bs, ih.mpr hbs, rfl⟩

namespace Pattern

/-- **The names that a pattern keeps.** -/
def names (p : Pattern) : List String :=
  (p.depths 0).map (·.1)

theorem match?_list_iff {parts : Parts} {ending : Option Leaf} {v : Value} {captures : Captures} :
    (list parts ending).match? v = some captures ↔
      ∃ own left last, partsMatch? parts v = some (own, left) ∧
        endingMatch? ending left = some last ∧
        captures = if parts.hasEllipsis then own ++ last else last ++ own := by
  simp only [match?, Option.bind_eq_bind, Option.bind_eq_some_iff, Prod.exists]
  constructor
  · rintro ⟨own, left, hparts, last, hlast, h⟩
    refine ⟨own, left, last, hparts, hlast, ?_⟩
    split at h <;> simp_all
  · rintro ⟨own, left, last, hparts, hlast, rfl⟩
    refine ⟨own, left, hparts, last, hlast, ?_⟩
    split <;> rfl

theorem partsMatch?_part_iff {first : Pattern} {rest : Parts} {v left : Value}
    {captures : Captures} :
    partsMatch? (.part first rest) v = some (captures, left) ↔
      ∃ id head tail own others, v = .pair id head tail ∧ first.match? head = some own ∧
        partsMatch? rest tail = some (others, left) ∧ captures = others ++ own := by
  cases v with
  | pair id head tail =>
    simp only [partsMatch?, Option.bind_eq_bind, Option.bind_eq_some_iff, Prod.exists,
      Option.pure_def, Option.some.injEq, Prod.mk.injEq]
    constructor
    · rintro ⟨own, hown, others, left, hrest, rfl, rfl⟩
      exact ⟨id, head, tail, own, others, rfl, hown, hrest, rfl⟩
    · rintro ⟨_, _, _, own, others, ⟨⟩, hown, hrest, rfl⟩
      exact ⟨own, hown, others, left, hrest, rfl, rfl⟩
  | _ => simp [partsMatch?]

theorem partsMatch?_repeated_iff {item : Pattern} {after : Parts} {v left : Value}
    {captures : Captures} :
    partsMatch? (.repeated item after) v = some (captures, left) ↔
      after.count ≤ v.elements.length ∧ ∃ others repetitions,
        partsMatch? after (v.drop (v.elements.length - after.count)) = some (others, left) ∧
        List.Forall₂ (fun e r => item.match? e = some r)
          (v.elements.take (v.elements.length - after.count)) repetitions ∧
        captures = Captures.gather item.names repetitions ++ others := by
  rw [partsMatch?]
  dsimp only
  by_cases hlength : v.elements.length < after.count
  · rw [if_pos hlength]
    simp [Nat.not_le.mpr hlength]
  · rw [if_neg hlength]
    simp only [Nat.not_lt.mp hlength, true_and, Option.bind_eq_bind, Option.bind_eq_some_iff,
      Prod.exists, mapM_eq_some_iff, Option.pure_def, Option.some.injEq, Prod.mk.injEq]
    constructor
    · rintro ⟨others, left, hafter, repetitions, hitems, rfl, rfl⟩
      exact ⟨others, repetitions, hafter, hitems, rfl⟩
    · rintro ⟨others, repetitions, hafter, hitems, rfl⟩
      exact ⟨others, left, hafter, repetitions, hitems, rfl, rfl⟩

/-- **What the parts leave of a chain** depends on their number alone. -/
theorem left_of_partsMatch? : ∀ {parts : Parts}, parts.Single → ∀ {v left : Value}
    {captures : Captures}, partsMatch? parts v = some (captures, left) → left = parts.remainder v
  | .stop, _, v, left, captures, h => by
    obtain ⟨-, rfl⟩ : [] = captures ∧ v = left := by simpa [partsMatch?] using h
    exact (Value.drop_zero v).symm
  | .part first rest, hsingle, v, left, captures, h => by
    obtain ⟨id, head, tail, own, others, rfl, -, hrest, -⟩ := partsMatch?_part_iff.mp h
    rw [Parts.remainder_part]
    exact left_of_partsMatch? hsingle.2 hrest
  | .repeated item after, hsingle, v, left, captures, h => by
    obtain ⟨hlength, others, repetitions, hafter, -, -⟩ := partsMatch?_repeated_iff.mp h
    rw [left_of_partsMatch? hsingle.2.1 hafter, Parts.remainder_drop hsingle.2.2 hlength]
    exact (Parts.remainder_of_repetition rfl v).symm

theorem isSome_leafMatch? (single : Leaf) (v : Value) :
    (leafMatch? single v).isSome ↔ single.Matches v := by
  cases single with
  | «variable» | wildcard => simp [leafMatch?, Leaf.Matches]
  | literal name =>
    by_cases hv : v.symbol? = some name <;> simp [leafMatch?, Leaf.Matches, Value.isSymbolNamed, hv]
  | constant value => by_cases hv : v.equal value <;> simp [leafMatch?, Leaf.Matches, hv]

theorem isSome_endingMatch? (ending : Option Leaf) (v : Value) :
    (endingMatch? ending v).isSome ↔ EndingMatches ending v := by
  cases ending with
  | none => cases v <;> simp [endingMatch?, EndingMatches, Value.isNil]
  | some last =>
    cases last with
    | «variable» name => simp [endingMatch?, EndingMatches, Leaf.Matches]
    | wildcard => exact isSome_leafMatch? .wildcard v
    | literal name => exact isSome_leafMatch? (.literal name) v
    | constant value => exact isSome_leafMatch? (.constant value) v

/-! ## 4. The matcher finds the matches -/

/-- A row of elements each of which matches is matched. -/
theorem exists_repetitions_iff {item : Pattern} {es : List Value}
    (hitem : ∀ v, (item.match? v).isSome ↔ item.Matches v) :
    (∃ repetitions, List.Forall₂ (fun e r => item.match? e = some r) es repetitions) ↔
      ∀ e ∈ es, item.Matches e := by
  induction es with
  | nil => simp
  | cons e es ih =>
    rw [List.forall_mem_cons, ← ih, ← hitem, Option.isSome_iff_exists]
    simp only [List.forall₂_cons_left_iff]
    constructor
    · rintro ⟨_, r, rs, hr, hrs, rfl⟩
      exact ⟨⟨r, hr⟩, rs, hrs⟩
    · rintro ⟨⟨r, hr⟩, rs, hrs⟩
      exact ⟨r :: rs, r, rs, hr, hrs, rfl⟩

mutual

/-- **The matcher succeeds exactly where the pattern matches.** -/
theorem isSome_match? : ∀ {p : Pattern}, p.Single → ∀ v, (p.match? v).isSome ↔ p.Matches v
  | .leaf single, _, v => by
    rw [match?, isSome_leafMatch?]
    exact ⟨.leaf, fun | .leaf h => h⟩
  | .list parts ending, hsingle, v => by
    rw [matches_list_iff, ← isSome_partsMatch? hsingle v, ← isSome_endingMatch?,
      Option.isSome_iff_exists, Option.isSome_iff_exists, Option.isSome_iff_exists]
    constructor
    · rintro ⟨captures, h⟩
      obtain ⟨own, left, last, hparts, hlast, -⟩ := match?_list_iff.mp h
      obtain rfl := left_of_partsMatch? hsingle hparts
      exact ⟨⟨_, hparts⟩, last, hlast⟩
    · rintro ⟨⟨⟨own, left⟩, hparts⟩, last, hlast⟩
      obtain rfl := left_of_partsMatch? hsingle hparts
      exact ⟨_, match?_list_iff.mpr ⟨own, _, last, hparts, hlast, rfl⟩⟩

/-- **The parts are matched exactly where they fit.** -/
theorem isSome_partsMatch? :
    ∀ {parts : Parts}, parts.Single → ∀ v, (partsMatch? parts v).isSome ↔ parts.Fits v
  | .stop, _, v => ⟨fun _ => Parts.fits_stop v, fun _ => rfl⟩
  | .part first rest, ⟨hfirst, hrest⟩, v => by
    simp only [Parts.fits_part_iff, ← isSome_match? hfirst, ← isSome_partsMatch? hrest,
      Option.isSome_iff_exists]
    constructor
    · rintro ⟨⟨captures, left⟩, h⟩
      obtain ⟨id, head, tail, own, others, rfl, hown, hothers, -⟩ := partsMatch?_part_iff.mp h
      exact ⟨id, head, tail, rfl, ⟨own, hown⟩, _, hothers⟩
    · rintro ⟨id, head, tail, rfl, ⟨own, hown⟩, ⟨others, left⟩, hothers⟩
      exact ⟨_, partsMatch?_part_iff.mpr ⟨id, head, tail, own, others, rfl, hown, hothers, rfl⟩⟩
  | .repeated item after, ⟨hitem, hafter, hrow⟩, v => by
    simp only [Parts.fits_repeated_iff hrow, ← isSome_partsMatch? hafter,
      ← exists_repetitions_iff (isSome_match? hitem), Option.isSome_iff_exists]
    constructor
    · rintro ⟨⟨captures, left⟩, h⟩
      obtain ⟨hlength, others, repetitions, hothers, hitems, -⟩ := partsMatch?_repeated_iff.mp h
      exact ⟨hlength, ⟨repetitions, hitems⟩, _, hothers⟩
    · rintro ⟨hlength, ⟨repetitions, hitems⟩, ⟨others, left⟩, hothers⟩
      exact ⟨_, partsMatch?_repeated_iff.mpr
        ⟨hlength, others, repetitions, hothers, hitems, rfl⟩⟩

end

end Pattern

end Lisp
