/-
# What variables capture

`Pattern.Captured` says by position what a variable stands for after a match: the element at the
place of its part, the rest of the chain if it ends the pattern, and under an ellipsis the row of
what it stands for in each of the elements in the middle.

The matcher keeps the captures of all parts in one list, in which the first entry for a name
counts.  Every name of the pattern has an entry (`isSome_find?_of_match?`), and if none is written
twice the entries of different parts cannot hide one another: looking a name up gives what it
captured (`find?_eq_some_iff`).
-/
import Lisp.Proofs.Matching

namespace Lisp

/-! ## 1. The names of a pattern -/

/-- **The name that a leaf keeps**, if it is a variable. -/
def Leaf.names : Leaf → List String
  | .variable name => [name]
  | .wildcard | .literal _ | .constant _ => []

namespace Pattern

/-- **The names that the parts of a list keep.** -/
def partsNames (parts : Parts) : List String :=
  (partsDepths 0 parts).map (·.1)

/-- **The name that ends a list.** -/
def endingNames (ending : Option Leaf) : List String :=
  (ending.map Leaf.names).getD []

theorem map_fst_leafDepths (depth : Nat) (single : Leaf) :
    (leafDepths depth single).map (·.1) = single.names := by
  cases single <;> rfl

theorem map_fst_endingDepths (depth : Nat) (ending : Option Leaf) :
    ((ending.map (leafDepths depth)).getD []).map (·.1) = endingNames ending := by
  cases ending with
  | none => rfl
  | some last => exact map_fst_leafDepths depth last

mutual

/-- **The names do not depend on the depth** that they stand at. -/
theorem map_fst_depths : ∀ (p : Pattern) (depth : Nat), (p.depths depth).map (·.1) = p.names
  | .leaf single, depth => by
    rw [names, depths, depths, map_fst_leafDepths, map_fst_leafDepths]
  | .list parts ending, depth => by
    rw [names, depths, depths, List.map_append, List.map_append, map_fst_partsDepths,
      map_fst_partsDepths, map_fst_endingDepths, map_fst_endingDepths]

theorem map_fst_partsDepths :
    ∀ (parts : Parts) (depth : Nat), (partsDepths depth parts).map (·.1) = partsNames parts
  | .stop, _ => rfl
  | .part first rest, depth => by
    rw [partsNames, partsDepths, partsDepths, List.map_append, List.map_append,
      map_fst_partsDepths rest depth, map_fst_partsDepths rest 0, map_fst_depths first depth,
      map_fst_depths first 0]
  | .repeated item after, depth => by
    rw [partsNames, partsDepths, partsDepths, List.map_append, List.map_append,
      map_fst_partsDepths after depth, map_fst_partsDepths after 0, map_fst_depths item (depth + 1),
      map_fst_depths item 1]

end

@[simp] theorem names_leaf (single : Leaf) : (leaf single).names = single.names := by
  rw [names, depths, map_fst_leafDepths]

@[simp] theorem names_list (parts : Parts) (ending : Option Leaf) :
    (list parts ending).names = endingNames ending ++ partsNames parts := by
  rw [names, depths, List.map_append, map_fst_endingDepths, partsNames]

@[simp] theorem partsNames_stop : partsNames .stop = [] := rfl

@[simp] theorem partsNames_part (first : Pattern) (rest : Parts) :
    partsNames (.part first rest) = partsNames rest ++ first.names := by
  rw [partsNames, partsDepths, List.map_append, map_fst_depths, partsNames]

@[simp] theorem partsNames_repeated (item : Pattern) (after : Parts) :
    partsNames (.repeated item after) = partsNames after ++ item.names := by
  rw [partsNames, partsDepths, List.map_append, map_fst_depths, partsNames]

/-- **No name is written twice.** -/
def Linear (p : Pattern) : Prop :=
  p.names.Nodup

end Pattern

section Written

variable {literals : List String}

/-- **A symbol that can be a variable.** -/
def MayVary (literals : List String) (name : String) : Prop :=
  name ∉ literals ∧ name ≠ ellipsis

theorem mem_leafNames_iff {v : Value} {single : Leaf} (hv : v.Indivisible)
    (h : Pattern.compileLeaf literals v = .ok single) (hwild : ¬ v.Mentions wildcard)
    (x : String) : x ∈ single.names ↔ v.Mentions x ∧ MayVary literals x := by
  rw [Value.mentions_of_indivisible hv] at hwild ⊢
  rcases compileLeaf_cases h with ⟨name, hname, hdots, hcases⟩ | ⟨hname, rfl⟩
  · rw [hname] at hwild
    rw [hname, Option.some.injEq]
    rcases hcases with ⟨rfl, -⟩ | ⟨hliteral, rfl⟩ | ⟨hliteral, rfl⟩
    · exact absurd rfl hwild
    · refine iff_of_false List.not_mem_nil ?_
      rintro ⟨rfl, hfree, -⟩
      exact hfree hliteral
    · rw [Leaf.names, List.mem_singleton]
      constructor
      · rintro rfl
        exact ⟨rfl, hliteral, hdots⟩
      · rintro ⟨rfl, -⟩
        rfl
  · simp [Leaf.names, hname]

mutual

/-- **The names of a pattern are the symbols written in it**, but for literals and ellipses. -/
theorem Compiles.mem_names_iff : ∀ {v : Value} {p : Pattern}, Compiles literals v p →
    ¬ v.Mentions wildcard → ∀ x, x ∈ p.names ↔ v.Mentions x ∧ MayVary literals x
  | _, _, .leaf hv hsingle, hwild, x => by
    rw [Pattern.names_leaf]
    exact mem_leafNames_iff hv hsingle hwild x
  | _, _, .list _ hparts, hwild, x => by
    rw [Pattern.names_list, List.mem_append, or_comm]
    exact hparts.mem_names_iff hwild x

theorem CompilesParts.mem_names_iff : ∀ {seen : Bool} {v : Value} {parts : Parts}
    {ending : Option Leaf}, CompilesParts literals seen v parts ending → ¬ v.Mentions wildcard →
      ∀ x, x ∈ Pattern.partsNames parts ∨ x ∈ Pattern.endingNames ending ↔
        v.Mentions x ∧ MayVary literals x
  | _, _, _, _, .nil, _, x => by simp [Pattern.endingNames, Value.Mentions]
  | _, _, _, _, .ending hv hsingle, hwild, x => by
    have hleaf := mem_leafNames_iff hv hsingle hwild x
    simpa [Pattern.endingNames] using hleaf
  | _, _, _, _, .part hhead _ hrest, hwild, x => by
    have hfirst := hhead.mem_names_iff (fun h => hwild (.inl h)) x
    have hothers := hrest.mem_names_iff (fun h => hwild (.inr h)) x
    rw [Pattern.partsNames_part, List.mem_append, or_right_comm, hothers, hfirst, ← or_and_right,
      Value.Mentions, or_comm]
  | _, _, _, _, .repeated hhead htail hrest, hwild, x => by
    obtain ⟨_, dots, rfl, hdots⟩ := Value.afterEllipsis?_eq_some_iff.mp htail
    have hitem := hhead.mem_names_iff (fun h => hwild (.inl h)) x
    have hothers := hrest.mem_names_iff (fun h => hwild (.inr (.inr h))) x
    rw [Pattern.partsNames_repeated, List.mem_append, or_right_comm, hothers, hitem,
      ← or_and_right]
    have hellipsis : dots.Mentions x ↔ x = ellipsis := by
      cases dots with
      | atom id value =>
        cases value <;> simp_all [Value.isSymbolNamed, Value.symbol?, Value.Mentions]
      | _ => simp [Value.isSymbolNamed, Value.symbol?] at hdots
    refine and_congr_left fun hvary => ?_
    rw [Value.Mentions, Value.Mentions, hellipsis, or_iff_right hvary.2, or_comm]

end

end Written

/-! ## 2. What stands at the place of a name -/

namespace Pattern

/-- **What the name `x` captures in a match.** -/
inductive Captured (x : String) : Pattern → Value → Capture → Prop where
  | variable {v} : Captured x (.leaf (.variable x)) v (.one v)
  /-- In the element at the same place from the front. -/
  | fixed {parts ending v p e capture} (hplace : (p, e) ∈ parts.fixed.zip v.elements)
    (h : Captured x p e capture) : Captured x (.list parts ending) v capture
  /-- Under the ellipsis, once for every element in the middle. -/
  | repeated {parts ending v item after front middle back captures}
    (hparts : parts.repetition? = some (item, after))
    (hdivides : parts.Divides after v front middle back) (hname : x ∈ item.names)
    (hlength : middle.length = captures.length)
    (h : ∀ {e c}, (e, c) ∈ middle.zip captures → Captured x item e c) :
    Captured x (.list parts ending) v (.many captures)
  /-- In the element at the same place from the back. -/
  | after {parts ending v item after front middle back p e capture}
    (hparts : parts.repetition? = some (item, after))
    (hdivides : parts.Divides after v front middle back) (hplace : (p, e) ∈ after.zip back)
    (h : Captured x p e capture) : Captured x (.list parts ending) v capture
  /-- As the end of the list, what is left of the chain. -/
  | ending {parts v} : Captured x (.list parts (some (.variable x))) v
    (.rest (parts.remainder v).elements (parts.remainder v).ending)

/-- **What the name captures in the parts alone.** -/
def PartsCaptured (x : String) (parts : Parts) (v : Value) (capture : Capture) : Prop :=
  Captured x (.list parts none) v capture

variable {x : String} {v : Value} {capture : Capture}

theorem captured_leaf_iff {single : Leaf} :
    Captured x (.leaf single) v capture ↔ single = .variable x ∧ capture = .one v := by
  constructor
  · rintro ⟨⟩
    exact ⟨rfl, rfl⟩
  · rintro ⟨rfl, rfl⟩
    exact .variable

theorem captured_list_iff {parts : Parts} {ending : Option Leaf} :
    Captured x (.list parts ending) v capture ↔
      PartsCaptured x parts v capture ∨ ending = some (.variable x) ∧
        capture = .rest (parts.remainder v).elements (parts.remainder v).ending := by
  constructor
  · intro h
    cases h with
    | fixed hplace h => exact .inl (.fixed hplace h)
    | repeated hparts hdivides hname hlength h =>
      exact .inl (.repeated hparts hdivides hname hlength h)
    | after hparts hdivides hplace h => exact .inl (.after hparts hdivides hplace h)
    | ending => exact .inr ⟨rfl, rfl⟩
  · rintro (h | ⟨rfl, rfl⟩)
    · cases h with
      | fixed hplace h => exact .fixed hplace h
      | repeated hparts hdivides hname hlength h => exact .repeated hparts hdivides hname hlength h
      | after hparts hdivides hplace h => exact .after hparts hdivides hplace h
    · exact .ending

theorem not_captured_stop : ¬ PartsCaptured x .stop v capture := by
  intro h
  cases h with
  | fixed hplace => cases hplace
  | repeated hparts | after hparts => cases hparts

/-- **In front**: in the first element, or further on. -/
theorem captured_part_iff {first : Pattern} {rest : Parts} {id : Nat} {head tail : Value} :
    PartsCaptured x (.part first rest) (.pair id head tail) capture ↔
      Captured x first head capture ∨ PartsCaptured x rest tail capture := by
  constructor
  · intro h
    cases h with
    | fixed hplace h =>
      rcases List.mem_cons.mp hplace with hfirst | hplace
      · obtain ⟨rfl, rfl⟩ := Prod.mk.inj hfirst
        exact .inl h
      · exact .inr (.fixed hplace h)
    | @repeated _ _ _ _ _ front _ _ _ hparts hdivides hname hlength h =>
      obtain ⟨helements, hfront, hback⟩ := hdivides
      obtain ⟨e, front, rfl⟩ := List.exists_cons_of_length_eq_add_one hfront
      exact .inr (.repeated hparts ⟨(List.cons.inj helements).2, Nat.succ.inj hfront, hback⟩
        hname hlength h)
    | @after _ _ _ _ _ front _ _ _ _ _ hparts hdivides hplace h =>
      obtain ⟨helements, hfront, hback⟩ := hdivides
      obtain ⟨e, front, rfl⟩ := List.exists_cons_of_length_eq_add_one hfront
      exact .inr (.after hparts ⟨(List.cons.inj helements).2, Nat.succ.inj hfront, hback⟩ hplace h)
  · have longer : ∀ {after front middle back}, rest.Divides after tail front middle back →
        (Parts.part first rest).Divides after (.pair id head tail) (head :: front) middle back :=
      fun ⟨helements, hfront, hback⟩ =>
        ⟨congrArg (head :: ·) helements, congrArg (· + 1) hfront, hback⟩
    rintro (h | h)
    · exact .fixed List.mem_cons_self h
    · cases h with
      | fixed hplace h => exact .fixed (List.mem_cons_of_mem _ hplace) h
      | repeated hparts hdivides hname hlength h =>
        exact .repeated hparts (longer hdivides) hname hlength h
      | after hparts hdivides hplace h => exact .after hparts (longer hdivides) hplace h

/-- **Under the ellipsis and after it**: the last elements belong to the parts after it, and all
the others to the repeated part. -/
theorem captured_repeated_iff {item : Pattern} {after : Parts}
    (hafter : after.hasEllipsis = false) (hlength : after.count ≤ v.elements.length) :
    PartsCaptured x (.repeated item after) v capture ↔
      (x ∈ item.names ∧ ∃ captures, capture = .many captures ∧ List.Forall₂ (Captured x item)
        (v.elements.take (v.elements.length - after.count)) captures) ∨
      PartsCaptured x after (v.drop (v.elements.length - after.count)) capture := by
  have hrow : after.repetition? = none := (Parts.repetition?_eq_none_iff after).mpr hafter
  have hdivided : (Parts.repeated item after).Divides after.fixed v [] _ _ :=
    (Parts.divides_repeated_iff hafter hlength).mpr ⟨rfl, rfl, rfl⟩
  constructor
  · intro h
    cases h with
    | fixed hplace => cases hplace
    | repeated hparts hdivides hname hcount h =>
      cases hparts
      obtain ⟨-, rfl, rfl⟩ := (Parts.divides_repeated_iff hafter hlength).mp hdivides
      exact .inl ⟨hname, _, rfl, List.forall₂_iff_zip.mpr ⟨hcount, h⟩⟩
    | after hparts hdivides hplace h =>
      cases hparts
      obtain ⟨-, rfl, rfl⟩ := (Parts.divides_repeated_iff hafter hlength).mp hdivides
      exact .inr (.fixed hplace h)
  · rintro (⟨hname, captures, rfl, h⟩ | h)
    · obtain ⟨hcount, h⟩ := List.forall₂_iff_zip.mp h
      exact .repeated rfl hdivided hname hcount h
    · cases h with
      | fixed hplace h => exact .after rfl hdivided hplace h
      | repeated hparts | after hparts => rw [hrow] at hparts; cases hparts

end Pattern

/-! ## 3. Lists of captures -/

theorem isSome_lookup_iff {α : Type} (entries : List (String × α)) (name : String) :
    (entries.lookup name).isSome ↔ name ∈ entries.map (·.1) := by
  simp only [List.lookup_isSome_iff, beq_iff_eq, List.mem_map]
  exact exists_congr fun entry => and_congr_right fun _ => eq_comm

theorem mem_of_lookup_eq_some {α : Type} {entries : List (String × α)} {name : String} {a : α}
    (h : entries.lookup name = some a) : (name, a) ∈ entries := by
  obtain ⟨before, after, rfl, -⟩ := List.lookup_eq_some_iff.mp h
  simp

namespace Captures

/-- **Where no name is in both**, the entries of either count. -/
theorem find?_append_iff {a b : Captures} {x : String} {c : Capture}
    (hdisjoint : (a.find? x).isSome → ¬ (b.find? x).isSome) :
    (a ++ b).find? x = some c ↔ a.find? x = some c ∨ b.find? x = some c := by
  rw [find?, List.lookup_append, ← find?, ← find?]
  cases ha : a.find? x with
  | none => simp
  | some d =>
    have hb : b.find? x = none := by simpa [ha] using hdisjoint
    simp [hb]

theorem find?_append_of_none {a b : Captures} {x : String} (h : b.find? x = none) :
    (a ++ b).find? x = a.find? x := by
  rw [find?, List.lookup_append, ← find?, ← find?, h, Option.or_none]

theorem find?_append_of_none_left {a b : Captures} {x : String} (h : a.find? x = none) :
    (a ++ b).find? x = b.find? x := by
  rw [find?, List.lookup_append, ← find?, ← find?, h, Option.none_or]

theorem find?_gather (names : List String) (repetitions : List Captures) (x : String) :
    (gather names repetitions).find? x =
      if x ∈ names then some (.many (repetitions.filterMap (find? · x))) else none := by
  induction names with
  | nil => rfl
  | cons name names ih =>
    rw [gather, find?, List.map_cons, List.lookup_cons]
    by_cases hx : x = name
    · simp [hx]
    · rw [← gather, ← find?, ih]
      simp [hx, beq_false_of_ne hx]

end Captures

namespace Pattern

/-- **What a leaf captures**: the value, under the name of a variable. -/
theorem find?_leafMatch? {single : Leaf} {v : Value} {captures : Captures}
    (h : leafMatch? single v = some captures) (x : String) (c : Capture) :
    captures.find? x = some c ↔ single = .variable x ∧ c = .one v := by
  cases single with
  | «variable» name =>
    cases h
    by_cases hx : x = name
    · simp [Captures.find?, hx, eq_comm]
    · simp [Captures.find?, List.lookup_cons, hx, beq_false_of_ne hx, eq_comm]
  | wildcard =>
    cases h
    simp [Captures.find?]
  | literal name =>
    obtain ⟨-, rfl⟩ : v.isSymbolNamed name ∧ [] = captures := by simpa [leafMatch?] using h
    simp [Captures.find?]
  | constant value =>
    obtain ⟨-, rfl⟩ : v.equal value ∧ [] = captures := by simpa [leafMatch?] using h
    simp [Captures.find?]

/-- At the end of a list only a variable is matched in a way of its own. -/
theorem endingMatch?_some_cases {last : Leaf} {v : Value} {captures : Captures}
    (h : endingMatch? (some last) v = some captures) :
    (∃ name, last = .variable name ∧ captures = [(name, .rest v.elements v.ending)]) ∨
      (∀ name, last ≠ .variable name) ∧ leafMatch? last v = some captures := by
  cases last with
  | «variable» name => exact .inl ⟨name, rfl, by simpa [endingMatch?] using h.symm⟩
  | wildcard | literal | constant => exact .inr ⟨fun _ heq => (by cases heq), h⟩

/-- **What the end of a list captures**: what is left of the chain. -/
theorem find?_endingMatch? {ending : Option Leaf} {v : Value} {captures : Captures}
    (h : endingMatch? ending v = some captures) (x : String) (c : Capture) :
    captures.find? x = some c ↔
      ending = some (.variable x) ∧ c = .rest v.elements v.ending := by
  cases ending with
  | none =>
    obtain ⟨-, rfl⟩ : v.isNil ∧ [] = captures := by simpa [endingMatch?] using h
    simp [Captures.find?]
  | some last =>
    rcases endingMatch?_some_cases h with ⟨name, rfl, rfl⟩ | ⟨hlast, hleaf⟩
    · by_cases hx : x = name
      · simp [Captures.find?, hx, eq_comm]
      · simp [Captures.find?, List.lookup_cons, hx, beq_false_of_ne hx, eq_comm]
    · rw [find?_leafMatch? hleaf]
      simp [hlast x]

theorem map_fst_leafMatch? {single : Leaf} {v : Value} {captures : Captures}
    (h : leafMatch? single v = some captures) : captures.map (·.1) = single.names := by
  cases single with
  | «variable» | wildcard =>
    cases h
    rfl
  | literal name =>
    obtain ⟨-, rfl⟩ : v.isSymbolNamed name ∧ [] = captures := by simpa [leafMatch?] using h
    rfl
  | constant value =>
    obtain ⟨-, rfl⟩ : v.equal value ∧ [] = captures := by simpa [leafMatch?] using h
    rfl

theorem map_fst_endingMatch? {ending : Option Leaf} {v : Value} {captures : Captures}
    (h : endingMatch? ending v = some captures) : captures.map (·.1) = endingNames ending := by
  cases ending with
  | none =>
    obtain ⟨-, rfl⟩ : v.isNil ∧ [] = captures := by simpa [endingMatch?] using h
    rfl
  | some last =>
    rcases endingMatch?_some_cases h with ⟨name, rfl, rfl⟩ | ⟨-, hleaf⟩
    · rfl
    · exact map_fst_leafMatch? hleaf

mutual

/-- **Every name of a pattern has an entry**, and no other name has. -/
theorem mem_map_fst_match?_iff : ∀ {p : Pattern} {v : Value} {captures : Captures},
    p.match? v = some captures → ∀ x, x ∈ captures.map (·.1) ↔ x ∈ p.names
  | .leaf single, v, captures, h, x => by
    rw [map_fst_leafMatch? h, names_leaf]
  | .list parts ending, v, captures, h, x => by
    obtain ⟨own, left, last, hparts, hlast, rfl⟩ := match?_list_iff.mp h
    have hown := mem_map_fst_partsMatch?_iff hparts x
    rw [names_list, List.mem_append, ← map_fst_endingMatch? hlast, ← hown]
    split <;> simp [or_comm]

theorem mem_map_fst_partsMatch?_iff : ∀ {parts : Parts} {v left : Value} {captures : Captures},
    partsMatch? parts v = some (captures, left) →
      ∀ x, x ∈ captures.map (·.1) ↔ x ∈ partsNames parts
  | .stop, v, left, captures, h, x => by
    obtain ⟨rfl, -⟩ : [] = captures ∧ v = left := by simpa [partsMatch?] using h
    rfl
  | .part first rest, v, left, captures, h, x => by
    obtain ⟨id, head, tail, own, others, rfl, hown, hothers, rfl⟩ := partsMatch?_part_iff.mp h
    rw [List.map_append, List.mem_append, mem_map_fst_match?_iff hown x,
      mem_map_fst_partsMatch?_iff hothers x, partsNames_part, List.mem_append]
  | .repeated item after, v, left, captures, h, x => by
    obtain ⟨-, others, repetitions, hothers, -, rfl⟩ := partsMatch?_repeated_iff.mp h
    rw [List.map_append, List.mem_append, mem_map_fst_partsMatch?_iff hothers x,
      partsNames_repeated, List.mem_append, or_comm]
    simp [Captures.gather, Function.comp_def]

end

theorem isSome_find?_of_match? {p : Pattern} {v : Value} {captures : Captures}
    (h : p.match? v = some captures) (x : String) : (captures.find? x).isSome ↔ x ∈ p.names := by
  rw [Captures.find?, isSome_lookup_iff, mem_map_fst_match?_iff h]

theorem isSome_find?_of_partsMatch? {parts : Parts} {v left : Value} {captures : Captures}
    (h : partsMatch? parts v = some (captures, left)) (x : String) :
    (captures.find? x).isSome ↔ x ∈ partsNames parts := by
  rw [Captures.find?, isSome_lookup_iff, mem_map_fst_partsMatch?_iff h]

theorem isSome_find?_of_endingMatch? {ending : Option Leaf} {v : Value} {captures : Captures}
    (h : endingMatch? ending v = some captures) (x : String) :
    (captures.find? x).isSome ↔ x ∈ endingNames ending := by
  rw [Captures.find?, isSome_lookup_iff, map_fst_endingMatch? h]

/-! ## 4. Which part a name is looked up in -/

/-- **In a list without a repeated name** the parts and the end are looked up apart, in whichever
order their captures stand. -/
theorem find?_of_list {parts : Parts} {ending : Option Leaf} (hlinear : (list parts ending).Linear)
    {v left : Value} {own last : Captures} (hparts : partsMatch? parts v = some (own, left))
    (hlast : endingMatch? ending left = some last) :
    (∀ x ∈ partsNames parts, Captures.find?
      (if parts.hasEllipsis then own ++ last else last ++ own) x = own.find? x) ∧
    (∀ x ∈ endingNames ending, Captures.find?
      (if parts.hasEllipsis then own ++ last else last ++ own) x = last.find? x) := by
  rw [Linear, names_list] at hlinear
  obtain ⟨-, -, hdisjoint⟩ := List.nodup_append.mp hlinear
  have hlastNone : ∀ x ∈ partsNames parts, last.find? x = none := fun x hx => by
    rw [← Option.not_isSome_iff_eq_none, isSome_find?_of_endingMatch? hlast]
    exact fun hx' => hdisjoint x hx' x hx rfl
  have hownNone : ∀ x ∈ endingNames ending, own.find? x = none := fun x hx => by
    rw [← Option.not_isSome_iff_eq_none, isSome_find?_of_partsMatch? hparts]
    exact fun hx' => hdisjoint x hx x hx' rfl
  split
  · exact ⟨fun x hx => Captures.find?_append_of_none (hlastNone x hx),
      fun x hx => Captures.find?_append_of_none_left (hownNone x hx)⟩
  · exact ⟨fun x hx => Captures.find?_append_of_none_left (hlastNone x hx),
      fun x hx => Captures.find?_append_of_none (hownNone x hx)⟩

/-- **So are the first part and the rest.** -/
theorem find?_of_part {first : Pattern} {rest : Parts}
    (hlinear : (partsNames (.part first rest)).Nodup) {head tail left : Value}
    {own others : Captures} (hfirst : first.match? head = some own)
    (hrest : partsMatch? rest tail = some (others, left)) :
    (∀ x ∈ first.names, Captures.find? (others ++ own) x = own.find? x) ∧
    (∀ x ∈ partsNames rest, Captures.find? (others ++ own) x = others.find? x) := by
  rw [partsNames_part] at hlinear
  obtain ⟨-, -, hdisjoint⟩ := List.nodup_append.mp hlinear
  refine ⟨fun x hx => Captures.find?_append_of_none_left ?_,
    fun x hx => Captures.find?_append_of_none ?_⟩
  · rw [← Option.not_isSome_iff_eq_none, isSome_find?_of_partsMatch? hrest]
    exact fun hx' => hdisjoint x hx' x hx rfl
  · rw [← Option.not_isSome_iff_eq_none, isSome_find?_of_match? hfirst]
    exact fun hx' => hdisjoint x hx x hx' rfl

/-- **So are the repeated part and the parts after it.** -/
theorem find?_of_repeated {item : Pattern} {after : Parts}
    (hlinear : (partsNames (.repeated item after)).Nodup) {v left : Value} {others : Captures}
    (hafter : partsMatch? after v = some (others, left)) (repetitions : List Captures) :
    (∀ x ∈ item.names, Captures.find? (Captures.gather item.names repetitions ++ others) x =
      (Captures.gather item.names repetitions).find? x) ∧
    (∀ x ∈ partsNames after, Captures.find? (Captures.gather item.names repetitions ++ others) x =
      others.find? x) := by
  rw [partsNames_repeated] at hlinear
  obtain ⟨-, -, hdisjoint⟩ := List.nodup_append.mp hlinear
  refine ⟨fun x hx => Captures.find?_append_of_none ?_,
    fun x hx => Captures.find?_append_of_none_left ?_⟩
  · rw [← Option.not_isSome_iff_eq_none, isSome_find?_of_partsMatch? hafter]
    exact fun hx' => hdisjoint x hx' x hx rfl
  · rw [Captures.find?_gather, if_neg fun hx' => hdisjoint x hx x hx' rfl]

/-! ## 5. Looking a name up -/

/-- **A row of repetitions**: what a name captured each time. -/
theorem filterMap_find?_iff {item : Pattern} {es : List Value} {repetitions : List Captures}
    {x : String} (hx : x ∈ item.names)
    (hitem : ∀ {v captures}, item.match? v = some captures →
      ∀ c, captures.find? x = some c ↔ Captured x item v c)
    (hrepetitions : List.Forall₂ (fun e r => item.match? e = some r) es repetitions)
    (cs : List Capture) :
    repetitions.filterMap (Captures.find? · x) = cs ↔ List.Forall₂ (Captured x item) es cs := by
  induction hrepetitions generalizing cs with
  | nil => simp [eq_comm]
  | @cons e r es repetitions hr _ ih =>
    obtain ⟨c, hc⟩ := Option.isSome_iff_exists.mp ((isSome_find?_of_match? hr x).mpr hx)
    have hunique : ∀ d, Captured x item e d ↔ c = d := fun d => by
      rw [← hitem hr, hc, Option.some.injEq]
    have hcons : (r :: repetitions).filterMap (Captures.find? · x) =
        c :: repetitions.filterMap (Captures.find? · x) := by
      rw [List.filterMap_cons, hc]
    rw [hcons, List.forall₂_cons_left_iff]
    constructor
    · rintro rfl
      exact ⟨c, _, (hunique c).mpr rfl, (ih _).mp rfl, rfl⟩
    · rintro ⟨d, ds, hd, hds, rfl⟩
      rw [(ih ds).mpr hds, (hunique d).mp hd]

theorem find?_gather_iff {item : Pattern} {es : List Value} {repetitions : List Captures}
    {x : String}
    (hitem : ∀ {v captures}, item.match? v = some captures →
      ∀ c, captures.find? x = some c ↔ Captured x item v c)
    (hrepetitions : List.Forall₂ (fun e r => item.match? e = some r) es repetitions)
    (c : Capture) :
    (Captures.gather item.names repetitions).find? x = some c ↔
      x ∈ item.names ∧ ∃ captures, c = .many captures ∧
        List.Forall₂ (Captured x item) es captures := by
  rw [Captures.find?_gather]
  by_cases hx : x ∈ item.names
  · have hrow := fun cs => filterMap_find?_iff hx hitem hrepetitions cs
    rw [if_pos hx, Option.some.injEq]
    constructor
    · rintro rfl
      exact ⟨hx, _, rfl, (hrow _).mp rfl⟩
    · rintro ⟨-, captures, rfl, hcaptures⟩
      rw [(hrow captures).mpr hcaptures]
  · simp [hx]

mutual

/-- **Looking up a name gives what it captured**, if no name is written twice. -/
theorem find?_eq_some_iff : ∀ {p : Pattern}, p.Single → p.Linear → ∀ {v : Value}
    {captures : Captures}, p.match? v = some captures →
      ∀ x c, captures.find? x = some c ↔ Captured x p v c
  | .leaf single, _, _, v, captures, h, x, c => by
    rw [find?_leafMatch? h, captured_leaf_iff]
  | .list parts ending, hsingle, hlinear, v, captures, h, x, c => by
    rw [Linear, names_list] at hlinear
    obtain ⟨-, hnodup, hdisjoint⟩ := List.nodup_append.mp hlinear
    obtain ⟨own, left, last, hparts, hlast, rfl⟩ := match?_list_iff.mp h
    have hown := find?_eq_some_iff_of_partsMatch? hsingle hnodup hparts x c
    have hending := find?_endingMatch? hlast x c
    rw [left_of_partsMatch? hsingle hparts] at hending
    rw [captured_list_iff, ← hown, ← hending]
    -- the two lists of captures have no name in common, so their order does not matter
    have hboth : ¬ ((own.find? x).isSome ∧ (last.find? x).isSome) := by
      rw [isSome_find?_of_partsMatch? hparts, isSome_find?_of_endingMatch? hlast]
      exact fun ⟨hx, hx'⟩ => hdisjoint x hx' x hx rfl
    split
    · exact Captures.find?_append_iff fun hx hx' => hboth ⟨hx, hx'⟩
    · rw [or_comm]
      exact Captures.find?_append_iff fun hx hx' => hboth ⟨hx', hx⟩

/-- **The same for the parts of a list.** -/
theorem find?_eq_some_iff_of_partsMatch? : ∀ {parts : Parts}, parts.Single →
    (partsNames parts).Nodup → ∀ {v left : Value} {captures : Captures},
      partsMatch? parts v = some (captures, left) →
        ∀ x c, captures.find? x = some c ↔ PartsCaptured x parts v c
  | .stop, _, _, v, left, captures, h, x, c => by
    obtain ⟨rfl, -⟩ : [] = captures ∧ v = left := by simpa [partsMatch?] using h
    simp [Captures.find?, not_captured_stop]
  | .part first rest, hsingle, hlinear, v, left, captures, h, x, c => by
    rw [partsNames_part] at hlinear
    obtain ⟨hrest, hfirst, hdisjoint⟩ := List.nodup_append.mp hlinear
    obtain ⟨id, head, tail, own, others, rfl, hown, hothers, rfl⟩ := partsMatch?_part_iff.mp h
    rw [captured_part_iff, ← find?_eq_some_iff hsingle.1 hfirst hown,
      ← find?_eq_some_iff_of_partsMatch? hsingle.2 hrest hothers, or_comm]
    refine Captures.find?_append_iff fun hx hx' => ?_
    rw [isSome_find?_of_partsMatch? hothers] at hx
    rw [isSome_find?_of_match? hown] at hx'
    exact hdisjoint x hx x hx' rfl
  | .repeated item after, hsingle, hlinear, v, left, captures, h, x, c => by
    rw [partsNames_repeated] at hlinear
    obtain ⟨hafter, hitem, hdisjoint⟩ := List.nodup_append.mp hlinear
    obtain ⟨hlength, others, repetitions, hothers, hitems, rfl⟩ := partsMatch?_repeated_iff.mp h
    rw [captured_repeated_iff hsingle.2.2 hlength,
      ← find?_eq_some_iff_of_partsMatch? hsingle.2.1 hafter hothers]
    rw [← find?_gather_iff (fun h => find?_eq_some_iff hsingle.1 hitem h x) hitems]
    refine Captures.find?_append_iff fun hx hx' => ?_
    rw [isSome_find?_of_partsMatch? hothers] at hx'
    obtain ⟨d, hd⟩ := Option.isSome_iff_exists.mp hx
    rw [find?_gather_iff (fun h => find?_eq_some_iff hsingle.1 hitem h x) hitems] at hd
    exact hdisjoint x hx' x hd.1 rfl

end

end Pattern

end Lisp
