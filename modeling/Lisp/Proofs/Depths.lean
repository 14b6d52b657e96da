/-
# How deep captures are

A variable that stands under ellipses in the pattern captures rows of rows, as many deep as there
are ellipses.  Where a name is written twice it depends on the place that counts, and this is not
the same place for the table of depths and for the matcher: the table keeps the place written last,
while the matcher, in a list with an ellipsis, looks at what ends the list first and at the repeated
part last.  `Pattern.capturedDepths` is the table in the order of the matcher, and that one is right
about every capture (`Pattern.runDeep_of_match?`).

The two tables have the same entries (`Pattern.capturedDepths_perm`).  So they agree about a name
whose places are all equally deep, and in particular about all names of a pattern that writes none
of them twice (`Pattern.hasDepth_of_find?`).
-/
import Lisp.Proofs.Capturing
import Mathlib.Data.List.Nodup

namespace Lisp

/-- **How many ellipses a capture has to go.** -/
inductive Capture.HasDepth : Capture → Nat → Prop where
  | one (value : Value) : Capture.HasDepth (.one value) 0
  | rest (elements : List Value) (ending : Value) : Capture.HasDepth (.rest elements ending) 0
  | many {items : List Capture} {depth : Nat} (h : ∀ item ∈ items, Capture.HasDepth item depth) :
    Capture.HasDepth (.many items) (depth + 1)

/-! ## 1. The entries of the table -/

/-- What goes with an element of the second of two rows. -/
theorem exists_of_mem_forall₂ {α β : Type} {R : α → β → Prop} {as : List α} {bs : List β}
    (h : List.Forall₂ R as bs) {b : β} (hb : b ∈ bs) : ∃ a, R a b := by
  induction h with
  | nil => cases hb
  | cons hab _ ih =>
    rcases List.mem_cons.mp hb with rfl | hb
    · exact ⟨_, hab⟩
    · exact ih hb

namespace Pattern

theorem mem_leafDepths_iff {single : Leaf} {depth e : Nat} {x : String} :
    (x, e) ∈ leafDepths depth single ↔ single = .variable x ∧ e = depth := by
  cases single <;> simp [leafDepths, eq_comm]

theorem mem_endingDepths_iff {ending : Option Leaf} {depth e : Nat} {x : String} :
    (x, e) ∈ (ending.map (leafDepths depth)).getD [] ↔
      ending = some (.variable x) ∧ e = depth := by
  cases ending with
  | none => simp
  | some last => simpa using mem_leafDepths_iff

mutual

/-- A name stands under the ellipses around the pattern at least. -/
theorem le_of_mem_depths : ∀ {p : Pattern} {depth e : Nat} {x : String},
    (x, e) ∈ p.depths depth → depth ≤ e
  | .leaf single, depth, e, x, h => Nat.le_of_eq (mem_leafDepths_iff.mp h).2.symm
  | .list parts ending, depth, e, x, h => by
    rcases List.mem_append.mp h with h | h
    · exact Nat.le_of_eq (mem_endingDepths_iff.mp h).2.symm
    · exact le_of_mem_partsDepths h

theorem le_of_mem_partsDepths : ∀ {parts : Parts} {depth e : Nat} {x : String},
    (x, e) ∈ partsDepths depth parts → depth ≤ e
  | .stop, _, _, _, h => by simp [partsDepths] at h
  | .part first rest, depth, e, x, h => by
    rcases List.mem_append.mp h with h | h
    · exact le_of_mem_partsDepths h
    · exact le_of_mem_depths h
  | .repeated item after, depth, e, x, h => by
    rcases List.mem_append.mp h with h | h
    · exact le_of_mem_partsDepths h
    · exact Nat.le_of_succ_le (le_of_mem_depths h)

end

/-! ## 2. The table in the order of the matcher -/

mutual

/-- **The variables of a pattern** under `depth` ellipses, the one that the matcher looks at last
first. -/
def capturedDepths (depth : Nat) : Pattern → Depths
  | .leaf single => leafDepths depth single
  | .list parts ending =>
    let last := (ending.map (leafDepths depth)).getD []
    if parts.hasEllipsis then partsCapturedDepths depth parts ++ last
    else last ++ partsCapturedDepths depth parts

def partsCapturedDepths (depth : Nat) : Parts → Depths
  | .stop => []
  | .part first rest => partsCapturedDepths depth rest ++ capturedDepths depth first
  | .repeated item after => capturedDepths (depth + 1) item ++ partsCapturedDepths depth after

end

mutual

/-- **It has the entries of the other table**, in another order. -/
theorem capturedDepths_perm : ∀ (p : Pattern) (depth : Nat),
    (p.capturedDepths depth).Perm (p.depths depth)
  | .leaf _, _ => .refl _
  | .list parts ending, depth => by
    have hparts := partsCapturedDepths_perm parts depth
    rw [capturedDepths, depths]
    split
    · exact (hparts.append_right _).trans List.perm_append_comm
    · exact hparts.append_left _

theorem partsCapturedDepths_perm : ∀ (parts : Parts) (depth : Nat),
    (partsCapturedDepths depth parts).Perm (partsDepths depth parts)
  | .stop, _ => .refl _
  | .part first rest, depth =>
    (partsCapturedDepths_perm rest depth).append (capturedDepths_perm first depth)
  | .repeated item after, depth =>
    List.perm_append_comm.trans
      ((partsCapturedDepths_perm after depth).append (capturedDepths_perm item (depth + 1)))

end

theorem mem_capturedDepths_iff {p : Pattern} {depth e : Nat} {x : String} :
    (x, e) ∈ p.capturedDepths depth ↔ (x, e) ∈ p.depths depth :=
  (p.capturedDepths_perm depth).mem_iff

end Pattern

/-! ## 3. That table is right about every capture -/

/-- **A table is right about captures**: both have the same names, and what a name captured has as
many ellipses to go as the table says, beyond the `depth` ellipses around the pattern. -/
def Captures.RunDeep (captures : Captures) (depth : Nat) (table : Pattern.Depths) : Prop :=
  ∀ x, Option.Rel (fun c e => depth ≤ e ∧ c.HasDepth (e - depth)) (captures.find? x)
    (table.lookup x)

namespace Captures.RunDeep

variable {a b : Captures} {s t : Pattern.Depths} {depth : Nat}

theorem nil : RunDeep [] depth [] := fun _ => .none

theorem singleton {name : String} {c : Capture} (h : c.HasDepth 0) :
    RunDeep [(name, c)] depth [(name, depth)] := by
  intro x
  by_cases hx : x = name
  · simpa [find?, hx] using h
  · simp [find?, List.lookup_cons, beq_false_of_ne hx]

/-- **What counts first on one side** counts first on the other. -/
theorem append (ha : RunDeep a depth s) (hb : RunDeep b depth t) :
    RunDeep (a ++ b) depth (s ++ t) := by
  intro x
  have hfirst := ha x
  rw [find?] at hfirst ⊢
  rw [List.lookup_append, List.lookup_append]
  revert hfirst
  cases a.lookup x <;> cases s.lookup x <;> intro hfirst
  · exact hb x
  · cases hfirst
  · cases hfirst
  · exact hfirst

end Captures.RunDeep

namespace Pattern

theorem runDeep_leafMatch? {single : Leaf} {v : Value} {captures : Captures}
    (h : leafMatch? single v = some captures) (depth : Nat) :
    captures.RunDeep depth (leafDepths depth single) := by
  cases single with
  | «variable» name =>
    cases h
    exact .singleton (.one v)
  | «wildcard» | literal | constant =>
    obtain rfl : captures = [] := List.map_eq_nil_iff.mp (map_fst_leafMatch? h)
    exact .nil

theorem runDeep_endingMatch? {ending : Option Leaf} {v : Value} {captures : Captures}
    (h : endingMatch? ending v = some captures) (depth : Nat) :
    captures.RunDeep depth ((ending.map (leafDepths depth)).getD []) := by
  cases ending with
  | none =>
    obtain rfl : captures = [] := List.map_eq_nil_iff.mp (map_fst_endingMatch? h)
    exact .nil
  | some last =>
    rcases endingMatch?_some_cases h with ⟨name, rfl, rfl⟩ | ⟨-, hleaf⟩
    · exact .singleton (.rest v.elements v.ending)
    · exact runDeep_leafMatch? hleaf depth

/-- **Under an ellipsis** a name captures the row of what it captures each time, which has one
ellipsis more to go. -/
theorem runDeep_gather {item : Pattern} {repetitions : List Captures} {depth : Nat}
    (h : ∀ r ∈ repetitions, r.RunDeep (depth + 1) (item.capturedDepths (depth + 1))) :
    (Captures.gather item.names repetitions).RunDeep depth (item.capturedDepths (depth + 1)) := by
  intro x
  have hnames : ((item.capturedDepths (depth + 1)).lookup x).isSome ↔ x ∈ item.names := by
    rw [isSome_lookup_iff, ((item.capturedDepths_perm (depth + 1)).map _).mem_iff, map_fst_depths]
  rw [Captures.find?_gather]
  cases he : (item.capturedDepths (depth + 1)).lookup x with
  | none =>
    rw [he] at hnames
    rw [if_neg fun hx => nomatch hnames.mpr hx]
    exact .none
  | some e =>
    rw [he] at hnames
    rw [if_pos (hnames.mp rfl)]
    have hle : depth + 1 ≤ e :=
      le_of_mem_depths (mem_capturedDepths_iff.mp (mem_of_lookup_eq_some he))
    have hstep : e - depth = e - (depth + 1) + 1 := by omega
    refine .some ⟨Nat.le_of_succ_le hle, ?_⟩
    rw [hstep]
    refine .many fun c hc => ?_
    obtain ⟨r, hr, hc⟩ := List.mem_filterMap.mp hc
    have hrow := h r hr x
    rw [hc, he] at hrow
    cases hrow with
    | some hrow => exact hrow.2

mutual

/-- **What a match captures is as deep as the table in the order of the matcher says.** -/
theorem runDeep_of_match? : ∀ {p : Pattern} {v : Value} {captures : Captures},
    p.match? v = some captures → ∀ depth, captures.RunDeep depth (p.capturedDepths depth)
  | .leaf single, v, captures, h, depth => runDeep_leafMatch? h depth
  | .list parts ending, v, captures, h, depth => by
    obtain ⟨own, left, last, hparts, hlast, rfl⟩ := match?_list_iff.mp h
    have hown := runDeep_of_partsMatch? hparts depth
    have hend := runDeep_endingMatch? hlast depth
    rw [capturedDepths]
    split
    · exact hown.append hend
    · exact hend.append hown

theorem runDeep_of_partsMatch? : ∀ {parts : Parts} {v left : Value} {captures : Captures},
    partsMatch? parts v = some (captures, left) →
      ∀ depth, captures.RunDeep depth (partsCapturedDepths depth parts)
  | .stop, v, left, captures, h, depth => by
    obtain ⟨rfl, -⟩ : [] = captures ∧ v = left := by simpa [partsMatch?] using h
    exact .nil
  | .part first rest, v, left, captures, h, depth => by
    obtain ⟨id, head, tail, own, others, rfl, hfirst, hrest, rfl⟩ := partsMatch?_part_iff.mp h
    exact (runDeep_of_partsMatch? hrest depth).append (runDeep_of_match? hfirst depth)
  | .repeated item after, v, left, captures, h, depth => by
    obtain ⟨-, others, repetitions, hafter, hitems, rfl⟩ := partsMatch?_repeated_iff.mp h
    refine .append (runDeep_gather fun r hr => ?_) (runDeep_of_partsMatch? hafter depth)
    obtain ⟨v, hv⟩ := exists_of_mem_forall₂ hitems hr
    exact runDeep_of_match? hv (depth + 1)

end

/-! ## 4. Where the two tables agree -/

/-- **The tables agree about a name whose places are all equally deep.** -/
theorem lookup_capturedDepths {p : Pattern} {depth : Nat} {x : String}
    (h : ∀ e e', (x, e) ∈ p.depths depth → (x, e') ∈ p.depths depth → e = e') :
    (p.capturedDepths depth).lookup x = (p.depths depth).lookup x := by
  have hnames : ((p.capturedDepths depth).lookup x).isSome ↔
      ((p.depths depth).lookup x).isSome := by
    rw [isSome_lookup_iff, isSome_lookup_iff, ((p.capturedDepths_perm depth).map _).mem_iff]
  cases he : (p.capturedDepths depth).lookup x with
  | none =>
    rw [he] at hnames
    exact (Option.not_isSome_iff_eq_none.mp fun hsome => nomatch hnames.mpr hsome).symm
  | some e =>
    rw [he] at hnames
    obtain ⟨e', he'⟩ := Option.isSome_iff_exists.mp (hnames.mp rfl)
    have hmem := mem_capturedDepths_iff.mp (mem_of_lookup_eq_some he)
    rw [he', h e e' hmem (mem_of_lookup_eq_some he')]

/-- **A capture has as many ellipses to go as its name stands under**, if no name is written
twice. -/
theorem hasDepth_of_find? {p : Pattern} (hlinear : p.Linear) {v : Value} {captures : Captures}
    (h : p.match? v = some captures) {depth e : Nat} {x : String} {c : Capture}
    (he : (x, e) ∈ p.depths depth) (hc : captures.find? x = some c) : c.HasDepth (e - depth) := by
  have hdeep := runDeep_of_match? h depth x
  rw [hc] at hdeep
  cases he' : (p.capturedDepths depth).lookup x with
  | none =>
    rw [he'] at hdeep
    cases hdeep
  | some e' =>
    rw [he'] at hdeep
    have hmem := mem_capturedDepths_iff.mp (mem_of_lookup_eq_some he')
    rw [Linear, ← map_fst_depths p depth] at hlinear
    obtain rfl : e = e' := congrArg Prod.snd (List.inj_on_of_nodup_map hlinear he hmem rfl)
    cases hdeep with
    | some hdeep => exact hdeep.2

end Pattern

end Lisp
