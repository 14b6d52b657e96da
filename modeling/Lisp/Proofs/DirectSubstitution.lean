/-
# What a template stands for

`Template.substituteList` goes along a template from left to right and gives up at the first
`sub ...` that it cannot repeat.  What a template stands for can be said without any order of steps
(`Template.Substitutes`): a variable stands for what it captured, `sub ...` for one copy of `sub`
for every index, and every other leaf for itself.  There is one way for this to fail, that somewhere
in the template, in one of the copies, the variables that drive `sub ...` captured rows of different
lengths (`Template.Unequal`).

A template suits a pattern if each variable has as many ellipses in it as in the pattern
(`Template.Suits`).  What carries the induction is that it still does in every copy, where every
variable of `sub` has one ellipsis less around it and one less to go (`Fits.repeated`).  So for such
a template exactly one of the two holds, and instantiating it comes to the same
(`expand_substitutes`).
-/
import Lisp.Proofs.Restoration
import Mathlib.Data.List.Nodup

namespace Lisp

/-! ## 1. Captures in a repetition -/

namespace Captures

/-- **The captures in the copy of `sub` with this index**: each variable of `sub` that captured a
row stands for the capture at that index of its row. -/
def restrict (env : Captures) (sub : Value) (index : Nat) : Captures :=
  choose (env.rows sub) index ++ env

/-- The variables of `sub` that captured a row stand for one capture of it; all other names stand
for what they stood for. -/
theorem find?_restrict (env : Captures) (sub : Value) (index : Nat) (x : String) :
    (∃ items, (x, items) ∈ env.rows sub ∧ (env.restrict sub index).find? x =
      items[index]?.or (env.find? x)) ∨
    ((∀ items, (x, items) ∉ env.rows sub) ∧ (env.restrict sub index).find? x = env.find? x) := by
  let row (name : String) : List Capture := ((env.find? name).bind Capture.items?).getD []
  have hrow : ∀ r ∈ env.rows sub, r.2 = row r.1 := by
    intro r hr
    have hfind := (mem_rows_iff.mp hr).2
    simp [row, hfind, Capture.items?]
  have hchoose := find?_choose hrow index x
  have happend : (env.restrict sub index).find? x =
      ((choose (env.rows sub) index).find? x).or (env.find? x) := by
    rw [restrict, find?, List.lookup_append, ← find?, ← find?]
  rw [happend, hchoose]
  by_cases hx : x ∈ (env.rows sub).map (·.1)
  · obtain ⟨r, hr, rfl⟩ := List.mem_map.mp hx
    refine .inl ⟨r.2, hr, ?_⟩
    rw [if_pos hx, ← hrow r hr]
  · refine .inr ⟨fun items hitems => hx (List.mem_map_of_mem hitems), ?_⟩
    rw [if_neg hx, Option.none_or]

end Captures

/-! ## 2. The tree that a template stands for -/

namespace Template

/-- **The tree that a template stands for**, with these captures. -/
inductive Substitutes : Captures → Value → Value → Prop where
  /-- A variable without an ellipsis to go stands for what it captured. -/
  | captured {env v x capture} (hv : v.symbol? = some x) (hx : env.find? x = some capture)
    (hplain : capture.items? = none) : Substitutes env v capture.bare
  /-- Any other leaf stands for itself. -/
  | leaf {env v} (hv : v.isPair = false) (hx : ∀ x, v.symbol? = some x → env.find? x = none) :
    Substitutes env v v.bare
  /-- A list, from its first element and the rest of it. -/
  | item {env id head tail tree trees} (htail : tail.afterEllipsis? = none)
    (hhead : Substitutes env head tree) (hrest : Substitutes env tail trees) :
    Substitutes env (.pair id head tail) (.pair 0 tree trees)
  /-- `head ...` stands for one copy of `head` for each index: the variables of `head` with an
  ellipsis to go captured rows, and these are of one length. -/
  | repeated {env id head tail after copies rest} (htail : tail.afterEllipsis? = some after)
    (hdriven : env.rows head ≠ [])
    (hlength : ∀ row ∈ env.rows head, row.2.length = copies.length)
    (hcopies : ∀ index (h : index < copies.length),
      Substitutes (env.restrict head index) head copies[index])
    (hrest : Substitutes env after rest) :
    Substitutes env (.pair id head tail) (.chain copies rest)

/-- **Somewhere in the template the rows are of different lengths** that the variables of one
`sub ...` captured, in the template itself or in a copy of a part of it. -/
inductive Unequal : Captures → Value → Prop where
  | here {env id head tail after row other} (htail : tail.afterEllipsis? = some after)
    (hrow : row ∈ env.rows head) (hother : other ∈ env.rows head)
    (hlength : row.2.length ≠ other.2.length) : Unequal env (.pair id head tail)
  | copy {env id head tail after index} (htail : tail.afterEllipsis? = some after)
    (hdriven : env.rows head ≠ []) (hindex : ∀ row ∈ env.rows head, index < row.2.length)
    (h : Unequal (env.restrict head index) head) : Unequal env (.pair id head tail)
  | after {env id head tail after} (htail : tail.afterEllipsis? = some after)
    (h : Unequal env after) : Unequal env (.pair id head tail)
  | head {env id head tail} (htail : tail.afterEllipsis? = none) (h : Unequal env head) :
    Unequal env (.pair id head tail)
  | tail {env id head tail} (htail : tail.afterEllipsis? = none) (h : Unequal env tail) :
    Unequal env (.pair id head tail)

/-! ## 3. Templates that suit a pattern -/

/-- **No element of the template is a list `(... x)`**, which stands for `x` as it is.  The flag
says whether the template stands as an element itself, or as the rest of a list. -/
def EscapeFree (element : Bool) : Value → Prop
  | .pair _ head tail =>
    (element = true → head.isSymbolNamed ellipsis = true → tail.isPair = false) ∧
      EscapeFree true head ∧ EscapeFree false tail
  | _ => True

/-- **The part stands in the template under so many ellipses.** -/
inductive StandsUnder (part : Value) : Nat → Value → Prop where
  | self : StandsUnder part 0 part
  | repeated {count id head tail after} (htail : tail.afterEllipsis? = some after)
    (h : StandsUnder part count head) : StandsUnder part (count + 1) (.pair id head tail)
  | after {count id head tail after} (htail : tail.afterEllipsis? = some after)
    (h : StandsUnder part count after) : StandsUnder part count (.pair id head tail)
  | head {count id head tail} (htail : tail.afterEllipsis? = none)
    (h : StandsUnder part count head) : StandsUnder part count (.pair id head tail)
  | tail {count id head tail} (htail : tail.afterEllipsis? = none)
    (h : StandsUnder part count tail) : StandsUnder part count (.pair id head tail)

/-- **The template uses the variables of a pattern as they were captured.** -/
structure Suits (depths : Pattern.Depths) (template : Value) : Prop where
  escapeFree : EscapeFree true template
  /-- A variable with ellipses to go stands under exactly as many; any other where it likes. -/
  exact : ∀ {x depth}, (x, depth) ∈ depths → 0 < depth →
    ∀ {id count}, StandsUnder (.atom id (.symbol x)) count template → count = depth
  /-- In every `sub ...` stands a variable that has an ellipsis to go there. -/
  driven : ∀ {id sub tail after count}, tail.afterEllipsis? = some after →
    StandsUnder (.pair id sub tail) count template →
      ∃ x depth, (x, depth) ∈ depths ∧ sub.Mentions x ∧ count < depth

/-- **The captures are as deep as the template takes them**: `rest` says how many ellipses each
variable has to go. -/
structure Fits (env : Captures) (rest : String → Nat) (template : Value) : Prop where
  hasDepth : ∀ {x capture}, template.Mentions x → env.find? x = some capture →
    capture.HasDepth (rest x)
  exact : ∀ {x id count}, (env.find? x).isSome → 0 < rest x →
    StandsUnder (.atom id (.symbol x)) count template → count = rest x
  driven : ∀ {id sub tail after count}, tail.afterEllipsis? = some after →
    StandsUnder (.pair id sub tail) count template →
      ∃ x, (env.find? x).isSome ∧ sub.Mentions x ∧ count < rest x

theorem items?_of_hasDepth_pos {capture : Capture} {depth : Nat} (h : capture.HasDepth depth)
    (hpos : 0 < depth) : ∃ items, capture = .many items := by
  cases h with
  | one | rest => cases hpos
  | many => exact ⟨_, rfl⟩

namespace Fits

variable {env : Captures} {rest : String → Nat} {id : Nat} {first others left : Value}

theorem head (h : Fits env rest (.pair id first others)) (htail : others.afterEllipsis? = none) :
    Fits env rest first :=
  ⟨fun hx => h.hasDepth (.inl hx), fun hx hpos hunder => h.exact hx hpos (.head htail hunder),
    fun hsub hunder => h.driven hsub (.head htail hunder)⟩

theorem tail (h : Fits env rest (.pair id first others)) (htail : others.afterEllipsis? = none) :
    Fits env rest others :=
  ⟨fun hx => h.hasDepth (.inr hx), fun hx hpos hunder => h.exact hx hpos (.tail htail hunder),
    fun hsub hunder => h.driven hsub (.tail htail hunder)⟩

theorem after (h : Fits env rest (.pair id first others))
    (htail : others.afterEllipsis? = some left) : Fits env rest left :=
  ⟨fun hx => h.hasDepth (.inr (Value.mentions_of_afterEllipsis? htail hx)),
    fun hx hpos hunder => h.exact hx hpos (.after htail hunder),
    fun hsub hunder => h.driven hsub (.after htail hunder)⟩

/-- A variable of `sub` drives its repetition if and only if it has an ellipsis to go. -/
theorem exists_row (h : Fits env rest (.pair id first others)) {x : String}
    (hx : first.Mentions x) (hsome : (env.find? x).isSome) (hpos : 0 < rest x) :
    ∃ items, (x, items) ∈ env.rows first := by
  obtain ⟨capture, hcapture⟩ := Option.isSome_iff_exists.mp hsome
  obtain ⟨items, rfl⟩ := items?_of_hasDepth_pos (h.hasDepth (.inl hx) hcapture) hpos
  refine ⟨items, Captures.mem_rows_iff.mpr ⟨?_, hcapture⟩⟩
  exact Value.mem_symbols_iff.mpr (.inr hx)

theorem rows_ne_nil (h : Fits env rest (.pair id first others))
    (htail : others.afterEllipsis? = some left) : env.rows first ≠ [] := by
  obtain ⟨x, hsome, hx, hpos⟩ := h.driven htail .self
  obtain ⟨items, hrow⟩ := h.exists_row hx hsome hpos
  exact List.ne_nil_of_mem hrow

/-- **In a copy** every variable has one ellipsis less around it and one less to go. -/
theorem repeated (h : Fits env rest (.pair id first others))
    (htail : others.afterEllipsis? = some left) {index : Nat}
    (hindex : ∀ row ∈ env.rows first, index < row.2.length) :
    Fits (env.restrict first index) (fun x => rest x - 1) first := by
  have isSome_iff : ∀ x, ((env.restrict first index).find? x).isSome ↔ (env.find? x).isSome := by
    intro x
    rcases env.find?_restrict first index x with ⟨items, hrow, hfind⟩ | ⟨-, hfind⟩
    · have hlt : index < items.length := hindex _ hrow
      rw [hfind, (Captures.mem_rows_iff.mp hrow).2, List.getElem?_eq_getElem hlt]
      simp
    · rw [hfind]
  refine ⟨fun {x capture} hx hcapture => ?_, fun {x _ count} hsome hpos hunder => ?_,
    fun {_ _ _ _ count} hsub hunder => ?_⟩
  · rcases env.find?_restrict first index x with ⟨items, hrow, hfind⟩ | ⟨hrow, hfind⟩
    · have hlt : index < items.length := hindex _ hrow
      rw [hfind, List.getElem?_eq_getElem hlt, Option.some_or, Option.some.injEq] at hcapture
      have hdepth := h.hasDepth (.inl hx) (Captures.mem_rows_iff.mp hrow).2
      cases hrest : rest x with
      | zero =>
        rw [hrest] at hdepth
        cases hdepth
      | succ depth =>
        rw [hrest] at hdepth
        cases hdepth with
        | many hitems => exact hitems _ (hcapture ▸ List.getElem_mem hlt)
    · rw [hfind] at hcapture
      have hzero : rest x = 0 := by
        by_contra hne
        obtain ⟨items, hitems⟩ := h.exists_row hx (by simp [hcapture]) (Nat.pos_of_ne_zero hne)
        exact hrow items hitems
      have hdepth := h.hasDepth (.inl hx) hcapture
      rwa [hzero] at hdepth ⊢
  · have hcount := h.exact ((isSome_iff x).mp hsome) (by omega) (.repeated htail hunder)
    omega
  · obtain ⟨x, hsome, hx, hlt⟩ := h.driven hsub (.repeated htail hunder)
    exact ⟨x, (isSome_iff x).mpr hsome, hx, by omega⟩

end Fits

/-! ## 4. At most one of the two -/

section

variable {env : Captures} {template : Value}

theorem afterEllipsis?_unique {tail after left : Value} (h : tail.afterEllipsis? = some after)
    (h' : tail.afterEllipsis? = some left) : after = left :=
  Option.some.inj (h.symm.trans h')

theorem ne_some_of_afterEllipsis?_eq_none {tail after : Value} (h : tail.afterEllipsis? = none) :
    tail.afterEllipsis? ≠ some after := by
  rw [h]
  exact nofun

/-- **A template stands for one tree only.** -/
theorem Substitutes.unique {tree : Value} (h : Substitutes env template tree) :
    ∀ {other : Value}, Substitutes env template other → tree = other := by
  induction h with
  | captured hv hx hplain =>
    intro other hother
    cases hother with
    | captured hv' hx' =>
      cases hv.symm.trans hv'
      cases hx.symm.trans hx'
      rfl
    | leaf _ hnone => cases hx.symm.trans (hnone _ hv)
    | item | repeated => cases hv
  | leaf hv hnone =>
    intro other hother
    cases hother with
    | captured hv' hx' => cases (hnone _ hv').symm.trans hx'
    | leaf => rfl
    | item | repeated => cases hv
  | item htail _ _ ihHead ihTail =>
    intro other hother
    cases hother with
    | captured hv | leaf hv => cases hv
    | item _ hhead hrest => rw [ihHead hhead, ihTail hrest]
    | repeated hafter => exact absurd hafter (ne_some_of_afterEllipsis?_eq_none htail)
  | @repeated env _ head _ _ copies _ htail hdriven hlength _ _ ihCopies ihRest =>
    intro other hother
    cases hother with
    | captured hv | leaf hv => cases hv
    | item hnone => exact absurd htail (ne_some_of_afterEllipsis?_eq_none hnone)
    | @repeated _ _ _ _ _ copies' _ htail' _ hlength' hcopies' hrest' =>
      obtain rfl := afterEllipsis?_unique htail htail'
      obtain ⟨row, hrow⟩ := List.exists_mem_of_ne_nil _ hdriven
      have hsame : copies.length = copies'.length :=
        (hlength row hrow).symm.trans (hlength' row hrow)
      have hcopies : copies = copies' :=
        List.ext_getElem hsame fun index h h' => ihCopies index h (hcopies' index h')
      rw [hcopies, ihRest hrest']

/-- **Where rows are of different lengths** a template stands for nothing. -/
theorem Unequal.not_substitutes (h : Unequal env template) :
    ∀ {tree : Value}, ¬ Substitutes env template tree := by
  induction h with
  | here htail hrow hother hne =>
    intro tree htree
    cases htree with
    | captured hv | leaf hv => cases hv
    | item hnone => exact ne_some_of_afterEllipsis?_eq_none hnone htail
    | repeated _ _ hlength => exact hne ((hlength _ hrow).trans (hlength _ hother).symm)
  | copy htail hdriven hindex _ ih =>
    intro tree htree
    cases htree with
    | captured hv | leaf hv => cases hv
    | item hnone => exact ne_some_of_afterEllipsis?_eq_none hnone htail
    | repeated _ _ hlength hcopies =>
      obtain ⟨row, hrow⟩ := List.exists_mem_of_ne_nil _ hdriven
      exact ih (hcopies _ ((hlength row hrow).symm ▸ hindex row hrow))
  | after htail _ ih =>
    intro tree htree
    cases htree with
    | captured hv | leaf hv => cases hv
    | item hnone => exact ne_some_of_afterEllipsis?_eq_none hnone htail
    | repeated htail' _ _ _ hrest =>
      obtain rfl := afterEllipsis?_unique htail htail'
      exact ih hrest
  | head hnone _ ih =>
    intro tree htree
    cases htree with
    | captured hv | leaf hv => cases hv
    | item _ hhead => exact ih hhead
    | repeated htail => exact ne_some_of_afterEllipsis?_eq_none hnone htail
  | tail hnone _ ih =>
    intro tree htree
    cases htree with
    | captured hv | leaf hv => cases hv
    | item _ _ hrest => exact ih hrest
    | repeated htail => exact ne_some_of_afterEllipsis?_eq_none hnone htail

end

/-! ## 5. Substitution computes it -/

/-- **A result that is as said, or else rows are of different lengths**, and the fault says so. -/
def ComesTo {α : Type} (P : α → Prop) (unequal : Prop) (result : Except Fault α) : Prop :=
  (∃ a, result = .ok a ∧ P a) ∨ ∃ sub, result = .error (.unequalRepetitions sub) ∧ unequal

section

variable {α β : Type} {P : α → Prop} {Q : β → Prop} {unequal unequal' : Prop}

theorem comesTo_ok {a : α} (h : P a) : ComesTo P unequal (.ok a) :=
  .inl ⟨a, rfl, h⟩

theorem ComesTo.bind {result : Except Fault α} {next : α → Except Fault β}
    (h : ComesTo P unequal' result) (hunequal : unequal' → unequal)
    (hnext : ∀ a, P a → ComesTo Q unequal (next a)) : ComesTo Q unequal (result >>= next) := by
  rcases h with ⟨a, rfl, ha⟩ | ⟨sub, rfl, h⟩
  · exact hnext a ha
  · exact .inr ⟨sub, rfl, hunequal h⟩

theorem comesTo_mapM {P : α → β → Prop} {unequal : α → Prop} {f : α → Except Fault β}
    {as : List α} (h : ∀ a ∈ as, ComesTo (P a) (unequal a) (f a)) :
    ComesTo (List.Forall₂ P as) (∃ a ∈ as, unequal a) (as.mapM f) := by
  induction as with
  | nil =>
    rw [List.mapM_nil]
    exact comesTo_ok .nil
  | cons a as ih =>
    rw [List.mapM_cons]
    have hrest := ih fun a ha => h a (List.mem_cons_of_mem _ ha)
    refine (h a List.mem_cons_self).bind (fun h => ⟨a, List.mem_cons_self, h⟩) fun b hb => ?_
    refine hrest.bind (fun ⟨a, ha, h⟩ => ⟨a, List.mem_cons_of_mem _ ha, h⟩) fun bs hbs => ?_
    exact comesTo_ok (.cons hb hbs)

end

section

variable {env : Captures} {template : Value}

/-- Without `(... x)` an element is instantiated as a list. -/
theorem substituteElement_of_escapeFree (h : EscapeFree true template) :
    substituteElement env template (substituteList template env) = (do
      let (items, ending) ← substituteList template env
      pure (.chain items ending)) := by
  cases template with
  | pair id head tail =>
    cases hdots : head.isSymbolNamed ellipsis with
    | false => exact substituteElement_pair hdots _
    | true =>
      have htail := h.1 rfl hdots
      cases tail with
      | pair => cases htail
      | _ => simp only [substituteElement, hdots]
  | _ => rfl

theorem EscapeFree.mono {element : Bool} (h : EscapeFree element template) :
    EscapeFree false template := by
  cases template with
  | pair => exact ⟨nofun, h.2⟩
  | _ => trivial

theorem EscapeFree.after {tail after : Value} (h : EscapeFree false tail)
    (htail : tail.afterEllipsis? = some after) : EscapeFree false after := by
  obtain ⟨_, _, rfl, -⟩ := Value.afterEllipsis?_eq_some_iff.mp htail
  exact h.2.2

/-- A leaf of a template that fits stands for what it is substituted by. -/
theorem Fits.substitutes_leaf {rest : String → Nat} (h : Fits env rest template)
    (hleaf : template.isPair = false) : Substitutes env template (substituteLeaf env template) := by
  unfold substituteLeaf
  cases hsymbol : template.symbol? with
  | none => exact .leaf hleaf fun x hx => by rw [hsymbol] at hx; cases hx
  | some x =>
    rw [Option.bind_some]
    cases hfind : env.find? x with
    | none =>
      refine .leaf hleaf fun y hy => ?_
      rw [hsymbol] at hy
      cases hy
      exact hfind
    | some capture =>
      obtain ⟨id, rfl⟩ : ∃ id, template = .atom id (.symbol x) := by
        cases template with
        | atom id value => cases value <;> simp_all [Value.symbol?]
        | _ => cases hsymbol
      -- it stands under no ellipsis here, so it has none to go
      have hzero : rest x = 0 := by
        by_contra hne
        exact hne (h.exact (by simp [hfind]) (Nat.pos_of_ne_zero hne) .self).symm
      have hdepth := h.hasDepth rfl hfind
      rw [hzero] at hdepth
      refine .captured hsymbol hfind ?_
      cases hdepth <;> rfl

/-- **Rows make as many repetitions as each of them is long**, with the captures of each
repetition. -/
theorem comesTo_repetitions (hdriven : env.rows template ≠ []) :
    ComesTo (fun envs => ∃ count, (∀ row ∈ env.rows template, row.2.length = count) ∧
        envs = (List.range count).map (env.restrict template))
      (∃ row ∈ env.rows template, ∃ other ∈ env.rows template, row.2.length ≠ other.2.length)
      (env.repetitions template) := by
  by_cases hsame : ∃ count, ∀ row ∈ env.rows template, row.2.length = count
  · obtain ⟨count, hcount⟩ := hsame
    exact .inl ⟨_, Captures.repetitions_eq_ok hdriven hcount, count, hcount, rfl⟩
  · unfold Captures.repetitions
    cases hrows : env.rows template with
    | nil => exact absurd hrows hdriven
    | cons first rows =>
      obtain ⟨name, items⟩ := first
      obtain ⟨other, hother, hne⟩ : ∃ other ∈ rows, other.2.length ≠ items.length := by
        by_contra hall
        refine hsame ⟨items.length, fun row hrow => ?_⟩
        rw [hrows] at hrow
        rcases List.mem_cons.mp hrow with rfl | hrow
        · rfl
        · exact of_not_not fun hne => hall ⟨row, hrow, hne⟩
      have hnot : ¬ rows.all (·.2.length = items.length) := by
        simp only [List.all_eq_true, decide_eq_true_eq, not_forall]
        exact ⟨other, hother, hne⟩
      exact .inr ⟨template, if_neg hnot, _, List.mem_cons_self, other,
        List.mem_cons_of_mem _ hother, hne.symm⟩

/-- **A template that fits is substituted by what it stands for**, or rows in it are of different
lengths. -/
theorem substituteList_comesTo (template : Value) {env : Captures} {rest : String → Nat}
    (hfits : Fits env rest template) (hfree : EscapeFree false template) :
    ComesTo (fun list => Substitutes env template (.chain list.1 list.2)) (Unequal env template)
      (substituteList template env) := by
  match template with
  | .pair id head tail =>
    obtain ⟨-, hfreeHead, hfreeTail⟩ := hfree
    have element : ∀ {env rest}, Fits env rest head →
        ComesTo (Substitutes env head) (Unequal env head)
          (substituteElement env head (substituteList head env)) := by
      intro env rest hhead
      rw [substituteElement_of_escapeFree hfreeHead]
      have hlist := substituteList_comesTo head hhead hfreeHead.mono
      exact hlist.bind (fun h => h) fun _ h => comesTo_ok h
    cases htail : tail.afterEllipsis? with
    | none =>
      rw [substituteList_item htail]
      refine (element (hfits.head htail)).bind (.head htail) fun tree htree => ?_
      refine (substituteList_comesTo tail (hfits.tail htail) hfreeTail).bind (.tail htail)
        fun list hlist => ?_
      exact comesTo_ok (.item htail htree hlist)
    | some after =>
      have hsize := Value.sizeOf_afterEllipsis? htail
      have hdriven := hfits.rows_ne_nil htail
      rw [substituteList_repeated htail]
      refine (comesTo_repetitions hdriven).bind
        (fun ⟨_, hrow, _, hother, hne⟩ => .here htail hrow hother hne) ?_
      rintro envs ⟨count, hcount, henvs⟩
      have hindex : ∀ {index}, index < count → ∀ row ∈ env.rows head, index < row.2.length :=
        fun h row hrow => (hcount row hrow).symm ▸ h
      have exists_index : ∀ copy ∈ envs, ∃ index < count, copy = env.restrict head index := by
        intro copy hcopy
        rw [henvs] at hcopy
        obtain ⟨index, hmem, rfl⟩ := List.mem_map.mp hcopy
        exact ⟨index, List.mem_range.mp hmem, rfl⟩
      -- in every copy the template fits again, with one ellipsis less to go
      have hcopies : ComesTo (List.Forall₂ (Substitutes · head) envs)
          (∃ copy ∈ envs, Unequal copy head)
          (envs.mapM fun env => substituteElement env head (substituteList head env)) := by
        refine comesTo_mapM fun copy hcopy => ?_
        obtain ⟨index, hlt, rfl⟩ := exists_index copy hcopy
        exact element (hfits.repeated htail (hindex hlt))
      refine hcopies.bind (fun ⟨copy, hcopy, hunequal⟩ => ?_) fun copies hcopies => ?_
      · obtain ⟨index, hlt, rfl⟩ := exists_index copy hcopy
        exact .copy htail hdriven (hindex hlt) hunequal
      subst henvs
      have hrest := substituteList_comesTo after (hfits.after htail) (hfreeTail.after htail)
      refine hrest.bind (.after htail) fun list hlist => comesTo_ok ?_
      rw [Value.chain_append]
      obtain rfl : count = copies.length := by simpa using hcopies.length_eq
      refine .repeated htail hdriven hcount (fun index h => ?_) hlist
      simpa using hcopies.get (i := index) (by simpa using h) h
  | .nil | .atom .. | .procedure .. | .transformer .. | .formMarker .. | .hostMarker .. =>
    exact .inl ⟨([], _), rfl, hfits.substitutes_leaf rfl⟩
termination_by sizeOf template

/-- **The same for a whole template.** -/
theorem substitute_comesTo {rest : String → Nat} (hfits : Fits env rest template)
    (hfree : EscapeFree true template) :
    ComesTo (Substitutes env template) (Unequal env template) (substitute env template) := by
  rw [substitute, substituteElement_of_escapeFree hfree]
  exact (substituteList_comesTo template hfits hfree.mono).bind (fun h => h) fun _ h => comesTo_ok h

end

end Template

/-! ## 6. A rule in use -/

/-- In a table without a name twice every entry counts. -/
theorem lookup_eq_some_of_mem {α : Type} {entries : List (String × α)}
    (h : (entries.map (·.1)).Nodup) {name : String} {a : α} (hmem : (name, a) ∈ entries) :
    entries.lookup name = some a := by
  obtain ⟨b, hb⟩ := Option.isSome_iff_exists.mp
    ((isSome_lookup_iff entries name).mpr (List.mem_map_of_mem hmem))
  have hsame := List.inj_on_of_nodup_map h hmem (mem_of_lookup_eq_some hb) rfl
  rw [hb, (Prod.mk.inj hsame).2]

/-- **A template that suits a pattern fits what the pattern captures.** -/
theorem Template.Suits.fits {p : Pattern} (hlinear : p.Linear) {template : Value}
    (h : Template.Suits (p.depths 0) template) {v : Value} {captures : Captures}
    (hmatch : p.match? v = some captures) :
    Template.Fits captures (fun x => ((p.depths 0).lookup x).getD 0) template := by
  have isSome_iff : ∀ x, (captures.find? x).isSome ↔ ((p.depths 0).lookup x).isSome := by
    intro x
    rw [isSome_lookup_iff, Pattern.map_fst_depths, Pattern.isSome_find?_of_match? hmatch]
  have exists_depth : ∀ {x}, (captures.find? x).isSome →
      ∃ depth, (p.depths 0).lookup x = some depth ∧ (x, depth) ∈ p.depths 0 := by
    intro x hsome
    obtain ⟨depth, hdepth⟩ := Option.isSome_iff_exists.mp ((isSome_iff x).mp hsome)
    exact ⟨depth, hdepth, mem_of_lookup_eq_some hdepth⟩
  refine ⟨fun {x capture} _ hcapture => ?_, fun {x _ count} hsome hpos hunder => ?_,
    fun {_ _ _ _ count} hsub hunder => ?_⟩
  · obtain ⟨depth, hdepth, hmem⟩ := exists_depth (x := x) (by simp [hcapture])
    rw [hdepth, Option.getD_some]
    exact Pattern.hasDepth_of_find? hlinear hmatch hmem hcapture
  · obtain ⟨depth, hdepth, hmem⟩ := exists_depth hsome
    rw [hdepth, Option.getD_some] at hpos ⊢
    exact h.exact hmem hpos hunder
  · obtain ⟨x, depth, hmem, hx, hlt⟩ := h.driven hsub hunder
    have hdepth : (p.depths 0).lookup x = some depth := lookup_eq_some_of_mem hlinear hmem
    exact ⟨x, (isSome_iff x).mpr (by simp [hdepth]), hx, by simpa [hdepth] using hlt⟩

/-- **A rule in use gives the tree that its template stands for**, with what the variables of its
pattern captured.  It fails exactly if somewhere in the template the rows that drive one `sub ...`
are of different lengths, and only in this way. -/
theorem expand_substitutes {body : Value} {t : Transformer} (h : Transformer.ofBody body = .ok t)
    {before after : List Rule} {rule : Rule} (hrules : t.rules = before ++ rule :: after)
    (hlinear : rule.pattern.Linear) (hsuits : Template.Suits (rule.pattern.depths 0) rule.template)
    {args : Value} (hbefore : ∀ r ∈ before, ¬ r.pattern.Matches args)
    (hmatches : rule.pattern.Matches args) (root : Nat) :
    ∃ captures : Captures,
      (∀ x c, captures.find? x = some c ↔ rule.pattern.Captured x args c) ∧
      ∀ s,
        (∀ tree, Template.Substitutes captures rule.template tree ↔
          ∃ v s', Effect.expand body (.ofRoot root) args s = .ok v s' ∧ v.bare = tree) ∧
        (Template.Unequal captures rule.template ↔
          ∃ stop s', Effect.expand body (.ofRoot root) args s = .error stop s') ∧
        (∀ stop s', Effect.expand body (.ofRoot root) args s = .error stop s' →
          ∃ fault, stop = .failed ⟨fault, []⟩ ∧ fault.kind = .macroMatch) := by
  have single_of_mem : ∀ r ∈ before ++ rule :: after, r.pattern.Single := fun r hr =>
    Transformer.single_of_mem_rules h (hrules ▸ hr)
  have hsingle := single_of_mem rule (by simp)
  obtain ⟨captures, hcaptures⟩ :=
    Option.isSome_iff_exists.mp ((Pattern.isSome_match? hsingle args).mpr hmatches)
  have hnone : ∀ r ∈ before, r.pattern.match? args = none := fun r hr =>
    (Pattern.match?_eq_none_iff (single_of_mem r (by simp [hr])) args).mpr (hbefore r hr)
  refine ⟨captures, Pattern.find?_eq_some_iff hsingle hlinear hcaptures, fun s => ?_⟩
  rw [expand_of_ofBody h, hrules, Transformer.expand_of_first_match hnone hcaptures]
  have hagrees := agrees_ruleInstantiate hlinear hcaptures root
  rcases Template.substitute_comesTo (hsuits.fits hlinear hcaptures) hsuits.escapeFree with
    ⟨tree, htree, hsub⟩ | ⟨sub, hfault, hunequal⟩
  · rw [htree] at hagrees
    obtain ⟨v, s', hv, hbare⟩ := hagrees s
    rw [hv]
    refine ⟨fun other => ⟨fun hother => ?_, ?_⟩, ⟨fun hunequal => ?_, nofun⟩, nofun⟩
    · exact ⟨v, s', rfl, hbare.trans (hsub.unique hother)⟩
    · rintro ⟨_, _, ⟨⟩, rfl⟩
      exact hbare ▸ hsub
    · exact absurd hsub hunequal.not_substitutes
  · rw [hfault] at hagrees
    obtain ⟨s', hs'⟩ := hagrees s
    rw [hs']
    refine ⟨fun other => ⟨fun hother => ?_, nofun⟩, ⟨fun _ => ⟨_, _, rfl⟩, fun _ => hunequal⟩, ?_⟩
    · exact absurd hother hunequal.not_substitutes
    · rintro _ _ ⟨⟩
      exact ⟨_, rfl, rfl⟩

namespace Template

/-- **The parts of a template**, each with the number of ellipses that it stands under, `count` of
them around the whole. -/
def places (count : Nat) : Value → List (Value × Nat)
  | .pair id head tail =>
    (.pair id head tail, count) ::
      match tail with
      | .pair tailId next after =>
        if next.isSymbolNamed ellipsis then places (count + 1) head ++ places count after
        else places count head ++ places count (.pair tailId next after)
      | tail => places count head ++ places count tail
  | leaf => [(leaf, count)]

section

variable {count id : Nat} {head tail after : Value}

theorem places_repeated (h : tail.afterEllipsis? = some after) :
    places count (.pair id head tail) =
      (.pair id head tail, count) :: (places (count + 1) head ++ places count after) := by
  obtain ⟨_, dots, rfl, hdots⟩ := Value.afterEllipsis?_eq_some_iff.mp h
  rw [places, if_pos hdots]

theorem places_item (h : tail.afterEllipsis? = none) :
    places count (.pair id head tail) =
      (.pair id head tail, count) :: (places count head ++ places count tail) := by
  cases tail with
  | pair _ next after => rw [places, if_neg (Value.afterEllipsis?_pair_eq_none_iff.mp h)]
  | _ => rfl

end

theorem mem_places_self (count : Nat) (template : Value) :
    (template, count) ∈ places count template := by
  cases template with
  | pair id head tail =>
    cases htail : tail.afterEllipsis? with
    | none =>
      rw [places_item htail]
      exact List.mem_cons_self
    | some after =>
      rw [places_repeated htail]
      exact List.mem_cons_self
  | _ => exact List.mem_singleton_self _

/-- **Every part is among them.** -/
theorem StandsUnder.mem_places {part template : Value} {under : Nat}
    (h : StandsUnder part under template) (count : Nat) :
    (part, count + under) ∈ places count template := by
  induction h generalizing count with
  | self => exact mem_places_self count part
  | @repeated under _ _ _ _ htail _ ih =>
    have hhead := ih (count + 1)
    rw [Nat.add_right_comm] at hhead
    rw [places_repeated htail]
    exact List.mem_cons_of_mem _ (List.mem_append_left _ hhead)
  | after htail _ ih =>
    rw [places_repeated htail]
    exact List.mem_cons_of_mem _ (List.mem_append_right _ (ih count))
  | head htail _ ih =>
    rw [places_item htail]
    exact List.mem_cons_of_mem _ (List.mem_append_left _ (ih count))
  | tail htail _ ih =>
    rw [places_item htail]
    exact List.mem_cons_of_mem _ (List.mem_append_right _ (ih count))

/-- **Whether the part is no `sub ...`**, or there is a variable in `sub` that has an ellipsis to
go there. -/
def drivenAt (depths : Pattern.Depths) : Value × Nat → Bool
  | (.pair _ sub tail, count) =>
    tail.afterEllipsis?.isNone ||
      depths.any fun (x, depth) => (symbols [] sub).contains x && count < depth
  | _ => true

/-- **Whether a template suits a pattern** is seen from its parts. -/
theorem suits_of_places {depths : Pattern.Depths} {template : Value}
    (hfree : EscapeFree true template)
    (hexact : ∀ place ∈ places 0 template, ∀ entry ∈ depths,
      place.1.symbol? = some entry.1 → 0 < entry.2 → place.2 = entry.2)
    (hdriven : ∀ place ∈ places 0 template, drivenAt depths place) : Suits depths template := by
  refine ⟨hfree, fun {x depth} hmem hpos {id count} hunder => ?_,
    fun {id sub tail after count} htail hunder => ?_⟩
  · have hplace := hunder.mem_places 0
    rw [Nat.zero_add] at hplace
    exact hexact _ hplace _ hmem rfl hpos
  · have hplace := hunder.mem_places 0
    rw [Nat.zero_add] at hplace
    have hany := hdriven _ hplace
    simp only [drivenAt, htail, Option.isNone_some, Bool.false_or, List.any_eq_true,
      Bool.and_eq_true, decide_eq_true_eq, List.contains_iff_mem] at hany
    obtain ⟨⟨x, depth⟩, hmem, hx, hlt⟩ := hany
    exact ⟨x, depth, hmem, (Value.mem_symbols_iff.mp hx).resolve_left List.not_mem_nil, hlt⟩

end Template

/-- The template `((key (item end) ...) ...)`. -/
def mixedTemplate : Value :=
  let symbol (name : String) : Value := .atom 0 (.symbol name)
  .chain
    [.chain [symbol "key", .chain [symbol "item", symbol "end"] .nil, symbol "..."] .nil,
      symbol "..."] .nil

/-- What follows the word `syntax-rules` in a macro with the rule
`((_ (key item ...) ... end) ((key (item end) ...) ...))`. -/
def mixedBody : Value :=
  let symbol (name : String) : Value := .atom 0 (.symbol name)
  .chain
    [.nil,
      .chain
        [.chain
          [symbol "_", .chain [symbol "key", symbol "item", symbol "..."] .nil, symbol "...",
            symbol "end"] .nil,
          mixedTemplate] .nil] .nil

/-- The arguments `((1 2 3) (4) 5)`. -/
def mixedUse : Value :=
  let integer (n : Int64) : Value := .atom 1 (.integer n)
  .chain
    [.chain [integer 1, integer 2, integer 3] .nil, .chain [integer 4] .nil, integer 5] .nil

theorem suits_mixedTemplate :
    Template.Suits [("end", 0), ("item", 2), ("key", 1)] mixedTemplate := by
  refine Template.suits_of_places ?_ (by decide) (by decide)
  simp [mixedTemplate, Value.chain, Template.EscapeFree, Value.isSymbolNamed, Value.symbol?,
    ellipsis]

/-- The tree `((1 (2 5) (3 5)) (4))`. -/
def mixedTree : Value :=
  let integer (n : Int64) : Value := .atom 0 (.integer n)
  .chain
    [.chain
      [integer 1, .chain [integer 2, integer 5] .nil, .chain [integer 3, integer 5] .nil] .nil,
      .chain [integer 4] .nil] .nil

/-- The template stands for it, with what the pattern captures there. -/
theorem expand_substitutes_mixed : ∃ t rule captures,
    Transformer.ofBody mixedBody = .ok t ∧ t.rules = [rule] ∧
      (∀ x c, captures.find? x = some c ↔ rule.pattern.Captured x mixedUse c) ∧
      Template.Substitutes captures mixedTemplate mixedTree := by
  have hbody : Transformer.ofBody mixedBody = .ok _ := rfl
  have hsingle := Transformer.single_of_mem_rules hbody List.mem_cons_self
  have hlinear : ["end", "item", "key"].Nodup := by decide
  have hmatches := (Pattern.isSome_match? hsingle mixedUse).mp rfl
  have hresult : ((Effect.expand mixedBody (.ofRoot 0) mixedUse).run' .empty).map Value.bare =
      some mixedTree := by decide +kernel
  obtain ⟨captures, hcaptures, hexpand⟩ := expand_substitutes hbody
    (rfl : _ = [] ++ _ :: []) hlinear suits_mixedTemplate nofun hmatches 0
  refine ⟨_, _, captures, hbody, rfl, hcaptures, ((hexpand .empty).1 _).mpr ?_⟩
  cases hrun : Effect.expand mixedBody (.ofRoot 0) mixedUse .empty with
  | ok v s' =>
    rw [Effect.run'_of_ok hrun] at hresult
    exact ⟨v, s', rfl, Option.some.inj hresult⟩
  | error =>
    rw [Effect.run'_of_error hrun] at hresult
    cases hresult

end Lisp
