/-
# A pattern as its own template

If the template of a rule is its pattern, a use of the rule expands to itself: matching takes a
datum apart, and substituting puts it together again (`expand_restores`).  The only change is at
the constants of the pattern, for the datum need only be equal to them (`Pattern.Restores`).

This needs three things of the pattern.  It has no `_`, which captures nothing; it writes no name
twice; and under every ellipsis there is a name, for an ellipsis in a template is driven by what
stands under it.  The induction is on how the pattern is written (`Compiles`), and what it carries
is that the names of the part in hand stand for what that part captured (`Captures.Serves`).  Under
an ellipsis this holds again in every repetition, for the captures of that repetition
(`Captures.Serves.exists_repetitions`): every name of the repeated part has a row, all rows are as
long as there were repetitions, and no other symbol of the part has one.
-/
import Lisp.Proofs.Substitution

namespace Lisp

variable {literals : List String}

/-! ## 1. A datum put together again -/

/-- **What a leaf of the pattern leaves in place of a datum**: the datum, but a constant for what
is equal to the constant. -/
def Leaf.Restores : Leaf → Value → Value → Prop
  | .constant value, v, tree => v.equal value ∧ tree = value.bare
  | .variable _, v, tree | .wildcard, v, tree | .literal _, v, tree => tree = v.bare

mutual

/-- **The tree has the pairs and the leaves of the datum**, except that where a constant of the
pattern stands it has the constant, and the datum has something `equal` to it. -/
inductive Pattern.Restores : Pattern → Value → Value → Prop where
  | leaf {single v tree} (h : Leaf.Restores single v tree) : Pattern.Restores (.leaf single) v tree
  | list {parts ending v tree} (h : Parts.Restores parts ending v tree) :
    Pattern.Restores (.list parts ending) v tree

/-- **The same for a list that parts and an end match.** -/
inductive Parts.Restores : Parts → Option Leaf → Value → Value → Prop where
  | nil : Parts.Restores .stop none .nil .nil
  | ending {last v tree} (h : Leaf.Restores last v tree) :
    Parts.Restores .stop (some last) v tree
  | part {first rest ending id head tail tree trees} (hfirst : Pattern.Restores first head tree)
    (hrest : Parts.Restores rest ending tail trees) :
    Parts.Restores (.part first rest) ending (.pair id head tail) (.pair 0 tree trees)
  /-- More elements are left than the parts after the ellipsis need. -/
  | again {item after ending id head tail tree trees}
    (hlength : after.count ≤ tail.elements.length) (hitem : Pattern.Restores item head tree)
    (hrest : Parts.Restores (.repeated item after) ending tail trees) :
    Parts.Restores (.repeated item after) ending (.pair id head tail) (.pair 0 tree trees)
  /-- As many elements are left as the parts after the ellipsis need. -/
  | done {item after ending v tree} (hlength : v.elements.length = after.count)
    (hafter : Parts.Restores after ending v tree) :
    Parts.Restores (.repeated item after) ending v tree

end

mutual

/-- **No leaf of the pattern is a constant.** -/
def Pattern.ConstantFree : Pattern → Prop
  | .leaf single => ∀ value, single ≠ .constant value
  | .list parts ending => parts.ConstantFree ∧ ∀ value, ending ≠ some (.constant value)

def Parts.ConstantFree : Parts → Prop
  | .stop => True
  | .part first rest => first.ConstantFree ∧ rest.ConstantFree
  | .repeated item after => item.ConstantFree ∧ after.ConstantFree

end

theorem Leaf.Restores.eq_bare {single : Leaf} {v tree : Value} (h : single.Restores v tree)
    (hconstant : ∀ value, single ≠ .constant value) : tree = v.bare := by
  cases single with
  | constant value => exact absurd rfl (hconstant value)
  | _ => exact h

mutual

/-- **Without constants the tree is the datum.** -/
theorem Pattern.Restores.eq_bare : ∀ {p : Pattern} {v tree : Value}, p.Restores v tree →
    p.ConstantFree → tree = v.bare
  | _, _, _, .leaf h, hfree => Leaf.Restores.eq_bare h hfree
  | _, _, _, .list h, hfree => Parts.Restores.eq_bare h hfree.1 hfree.2

theorem Parts.Restores.eq_bare : ∀ {parts : Parts} {ending : Option Leaf} {v tree : Value},
    parts.Restores ending v tree → parts.ConstantFree →
      (∀ value, ending ≠ some (.constant value)) → tree = v.bare
  | _, _, _, _, .nil, _, _ => rfl
  | _, _, _, _, .ending h, _, hending =>
    Leaf.Restores.eq_bare h fun value hvalue => hending value (congrArg some hvalue)
  | _, _, _, _, .part hfirst hrest, hfree, hending =>
    congrArg₂ (Value.pair 0) (Pattern.Restores.eq_bare hfirst hfree.1)
      (Parts.Restores.eq_bare hrest hfree.2 hending)
  | _, _, _, _, .again _ hitem hrest, hfree, hending =>
    congrArg₂ (Value.pair 0) (Pattern.Restores.eq_bare hitem hfree.1)
      (Parts.Restores.eq_bare hrest hfree hending)
  | _, _, _, _, .done _ hafter, hfree, hending => Parts.Restores.eq_bare hafter hfree.2 hending

end

/-- **A repeated part puts the elements in the middle together again**, if it does so with each of
them. -/
theorem Parts.Restores.repeated {item : Pattern} {after : Parts} {ending : Option Leaf}
    {v rest : Value} {trees : List Value} (hlength : after.count ≤ v.elements.length)
    (hitems : List.Forall₂ item.Restores (v.elements.take (v.elements.length - after.count)) trees)
    (hafter : after.Restores ending (v.drop (v.elements.length - after.count)) rest) :
    (Parts.repeated item after).Restores ending v (.chain trees rest) := by
  induction trees generalizing v with
  | nil =>
    have hcount : v.elements.length = after.count := by
      have hzero := hitems.length_eq
      rw [List.length_take, List.length_nil] at hzero
      omega
    rw [hcount, Nat.sub_self, Value.drop_zero] at hafter
    exact .done hcount hafter
  | cons tree trees ih =>
    have hcount : v.elements.length - after.count ≠ 0 := by
      have hsucc := hitems.length_eq
      rw [List.length_take, List.length_cons] at hsucc
      omega
    cases v with
    | pair id head tail =>
      have htail : after.count ≤ tail.elements.length := by
        rw [Value.elements, List.length_cons] at hcount
        omega
      have hleft : (Value.pair id head tail).elements.length - after.count =
          tail.elements.length - after.count + 1 := by
        rw [Value.elements, List.length_cons]
        omega
      rw [hleft] at hitems hafter
      obtain ⟨hitem, hitems⟩ := List.forall₂_cons.mp hitems
      exact .again htail hitem (ih htail hitems hafter)
    | _ => simp [Value.elements] at hcount

/-! ## 2. Captures in use -/

namespace Captures

/-- **The names of a part stand for what the part captured**, and no symbol that the pattern writes
for itself stands for anything. -/
structure Serves (literals names : List String) (env own : Captures) : Prop where
  agrees : ∀ x ∈ names, env.find? x = own.find? x
  mayVary : ∀ x, (env.find? x).isSome → MayVary literals x

namespace Serves

variable {names : List String} {env captures : Captures}

/-- **For some of the names** it is enough what those captured. -/
theorem restrict (h : Serves literals names env captures) {sub : List String} {own : Captures}
    (hsub : ∀ x ∈ sub, x ∈ names) (hown : ∀ x ∈ sub, captures.find? x = own.find? x) :
    Serves literals sub env own :=
  ⟨fun x hx => (h.agrees x (hsub x hx)).trans (hown x hx), h.mayVary⟩

open Pattern

/-- **In a list** the parts captured some of the names, and the end the others. -/
theorem of_list {parts : Parts} {ending : Option Leaf} (hlinear : (list parts ending).Linear)
    {v left : Value} {own last : Captures} (hparts : partsMatch? parts v = some (own, left))
    (hlast : endingMatch? ending left = some last)
    (h : Serves literals (list parts ending).names env
      (if parts.hasEllipsis then own ++ last else last ++ own)) :
    Serves literals (partsNames parts) env own ∧ Serves literals (endingNames ending) env last := by
  obtain ⟨hown, hend⟩ := find?_of_list hlinear hparts hlast
  rw [names_list] at h
  exact ⟨h.restrict (fun x hx => List.mem_append_right _ hx) hown,
    h.restrict (fun x hx => List.mem_append_left _ hx) hend⟩

/-- **In a row of parts** the first captured some of the names, and the rest the others. -/
theorem of_part {first : Pattern} {rest : Parts}
    (hlinear : (partsNames (.part first rest)).Nodup) {head tail left : Value}
    {own others : Captures} (hfirst : first.match? head = some own)
    (hrest : partsMatch? rest tail = some (others, left))
    (h : Serves literals (partsNames (.part first rest)) env (others ++ own)) :
    Serves literals first.names env own ∧ Serves literals (partsNames rest) env others := by
  obtain ⟨hown, hothers⟩ := find?_of_part hlinear hfirst hrest
  rw [partsNames_part] at h
  exact ⟨h.restrict (fun x hx => List.mem_append_right _ hx) hown,
    h.restrict (fun x hx => List.mem_append_left _ hx) hothers⟩

/-- **Before an ellipsis** the repeated part captured some of the names, in rows, and the parts
after it the others. -/
theorem of_repeated {item : Pattern} {after : Parts}
    (hlinear : (partsNames (.repeated item after)).Nodup) {v left : Value} {others : Captures}
    {repetitions : List Captures} (hafter : partsMatch? after v = some (others, left))
    (h : Serves literals (partsNames (.repeated item after)) env
      (gather item.names repetitions ++ others)) :
    Serves literals item.names env (gather item.names repetitions) ∧
      Serves literals (partsNames after) env others := by
  obtain ⟨hitem, hothers⟩ := find?_of_repeated hlinear hafter repetitions
  rw [partsNames_repeated] at h
  exact ⟨h.restrict (fun x hx => List.mem_append_right _ hx) hitem,
    h.restrict (fun x hx => List.mem_append_left _ hx) hothers⟩

end Serves

/-! ## 3. Repetitions in use -/

/-- **The row of a name** that every repetition captured. -/
theorem getElem?_row {repetitions : List Captures} {x : String}
    (h : ∀ r ∈ repetitions, (r.find? x).isSome) (index : Nat) :
    (repetitions.filterMap (find? · x))[index]? = repetitions[index]?.bind (find? · x) := by
  induction repetitions generalizing index with
  | nil => rfl
  | cons r repetitions ih =>
    obtain ⟨c, hc⟩ := Option.isSome_iff_exists.mp (h r List.mem_cons_self)
    have hrest := ih fun r hr => h r (List.mem_cons_of_mem _ hr)
    rw [List.filterMap_cons, hc]
    cases index with
    | zero => exact hc.symm
    | succ index => exact hrest index

/-- What a name stands for in a repetition: the capture at that index of its row. -/
theorem find?_choose {rows : List (String × List Capture)} {f : String → List Capture}
    (h : ∀ r ∈ rows, r.2 = f r.1) (index : Nat) (x : String) :
    (choose rows index).find? x = if x ∈ rows.map (·.1) then (f x)[index]? else none := by
  induction rows with
  | nil => rfl
  | cons r rows ih =>
    obtain ⟨name, items⟩ := r
    obtain rfl : items = f name := h _ List.mem_cons_self
    have hrest := ih fun r hr => h r (List.mem_cons_of_mem _ hr)
    by_cases hx : x = name
    · subst hx
      rw [List.map_cons, if_pos List.mem_cons_self]
      cases hitem : (f x)[index]? with
      | none =>
        have hskip : choose ((x, f x) :: rows) index = choose rows index := by
          simp [choose, hitem]
        rw [hskip, hrest, hitem, ite_self]
      | some item => simp [choose, hitem, find?]
    · have hskip : (choose ((name, f name) :: rows) index).find? x =
          (choose rows index).find? x := by
        cases hitem : (f name)[index]? with
        | none => simp [choose, hitem]
        | some item => simp [choose, hitem, find?, List.lookup_cons, beq_false_of_ne hx]
      rw [hskip, hrest, List.map_cons]
      simp only [List.mem_cons, hx, false_or]

/-- **Rows of one length** make that many repetitions. -/
theorem repetitions_eq_ok {env : Captures} {sub : Value} {count : Nat} (hne : env.rows sub ≠ [])
    (h : ∀ row ∈ env.rows sub, row.2.length = count) :
    env.repetitions sub =
      .ok ((List.range count).map fun index => choose (env.rows sub) index ++ env) := by
  unfold repetitions
  cases hrows : env.rows sub with
  | nil => exact absurd hrows hne
  | cons row rows =>
    obtain ⟨name, items⟩ := row
    rw [hrows] at h
    obtain rfl : items.length = count := h _ List.mem_cons_self
    have hall : rows.all (·.2.length = items.length) := by
      simpa using fun name items hmem => h (name, items) (List.mem_cons_of_mem _ hmem)
    exact if_pos hall

variable {head template : Value} {item : Pattern} {env : Captures} {repetitions : List Captures}

/-- **The variables that drive a repetition are the names of the repeated part**, each with its
row. -/
theorem mem_rows_iff_mem_names (hhead : Compiles literals head item)
    (hwild : ¬ head.Mentions wildcard) (htemplate : template.bare = head.bare)
    (h : Serves literals item.names env (gather item.names repetitions))
    (row : String × List Capture) :
    row ∈ env.rows template ↔
      row.1 ∈ item.names ∧ row.2 = repetitions.filterMap (find? · row.1) := by
  have hnames := hhead.mem_names_iff hwild row.1
  have hgather : row.1 ∈ item.names →
      env.find? row.1 = some (.many (repetitions.filterMap (find? · row.1))) := fun hrow => by
    rw [h.agrees row.1 hrow, find?_gather, if_pos hrow]
  rw [mem_rows_iff, Value.mem_symbols_iff, or_iff_right List.not_mem_nil,
    Value.mentions_congr htemplate]
  constructor
  · rintro ⟨hmention, hfind⟩
    have hrow := hnames.mpr ⟨hmention, h.mayVary row.1 (by simp [hfind])⟩
    rw [hgather hrow] at hfind
    exact ⟨hrow, by simpa using hfind.symm⟩
  · rintro ⟨hrow, hitems⟩
    rw [hgather hrow, hitems]
    exact ⟨(hnames.mp hrow).1, rfl⟩

/-- **A repeated part is instantiated once for every repetition**, each time with the captures of
that repetition in use. -/
theorem Serves.exists_repetitions (hhead : Compiles literals head item)
    (hwild : ¬ head.Mentions wildcard) (hdriven : item.names ≠ [])
    (htemplate : template.bare = head.bare)
    (h : Serves literals item.names env (gather item.names repetitions))
    (hfind : ∀ r ∈ repetitions, ∀ x, (find? r x).isSome ↔ x ∈ item.names) :
    ∃ envs, env.repetitions template = .ok envs ∧
      List.Forall₂ (fun r env => Serves literals item.names env r) repetitions envs := by
  have hrows := mem_rows_iff_mem_names hhead hwild htemplate h
  have hsome : ∀ x ∈ item.names, ∀ r ∈ repetitions, (find? r x).isSome := fun x hx r hr =>
    (hfind r hr x).mpr hx
  have hne : env.rows template ≠ [] := by
    obtain ⟨x, hx⟩ := List.exists_mem_of_ne_nil _ hdriven
    exact List.ne_nil_of_mem ((hrows (x, repetitions.filterMap (find? · x))).mpr ⟨hx, rfl⟩)
  have hlength : ∀ row ∈ env.rows template, row.2.length = repetitions.length := by
    intro row hrow
    obtain ⟨hname, hitems⟩ := (hrows row).mp hrow
    rw [hitems, List.filterMap_length_eq_length]
    exact hsome row.1 hname
  have hmem : ∀ x, x ∈ (env.rows template).map (·.1) ↔ x ∈ item.names := by
    intro x
    rw [List.mem_map]
    constructor
    · rintro ⟨row, hrow, rfl⟩
      exact ((hrows row).mp hrow).1
    · exact fun hx => ⟨(x, repetitions.filterMap (find? · x)), (hrows _).mpr ⟨hx, rfl⟩, rfl⟩
  refine ⟨_, repetitions_eq_ok hne hlength, List.forall₂_iff_get.mpr ⟨by simp, ?_⟩⟩
  intro index hindex hindex'
  simp only [List.get_eq_getElem, List.getElem_map, List.getElem_range]
  have hchoose := find?_choose (f := fun x => repetitions.filterMap (find? · x))
    (fun r hr => ((hrows r).mp hr).2) index
  constructor
  · intro x hx
    have hcapture : (choose (env.rows template) index).find? x = repetitions[index].find? x := by
      rw [hchoose, if_pos ((hmem x).mpr hx), getElem?_row (hsome x hx),
        List.getElem?_eq_getElem hindex, Option.bind_some]
    obtain ⟨c, hc⟩ := Option.isSome_iff_exists.mp (hsome x hx _ (List.getElem_mem hindex))
    rw [hc] at hcapture
    rw [find?, List.lookup_append, ← find?, hcapture, hc, Option.some_or]
  · intro x hx
    by_cases hname : x ∈ item.names
    · exact ((hhead.mem_names_iff hwild x).mp hname).2
    · rw [find?_append_of_none_left] at hx
      · exact h.mayVary x hx
      · rw [hchoose, if_neg ((hmem x).not.mpr hname)]

end Captures

/-! ## 4. Substituting in the pattern itself -/

theorem exists_mapM_eq_ok {α β γ δ : Type} {P : α → β → Prop} {Q : β → γ → Prop}
    {R : α → δ → Prop} {f : γ → Except Fault δ} {as : List α} {bs : List β} {cs : List γ}
    (has : List.Forall₂ P as bs) (hbs : List.Forall₂ Q bs cs)
    (h : ∀ a b c, P a b → Q b c → ∃ d, f c = .ok d ∧ R a d) :
    ∃ ds, cs.mapM f = .ok ds ∧ List.Forall₂ R as ds := by
  induction has generalizing cs with
  | nil =>
    cases hbs
    exact ⟨[], rfl, .nil⟩
  | cons hab _ ih =>
    cases hbs with
    | cons hbc hbs =>
      obtain ⟨d, hd, hR⟩ := h _ _ _ hab hbc
      obtain ⟨ds, hds, hRs⟩ := ih hbs
      refine ⟨d :: ds, ?_, .cons hR hRs⟩
      rw [List.mapM_cons]
      exact bind_eq_ok_iff.mpr ⟨d, hd, bind_eq_ok_iff.mpr ⟨ds, hds, rfl⟩⟩

namespace Template

variable {env : Captures} {template v : Value} {single : Leaf}

theorem substituteElement_indivisible (h : template.Indivisible)
    (asList : Except Fault (List Value × Value)) :
    substituteElement env template asList = .ok (substituteLeaf env template) := by
  cases template with
  | pair => cases h.2
  | _ => rfl

/-- **A leaf of the pattern as its own template.** -/
theorem restores_substituteLeaf {written : Value} (hwritten : written.Indivisible)
    (hsingle : Pattern.compileLeaf literals written = .ok single)
    (hwild : ¬ written.Mentions wildcard) (htemplate : template.bare = written.bare)
    (hmatches : single.Matches v) (hmayVary : ∀ x, (env.find? x).isSome → MayVary literals x)
    (hvariable : ∀ x, single = .variable x → ∃ c, env.find? x = some c ∧ c.bare = v.bare) :
    single.Restores v (substituteLeaf env template) := by
  unfold substituteLeaf
  rw [Value.symbol?_congr htemplate]
  rw [Value.mentions_of_indivisible hwritten] at hwild
  rcases compileLeaf_cases hsingle with ⟨name, hname, -, hcases⟩ | ⟨hname, rfl⟩
  · rw [hname] at hwild
    rw [hname, Option.bind_some]
    rcases hcases with ⟨rfl, -⟩ | ⟨hliteral, rfl⟩ | ⟨-, rfl⟩
    · exact absurd rfl hwild
    · have hnone : env.find? name = none := by
        by_contra hsome
        exact (hmayVary name (Option.isSome_iff_ne_none.mpr hsome)).1 hliteral
      -- there is one tree for all symbols of a name
      have htree : ∀ {w : Value}, w.symbol? = some name → w.bare = .atom 0 (.symbol name) := by
        intro w hw
        cases w with
        | atom id value => cases value <;> simp_all [Value.symbol?, Value.bare]
        | _ => cases hw
      rw [hnone]
      exact htemplate.trans ((htree hname).trans (htree hmatches).symm)
    · obtain ⟨c, hc, hbare⟩ := hvariable name rfl
      rw [hc]
      exact hbare
  · rw [hname]
    exact ⟨hmatches, htemplate⟩

theorem substituteElement_pair {id : Nat} {head tail : Value}
    (hdots : head.isSymbolNamed ellipsis = false)
    (asList : Except Fault (List Value × Value)) :
    substituteElement env (.pair id head tail) asList = (do
      let (items, ending) ← asList
      pure (.chain items ending)) := by
  simp only [substituteElement, hdots]

/-- **No list of a pattern begins with an ellipsis**, so none is taken for a template `(... x)`. -/
theorem substituteElement_of_compilesParts {written : Value} {parts : Parts} {seen : Bool}
    {ending : Option Leaf} {items : List Value} {last : Value}
    (hparts : CompilesParts literals seen written parts ending)
    (htemplate : template.bare = written.bare)
    (h : substituteList template env = .ok (items, last)) :
    substituteElement env template (substituteList template env) = .ok (.chain items last) := by
  have ofPair : ∀ {id : Nat} {head tail : Value} {p : Pattern},
      template.bare = (Value.pair id head tail).bare → Compiles literals head p →
      substituteElement env template (substituteList template env) = .ok (.chain items last) := by
    intro id head tail p hpair hhead
    obtain ⟨_, head', _, rfl, hhead', -⟩ := Value.exists_pair_of_bare hpair
    rw [substituteElement_pair, h]
    · rfl
    · rw [Value.isSymbolNamed_congr hhead', hhead.isSymbolNamed_ellipsis]
  cases hparts with
  | nil =>
    obtain rfl := Value.eq_nil_of_bare htemplate
    cases h
    rfl
  | ending hv =>
    have hv' := (Value.indivisible_congr htemplate).mpr hv
    rw [substituteList_indivisible hv'] at h
    cases h
    exact substituteElement_indivisible hv' _
  | part hhead => exact ofPair htemplate hhead
  | repeated hhead => exact ofPair htemplate hhead

end Template

mutual

/-- **Under every ellipsis of the pattern stands a name.** -/
def Pattern.Driven : Pattern → Prop
  | .leaf _ => True
  | .list parts _ => parts.Driven

def Parts.Driven : Parts → Prop
  | .stop => True
  | .part first rest => first.Driven ∧ rest.Driven
  | .repeated item after => item.names ≠ [] ∧ item.Driven ∧ after.Driven

end

open Template Pattern

mutual

/-- **Substituting what an element matched in the element of the pattern itself** puts it together
again. -/
theorem Compiles.restores : ∀ {written : Value} {p : Pattern}, Compiles literals written p →
    ¬ written.Mentions wildcard → p.Linear → p.Driven →
      ∀ {template v : Value} {own env : Captures}, template.bare = written.bare →
        p.match? v = some own → Captures.Serves literals p.names env own →
          ∃ tree, substituteElement env template (substituteList template env) = .ok tree ∧
            p.Restores v tree
  | _, .leaf single, .leaf hv hsingle, hwild, _, _, template, v, own, env, htemplate, hmatch,
      hserves => by
    have hleaf := (Value.indivisible_congr htemplate).mpr hv
    refine ⟨_, substituteElement_indivisible hleaf _, .leaf ?_⟩
    have hmatches := (isSome_leafMatch? single v).mp (Option.isSome_iff_exists.mpr ⟨own, hmatch⟩)
    refine restores_substituteLeaf hv hsingle hwild htemplate hmatches hserves.mayVary
      fun x hx => ?_
    refine ⟨.one v, ?_, rfl⟩
    rw [hserves.agrees x (by simp [hx, Leaf.names]), find?_leafMatch? hmatch]
    exact ⟨hx, rfl⟩
  | _, .list parts ending, .list _ hparts, hwild, hlinear, hdriven, template, v, own, env,
      htemplate, hmatch, hserves => by
    obtain ⟨own, left, last, hown, hlast, rfl⟩ := match?_list_iff.mp hmatch
    obtain ⟨hserves, hservesEnd⟩ := hserves.of_list hlinear hown hlast
    rw [Linear, names_list] at hlinear
    obtain ⟨items, ending, hlist, hrestores⟩ := hparts.restores hwild
      (List.nodup_append.mp hlinear).2.1 hdriven htemplate hown hlast hserves hservesEnd
    exact ⟨_, substituteElement_of_compilesParts hparts htemplate hlist, .list hrestores⟩

/-- **The same for the parts of a list and its end.** -/
theorem CompilesParts.restores : ∀ {seen : Bool} {written : Value} {parts : Parts}
    {ending : Option Leaf}, CompilesParts literals seen written parts ending →
    ¬ written.Mentions wildcard → (partsNames parts).Nodup → parts.Driven →
      ∀ {template v left : Value} {own last env : Captures}, template.bare = written.bare →
        partsMatch? parts v = some (own, left) → endingMatch? ending left = some last →
        Captures.Serves literals (partsNames parts) env own →
        Captures.Serves literals (endingNames ending) env last →
          ∃ trees tree, substituteList template env = .ok (trees, tree) ∧
            parts.Restores ending v (.chain trees tree)
  | _, _, _, _, .nil, _, _, _, template, v, left, own, last, env, htemplate, hown, hlast, _, _ => by
    obtain ⟨-, rfl⟩ : [] = own ∧ v = left := by simpa [partsMatch?] using hown
    obtain rfl : v = .nil :=
      (isSome_endingMatch? none v).mp (Option.isSome_iff_exists.mpr ⟨last, hlast⟩)
    obtain rfl := Value.eq_nil_of_bare htemplate
    exact ⟨[], .nil, rfl, .nil⟩
  | _, _, _, some single, .ending hv hsingle, hwild, _, _, template, v, left, own, last, env,
      htemplate, hown, hlast, _, hserves => by
    obtain ⟨-, rfl⟩ : [] = own ∧ v = left := by simpa [partsMatch?] using hown
    refine ⟨[], _, substituteList_indivisible ((Value.indivisible_congr htemplate).mpr hv),
      .ending ?_⟩
    have hmatches : single.Matches v :=
      (isSome_endingMatch? (some single) v).mp (Option.isSome_iff_exists.mpr ⟨last, hlast⟩)
    refine restores_substituteLeaf hv hsingle hwild htemplate hmatches hserves.mayVary
      fun x hx => ?_
    refine ⟨.rest v.elements v.ending, ?_, v.chain_elements_ending⟩
    rw [hserves.agrees x (by simp [hx, endingNames, Leaf.names]), find?_endingMatch? hlast]
    exact ⟨congrArg some hx, rfl⟩
  | _, _, _, _, .part hhead htail hrest, hwild, hlinear, hdriven, template, v, left, own, last, env,
      htemplate, hown, hlast, hserves, hservesEnd => by
    obtain ⟨_, head, tail, own, others, rfl, hfirst, hothers, rfl⟩ := partsMatch?_part_iff.mp hown
    obtain ⟨hservesFirst, hservesRest⟩ := hserves.of_part hlinear hfirst hothers
    obtain ⟨_, head', tail', rfl, hhead', htail'⟩ := Value.exists_pair_of_bare htemplate
    rw [partsNames_part] at hlinear
    obtain ⟨hlinearRest, hlinearFirst, -⟩ := List.nodup_append.mp hlinear
    obtain ⟨tree, htree, hrestores⟩ := hhead.restores (fun h => hwild (.inl h)) hlinearFirst
      hdriven.1 hhead' hfirst hservesFirst
    obtain ⟨trees, ending, hlist, hrestoresRest⟩ := hrest.restores (fun h => hwild (.inr h))
      hlinearRest hdriven.2 htail' hothers hlast hservesRest hservesEnd
    have hnone : tail'.afterEllipsis? = none := by
      simpa [htail] using Value.afterEllipsis?_congr htail'
    refine ⟨tree :: trees, ending, ?_, .part hrestores hrestoresRest⟩
    rw [substituteList_item hnone, htree, hlist]
    rfl
  | _, _, .repeated item after, _, .repeated hhead htail hrest, hwild, hlinear, hdriven, template,
      v, left, own, last, env, htemplate, hown, hlast, hserves, hservesEnd => by
    obtain ⟨hlength, others, repetitions, hothers, hitems, rfl⟩ := partsMatch?_repeated_iff.mp hown
    obtain ⟨hservesItem, hservesRest⟩ := hserves.of_repeated hlinear hothers
    obtain ⟨_, head', tail', rfl, hhead', htail'⟩ := Value.exists_pair_of_bare htemplate
    obtain ⟨hne, hdrivenItem, hdrivenRest⟩ := hdriven
    rw [partsNames_repeated] at hlinear
    obtain ⟨hlinearRest, hlinearItem, -⟩ := List.nodup_append.mp hlinear
    have hdots := Value.afterEllipsis?_congr htail'
    rw [htail, Option.map_some, Option.map_eq_some_iff] at hdots
    obtain ⟨after', hafter', hbare⟩ := hdots
    have hfind : ∀ r ∈ repetitions, ∀ x, (r.find? x).isSome ↔ x ∈ item.names := fun r hr => by
      obtain ⟨e, he⟩ := exists_of_mem_forall₂ hitems hr
      exact isSome_find?_of_match? he
    obtain ⟨envs, henvs, hservesEach⟩ := hservesItem.exists_repetitions hhead
      (fun h => hwild (.inl h)) hne hhead' hfind
    -- every repetition puts its own element together again
    obtain ⟨trees, htrees, hrestores⟩ := exists_mapM_eq_ok hitems hservesEach
      fun _ _ _ hmatch hserves => hhead.restores (fun h => hwild (.inl h)) hlinearItem hdrivenItem
        hhead' hmatch hserves
    obtain ⟨rest, ending, hlist, hrestoresRest⟩ := hrest.restores
      (fun h => hwild (.inr (Value.mentions_of_afterEllipsis? htail h))) hlinearRest hdrivenRest
      hbare hothers hlast hservesRest hservesEnd
    refine ⟨trees ++ rest, ending, ?_, ?_⟩
    · rw [substituteList_repeated hafter']
      exact bind_eq_ok_iff.mpr ⟨envs, henvs, bind_eq_ok_iff.mpr ⟨trees, htrees,
        bind_eq_ok_iff.mpr ⟨_, hlist, rfl⟩⟩⟩
    · rw [Value.chain_append]
      exact .repeated hlength hrestores hrestoresRest

end

/-- **What a whole pattern captured is in use** in its template. -/
theorem serves_of_match? {written : Value} {p : Pattern}
    (hcompile : Pattern.compile literals written = .ok p) (hwild : ¬ written.Mentions wildcard)
    {v : Value} {captures : Captures} (h : p.match? v = some captures) :
    Captures.Serves literals p.names captures captures := by
  obtain ⟨parts, ending, rfl, hparts⟩ := compilesParts_of_compile hcompile
  refine ⟨fun _ _ => rfl, fun x hx => ?_⟩
  rw [isSome_find?_of_match? h, names_list, List.mem_append, or_comm,
    hparts.mem_names_iff hwild] at hx
  exact hx.2

/-- **Substituting what an argument list matched in the pattern itself** puts it together again. -/
theorem substitute_restores {written template : Value} {p : Pattern}
    (hcompile : Pattern.compile literals written = .ok p) (hwild : ¬ written.Mentions wildcard)
    (htemplate : template.bare = written.bare) (hlinear : p.Linear) (hdriven : p.Driven)
    {v : Value} {captures : Captures} (h : p.match? v = some captures) :
    ∃ tree, Template.substitute captures template = .ok tree ∧ p.Restores v tree := by
  have hserves := serves_of_match? hcompile hwild h
  obtain ⟨parts, ending, rfl, hparts⟩ := compilesParts_of_compile hcompile
  obtain ⟨own, left, last, hown, hlast, rfl⟩ := match?_list_iff.mp h
  obtain ⟨hservesParts, hservesEnd⟩ := hserves.of_list hlinear hown hlast
  rw [Linear, names_list] at hlinear
  obtain ⟨trees, tree, hlist, hrestores⟩ := hparts.restores hwild
    (List.nodup_append.mp hlinear).2.1 hdriven htemplate hown hlast hservesParts hservesEnd
  exact ⟨_, substituteElement_of_compilesParts hparts htemplate hlist, .list hrestores⟩

/-! ## 5. The macro that changes nothing -/

/-- **A body with one rule whose template is its pattern**, `(literals ((keyword . written)
written))`.  The two are written alike; they need not be one object. -/
def IsMirror (body written : Value) : Prop :=
  ∃ literals keyword,
    body.bare = .chain [literals, .chain [.pair 0 keyword written.bare, written.bare] .nil] .nil

/-- The rule of such a body, as it is compiled. -/
theorem Transformer.rules_of_isMirror {body written : Value} {t : Transformer}
    (h : Transformer.ofBody body = .ok t) (hmirror : IsMirror body written) :
    ∃ args rule, t.rules = [rule] ∧ Pattern.compile t.literals args = .ok rule.pattern ∧
      args.bare = written.bare ∧ rule.template.bare = written.bare := by
  obtain ⟨_, literals, rules, rfl, -, hrules⟩ := Transformer.writtenAs_of_ofBody h
  obtain ⟨_, _, hbody⟩ := hmirror
  obtain ⟨-, -, htail⟩ := Value.pair.inj hbody
  obtain ⟨_, written', last, rfl, hwritten, hlast⟩ := Value.exists_pair_of_bare htail
  obtain rfl := Value.eq_nil_of_bare hlast
  obtain ⟨rule, _, hrule, hnil, heq⟩ := List.forall₂_cons_left_iff.mp hrules
  obtain rfl := List.forall₂_nil_left_iff.mp hnil
  obtain ⟨_, _, _, _, args, rfl, hcompile⟩ := hrule
  obtain ⟨-, hhead, htail⟩ := Value.pair.inj hwritten
  exact ⟨args, rule, heq, hcompile, (Value.pair.inj hhead).2.2, (Value.pair.inj htail).2.1⟩

/-- **Matching and instantiating are inverse.**  If the template of the only rule is its pattern,
which has no `_`, no name twice and a name under every ellipsis, every argument list that matches
expands, and to itself: to the same pairs and leaves, but for constants of the pattern in place of
what is equal to them. -/
theorem expand_restores {body written : Value} {t : Transformer}
    (h : Transformer.ofBody body = .ok t) (hmirror : IsMirror body written)
    (hwild : ¬ written.Mentions wildcard) :
    ∃ rule, t.rules = [rule] ∧ (rule.pattern.Linear → rule.pattern.Driven →
      ∀ args, rule.pattern.Matches args → ∀ root s, ∃ result s',
        Effect.expand body (.ofRoot root) args s = .ok result s' ∧
        rule.pattern.Restores args result.bare ∧
        (rule.pattern.ConstantFree → result.bare = args.bare)) := by
  obtain ⟨own, rule, hrules, hcompile, hown, htemplate⟩ := Transformer.rules_of_isMirror h hmirror
  refine ⟨rule, hrules, fun hlinear hdriven args hmatches root s => ?_⟩
  have hsingle := single_of_compile hcompile
  obtain ⟨captures, hcaptures⟩ :=
    Option.isSome_iff_exists.mp ((isSome_match? hsingle args).mpr hmatches)
  have hwild : ¬ own.Mentions wildcard := (Value.mentions_congr hown wildcard).not.mpr hwild
  obtain ⟨tree, htree, hrestores⟩ := substitute_restores hcompile hwild
    (htemplate.trans hown.symm) hlinear hdriven hcaptures
  have hagrees := agrees_ruleInstantiate hlinear hcaptures root
  rw [htree] at hagrees
  obtain ⟨result, s', hresult, rfl⟩ := hagrees s
  refine ⟨result, s', ?_, hrestores, hrestores.eq_bare⟩
  rw [expand_of_ofBody h, hrules, Transformer.expand, hcaptures]
  exact hresult

/-- The pattern `(((a b ...) ... end) c ... else . d)`. -/
def nestedPattern : Value :=
  let symbol (name : String) : Value := .atom 0 (.symbol name)
  .chain
    [.chain [.chain [symbol "a", symbol "b", symbol "..."] .nil, symbol "...", symbol "end"] .nil,
      symbol "c", symbol "...", symbol "else"] (symbol "d")

/-- What follows the word `syntax-rules` in `(syntax-rules (else) ((_ . pattern) pattern))`. -/
def nestedBody : Value :=
  .chain
    [.chain [.atom 0 (.symbol "else")] .nil,
      .chain [.pair 0 (.atom 0 (.symbol "_")) nestedPattern, nestedPattern] .nil] .nil

/-- The arguments `(((1 2 3) (4) 5) else . 6)`: the sublists are of different lengths, and there
is nothing for `c`. -/
def nestedUse : Value :=
  let integer (n : Int64) : Value := .atom 1 (.integer n)
  .chain
    [.chain
      [.chain [integer 1, integer 2, integer 3] .nil, .chain [integer 4] .nil, integer 5] .nil,
      .atom 1 (.symbol "else")] (integer 6)

/-- The macro gives them back as they are. -/
theorem expand_restores_nested : ∃ result s',
    Effect.expand nestedBody (.ofRoot 0) nestedUse .empty = .ok result s' ∧
      result.bare = nestedUse.bare := by
  have hbody : Transformer.ofBody nestedBody = .ok _ := rfl
  have hmirror : IsMirror nestedBody nestedPattern := ⟨_, _, rfl⟩
  have hwild : ¬ nestedPattern.Mentions wildcard := by
    simp [nestedPattern, Value.chain, Value.Mentions, wildcard]
  obtain ⟨rule, hrules, hexpand⟩ := expand_restores hbody hmirror hwild
  obtain rfl := (List.cons.inj hrules).1
  have hsingle := Transformer.single_of_mem_rules hbody List.mem_cons_self
  have hlinear : ["d", "c", "end", "b", "a"].Nodup := by decide
  obtain ⟨result, s', hresult, -, hfree⟩ := hexpand hlinear
    (by simp [Pattern.Driven, Parts.Driven, Leaf.names]) nestedUse
    ((isSome_match? hsingle _).mp rfl) 0 .empty
  exact ⟨result, s', hresult, hfree (by simp [Pattern.ConstantFree, Parts.ConstantFree])⟩

end Lisp
