/-
# Templates as substitution

Instantiating a template goes a long way round: captures are turned into values, a variable under
ellipses becomes a list of lists, and only a table of depths says how deep these lists are meant.
What is meant is simpler.  A variable in a template stands for what it captured, and `sub ...` for
one copy of `sub` for every index, in which each variable that captured a row stands for the capture
at that index (`Template.substituteList`).

In a scope without local frames the two agree (`Carries.agrees_instantiate`): they give the same
tree, or fail with the same fault.  What carries the induction is that the values in use are the
captures made into values, each as deep as its number says (`Carries`).  An ellipsis takes the next
element of every such value, and one from the number; so it takes the next of every row
(`Carries.repetition`).

Values are compared as trees (`Value.bare`): lists are made anew on the way, so their pairs are not
those of the use.
-/
import Lisp.Proofs.Depths
import Lisp.Proofs.Selection

namespace Lisp

/-! ## 1. Values made on the way -/

/-- **Making a list** gives the chain of its items. -/
theorem bare_newListWithTail (s : Store) (items : List Value) (ending : Value) :
    (s.newListWithTail items ending).1.bare = .chain (items.map Value.bare) ending.bare := by
  induction items with
  | nil => rfl
  | cons item items ih => exact congrArg (Value.pair 0 item.bare) ih

namespace Capture

mutual

/-- **The tree that a capture stands for.** -/
def bare : Capture → Value
  | .one value => value.bare
  | .rest elements ending => .chain (elements.map Value.bare) ending.bare
  | .many items => .chain (allBare items) .nil

def allBare : List Capture → List Value
  | [] => []
  | item :: items => item.bare :: allBare items

end

theorem allBare_eq_map (items : List Capture) : allBare items = items.map bare := by
  induction items with
  | nil => rfl
  | cons item items ih => rw [allBare, ih, List.map_cons]

mutual

/-- **The value that a capture becomes** is the tree that it stands for. -/
theorem bare_toValue : ∀ (capture : Capture) (s : Store), (capture.toValue s).1.bare = capture.bare
  | .one _, _ => rfl
  | .rest elements ending, s => bare_newListWithTail s elements ending
  | .many items, s => by
    have hlist := bare_newListWithTail (toValues s items).2 (toValues s items).1 .nil
    rw [map_bare_toValues items s] at hlist
    exact hlist

theorem map_bare_toValues :
    ∀ (items : List Capture) (s : Store), (toValues s items).1.map Value.bare = allBare items
  | [], _ => rfl
  | item :: items, s => by
    have hrest := map_bare_toValues items (item.toValue s).2
    exact (congrArg₂ List.cons (bare_toValue item s) hrest)

end

/-- **The row of captures** of a variable under an ellipsis. -/
def items? : Capture → Option (List Capture)
  | .many items => some items
  | .one _ | .rest .. => none

theorem items?_eq_some_iff {capture : Capture} {items : List Capture} :
    capture.items? = some items ↔ capture = .many items := by
  cases capture <;> simp [items?]

end Capture

/-! ## 2. Substitution -/

namespace Captures

/-- **The variables of `sub` that captured a row**, in the order they first occur, with their
rows. -/
def rows (env : Captures) (sub : Value) : List (String × List Capture) :=
  (Template.symbols [] sub).filterMap fun name =>
    ((env.find? name).bind Capture.items?).map fun items => (name, items)

/-- **What the variables of some rows stand for** in the repetition of this index. -/
def choose (rows : List (String × List Capture)) (index : Nat) : Captures :=
  rows.filterMap fun (name, items) => items[index]?.map fun item => (name, item)

/-- **The captures in each repetition of `sub`**: every variable that captured a row stands for one
capture of it.  The rows have to be of one length, and there has to be one. -/
def repetitions (env : Captures) (sub : Value) : Except Fault (List Captures) :=
  match env.rows sub with
  | [] => .error (.rules (.noEllipsisVariable sub))
  | (name, items) :: rows =>
    if rows.all (·.2.length = items.length) then
      .ok ((List.range items.length).map fun index => choose ((name, items) :: rows) index ++ env)
    else .error (.unequalRepetitions sub)

end Captures

namespace Template

/-- **A template that is no pair**: a variable stands for what it captured. -/
def substituteLeaf (env : Captures) (template : Value) : Value :=
  match template.symbol?.bind env.find? with
  | some capture => capture.bare
  | none => template.bare

/-- **A template as an element**, given what its elements become.  `(... x)` stands for `x`. -/
def substituteElement (env : Captures) (template : Value)
    (asList : Except Fault (List Value × Value)) : Except Fault Value :=
  match template with
  | .pair _ head tail =>
    match head.isSymbolNamed ellipsis, tail with
    | true, .pair _ escaped _ => .ok escaped.bare
    | _, _ => do
      let (items, ending) ← asList
      pure (.chain items ending)
  | template => .ok (substituteLeaf env template)

/-- **The elements of a template list** and what ends it. -/
def substituteList : Value → Captures → Except Fault (List Value × Value)
  | .nil, _ => .ok ([], .nil)
  | .pair _ head tail, env =>
    match tail with
    | .pair id next after =>
      if next.isSymbolNamed ellipsis then do
        let envs ← env.repetitions head
        let items ← envs.mapM fun env => substituteElement env head (substituteList head env)
        let (others, ending) ← substituteList after env
        pure (items ++ others, ending)
      else do
        let item ← substituteElement env head (substituteList head env)
        let (others, ending) ← substituteList (.pair id next after) env
        pure (item :: others, ending)
    | tail => do
      let item ← substituteElement env head (substituteList head env)
      let (others, ending) ← substituteList tail env
      pure (item :: others, ending)
  | ending, env => .ok ([], substituteLeaf env ending)

/-- **The tree that a template becomes** with these captures. -/
def substitute (env : Captures) (template : Value) : Except Fault Value :=
  substituteElement env template (substituteList template env)

variable {env : Captures} {head tail after : Value} {id : Nat}

theorem substituteList_repeated (h : tail.afterEllipsis? = some after) :
    substituteList (.pair id head tail) env = (do
      let envs ← env.repetitions head
      let items ← envs.mapM fun env => substituteElement env head (substituteList head env)
      let (others, ending) ← substituteList after env
      pure (items ++ others, ending)) := by
  obtain ⟨_, dots, rfl, hdots⟩ := Value.afterEllipsis?_eq_some_iff.mp h
  rw [substituteList.eq_2, if_pos hdots]

theorem substituteList_item (h : tail.afterEllipsis? = none) :
    substituteList (.pair id head tail) env = (do
      let item ← substituteElement env head (substituteList head env)
      let (others, ending) ← substituteList tail env
      pure (item :: others, ending)) := by
  cases tail with
  | pair _ next after =>
    rw [substituteList.eq_2, if_neg (Value.afterEllipsis?_pair_eq_none_iff.mp h)]
  | _ => rfl

theorem substituteList_indivisible {v : Value} (h : v.Indivisible) :
    substituteList v env = .ok ([], substituteLeaf env v) := by
  cases v with
  | nil => cases h.1
  | pair => cases h.2
  | _ => rfl

end Template

/-! ## 3. Contexts that carry captures -/

/-- **The values that the variables stand for are their captures**, each as deep as its number
says, and no other name has a value. -/
structure Carries (c : TemplateContext) (env : Captures) : Prop where
  global : c.scope.locals = []
  entry : ∀ name,
    (∃ depth capture value, c.depths.lookup name = some depth ∧ env.find? name = some capture ∧
      c.bound.find? name = some value ∧ value.bare = capture.bare ∧ capture.HasDepth depth) ∨
    (c.depths.lookup name = none ∧ env.find? name = none ∧ c.bound.find? name = none)

namespace Carries

open Template

variable {c : TemplateContext} {env : Captures}

theorem lookup (h : Carries c env) {name : String} {capture : Capture}
    (hname : env.find? name = some capture) :
    ∃ value, c.lookup name = pure value ∧ value.bare = capture.bare := by
  rcases h.entry name with ⟨_, capture', value, -, henv, hbound, hvalue, -⟩ | ⟨-, henv, -⟩
  · rw [hname] at henv
    cases henv
    exact ⟨value, by rw [TemplateContext.lookup, hbound], hvalue⟩
  · rw [hname] at henv
    cases henv

/-- No scope inside the global one binds a name. -/
theorem lookupLocal?_eq_none (h : Carries c env) {name : String} (hname : env.find? name = none)
    (s : Store) : c.lookupLocal? s name = none := by
  rcases h.entry name with ⟨_, _, _, -, henv, -⟩ | ⟨-, -, hbound⟩
  · rw [hname] at henv
    cases henv
  · rw [TemplateContext.lookupLocal?, hbound, Store.lookupLocal?, h.global]
    rfl

/-- **A template that is no pair** is instantiated by substitution. -/
theorem agrees_instantiateLeaf (h : Carries c env) (template : Value) :
    Effect.Agrees (fun v t => v.bare = t) (instantiateLeaf c template)
      (.ok (substituteLeaf env template)) := by
  unfold instantiateLeaf substituteLeaf
  cases hsymbol : template.symbol? with
  | none => exact Effect.agrees_pure rfl
  | some name =>
    rcases h.entry name with ⟨_, capture, value, hdepth, henv, -⟩ | ⟨hdepth, henv, -⟩
    · obtain ⟨value, hlookup, hvalue⟩ := h.lookup henv
      simp only [hdepth, Option.isSome_some, if_true, Option.bind_some, henv, hlookup]
      exact Effect.agrees_pure hvalue
    · simp only [hdepth, Option.isSome_none, Bool.false_eq_true, if_false, Option.bind_some, henv]
      refine Effect.Agrees.after (fun s => ⟨s, s, rfl⟩) fun s => ?_
      simp only [h.lookupLocal?_eq_none henv s]
      exact Effect.agrees_pure rfl

end Carries

/-! ## 4. Repetitions -/

theorem Captures.mem_rows_iff {env : Captures} {sub : Value} {row : String × List Capture} :
    row ∈ env.rows sub ↔
      row.1 ∈ Template.symbols [] sub ∧ env.find? row.1 = some (.many row.2) := by
  rw [rows, List.mem_filterMap]
  constructor
  · rintro ⟨name, hmem, hname⟩
    obtain ⟨items, hitems, rfl⟩ := Option.map_eq_some_iff.mp hname
    obtain ⟨capture, hcapture, hmany⟩ := Option.bind_eq_some_iff.mp hitems
    exact ⟨hmem, by rw [hcapture, Capture.items?_eq_some_iff.mp hmany]⟩
  · rintro ⟨hmem, hname⟩
    exact ⟨row.1, hmem, by rw [hname]; rfl⟩

/-- **A value made from one of the captures** in the row that a name captured. -/
def Captures.Chosen (env : Captures) (name : String) (value : Value) (capture : Capture) : Prop :=
  value.bare = capture.bare ∧ ∃ items, env.find? name = some (.many items) ∧ capture ∈ items

/-- Two lists of entries for the same names, in the same order. -/
theorem lookup_of_forall₂ {α β : Type} {R : String → α → β → Prop} {as : List (String × α)}
    {bs : List (String × β)}
    (h : List.Forall₂ (fun a b => a.1 = b.1 ∧ R a.1 a.2 b.2) as bs) (name : String) :
    (∃ a b, as.lookup name = some a ∧ bs.lookup name = some b ∧ name ∈ as.map (·.1) ∧ R name a b) ∨
      (as.lookup name = none ∧ bs.lookup name = none ∧ name ∉ as.map (·.1)) := by
  induction h with
  | nil => exact .inr ⟨rfl, rfl, List.not_mem_nil⟩
  | @cons a b as bs hab _ ih =>
    obtain ⟨key, a⟩ := a
    obtain ⟨key', b⟩ := b
    obtain ⟨rfl, hab⟩ := hab
    by_cases hname : name = key
    · subst hname
      exact .inl ⟨a, b, by simp, by simp, by simp, hab⟩
    · simp only [List.lookup_cons, beq_false_of_ne hname, List.map_cons, List.mem_cons, hname,
        false_or]
      exact ih

/-- The entries of a table after a change to each of its numbers. -/
theorem lookup_map_depths (depths : Pattern.Depths) (f : String → Nat → Nat) (name : String) :
    (depths.map fun (key, depth) => (key, f key depth)).lookup name =
      (depths.lookup name).map (f name) := by
  induction depths with
  | nil => rfl
  | cons entry depths ih =>
    obtain ⟨key, depth⟩ := entry
    by_cases hname : name = key
    · subst hname
      simp
    · simpa [List.lookup_cons, beq_false_of_ne hname] using ih

/-- The elements of one repetition and their captures, name by name. -/
theorem Captures.forall₂_choose {env : Captures} {rows : List (String × List Capture)} {index : Nat}
    (hrows : ∀ row ∈ rows, env.find? row.1 = some (.many row.2))
    (hindex : ∀ row ∈ rows, index < row.2.length) {values : List Value}
    (hvalues : List.Forall₂ (fun v row => some v.bare = row.2[index]?.map Capture.bare)
      values rows) :
    List.Forall₂ (fun a b => a.1 = b.1 ∧ env.Chosen a.1 a.2 b.2) ((rows.map (·.1)).zip values)
      (Captures.choose rows index) := by
  induction hvalues with
  | nil => exact .nil
  | @cons v row values rows hv _ ih =>
    have hrest := ih (fun row hrow => hrows row (List.mem_cons_of_mem _ hrow))
      (fun row hrow => hindex row (List.mem_cons_of_mem _ hrow))
    obtain ⟨name, items⟩ := row
    have hlt : index < items.length := hindex _ List.mem_cons_self
    have hget : items[index]? = some items[index] := List.getElem?_eq_getElem hlt
    have hchoose : Captures.choose ((name, items) :: rows) index =
        (name, items[index]) :: Captures.choose rows index := by
      simp [Captures.choose, hget]
    rw [hget] at hv
    rw [hchoose, List.map_cons, List.zip_cons_cons]
    exact .cons ⟨rfl, Option.some.inj hv, items, hrows _ List.mem_cons_self,
      List.getElem_mem hlt⟩ hrest

/-- **Columns that hold what is left of the rows** from an index on, as trees. -/
def HoldRows (start : Nat) (columns : List (List Value)) (rows : List (String × List Capture)) :
    Prop :=
  List.Forall₂ (fun column row => column.map Value.bare = (row.2.drop start).map Capture.bare)
    columns rows

theorem HoldRows.heads {start : Nat} {columns : List (List Value)}
    {rows : List (String × List Capture)} (hlt : ∀ row ∈ rows, start < row.2.length)
    (h : HoldRows start columns rows) :
    List.Forall₂ (fun v row => some v.bare = row.2[start]?.map Capture.bare)
      (columns.filterMap List.head?) rows := by
  induction h with
  | nil => exact .nil
  | @cons column row columns rows hcolumn _ ih =>
    have hstart := hlt row List.mem_cons_self
    have hrest := ih fun row hrow => hlt row (List.mem_cons_of_mem _ hrow)
    rw [List.drop_eq_getElem_cons hstart, List.map_cons] at hcolumn
    obtain ⟨v, column, rfl, hv, -⟩ := List.map_eq_cons_iff.mp hcolumn
    refine .cons ?_ hrest
    rw [List.getElem?_eq_getElem hstart, hv, Option.map_some]

theorem HoldRows.tails {start : Nat} {columns : List (List Value)}
    {rows : List (String × List Capture)} (h : HoldRows start columns rows) :
    HoldRows (start + 1) (columns.map List.tail) rows := by
  rw [HoldRows, List.forall₂_map_left_iff]
  refine h.imp fun column row hcolumn => ?_
  rw [List.map_tail, hcolumn, ← List.map_tail, List.tail_drop]

namespace Carries

open Template

variable {c : TemplateContext} {env : Captures}

/-- **The variables that drive a repetition** are those that captured a row. -/
theorem driving_eq (h : Carries c env) (sub : Value) :
    driving c sub = (env.rows sub).map (·.1) := by
  unfold driving Captures.rows
  induction symbols [] sub with
  | nil => rfl
  | cons name names ih =>
    rcases h.entry name with
      ⟨depth, capture, value, hdepth, henv, -, -, hcapture⟩ | ⟨hdepth, henv, -⟩
    · cases hcapture with
      | one | rest =>
        simpa [List.filter_cons, List.filterMap_cons, hdepth, henv, Capture.items?] using ih
      | many =>
        simpa [List.filter_cons, List.filterMap_cons, hdepth, henv, Capture.items?] using ih
    · simpa [List.filter_cons, List.filterMap_cons, hdepth, henv] using ih

/-- **The context of one repetition** carries the captures of that repetition.  In it each driving
variable stands for one element of its list, and has one ellipsis less to go. -/
theorem repetition (h : Carries c env) {rows : List (String × List Capture)} {index : Nat}
    (hrows : ∀ row ∈ rows, env.find? row.1 = some (.many row.2))
    (hindex : ∀ row ∈ rows, index < row.2.length) {values : List Value}
    (hvalues : List.Forall₂ (fun v row => some v.bare = row.2[index]?.map Capture.bare)
      values rows) :
    Carries (c.repetition (rows.map (·.1)) values) (Captures.choose rows index ++ env) := by
  have hentries := Captures.forall₂_choose hrows hindex hvalues
  have hnames : ((rows.map (·.1)).zip values).map (·.1) = rows.map (·.1) :=
    List.map_fst_zip (by simp [hvalues.length_eq])
  refine ⟨h.global, fun name => ?_⟩
  have hdepths := lookup_map_depths c.depths
    (fun key depth => if (rows.map (·.1)).contains key then depth - 1 else depth) name
  simp only [TemplateContext.repetition, Bindings.find?, Captures.find?, List.lookup_append,
    hdepths]
  rcases lookup_of_forall₂ hentries name with
    ⟨value, capture, hvalue, hcapture, hmem, hbare, items, henv, hitem⟩ |
    ⟨hvalue, hcapture, hmem⟩
  · rw [hnames] at hmem
    -- the name captured a row, so it has an ellipsis to go
    rcases h.entry name with ⟨depth, many, _, hdepth, hmany, -, -, hhas⟩ | ⟨-, hmany, -⟩
    · rw [henv] at hmany
      cases hmany
      cases hhas with
      | @many _ depth hhas =>
        refine .inl ⟨depth, capture, value, ?_, ?_, ?_, hbare, hhas capture hitem⟩
        · simp [hdepth, hmem]
        · simp [hcapture]
        · simp [hvalue]
    · rw [henv] at hmany
      cases hmany
  · rw [hnames] at hmem
    have hcontains : ¬ (rows.map (·.1)).contains name := by simpa using hmem
    simp only [hvalue, hcapture, Option.none_or, if_neg hcontains, Option.map_id_fun', id_eq]
    exact h.entry name

/-- **The contexts of all repetitions**, from an index on. -/
theorem repetitions (h : Carries c env) {rows : List (String × List Capture)}
    (hrows : ∀ row ∈ rows, env.find? row.1 = some (.many row.2)) {count start : Nat}
    {columns : List (List Value)} (hlength : ∀ row ∈ rows, row.2.length = start + count)
    (hcolumns : HoldRows start columns rows) :
    List.Forall₂ Carries (c.repetitions (rows.map (·.1)) count columns)
      ((List.range' start count).map fun index => Captures.choose rows index ++ env) := by
  induction count generalizing start columns with
  | zero => exact .nil
  | succ count ih =>
    have hlt : ∀ row ∈ rows, start < row.2.length := fun row hrow => by
      rw [hlength row hrow]
      omega
    have hlength' : ∀ row ∈ rows, row.2.length = start + 1 + count := fun row hrow => by
      rw [hlength row hrow]
      omega
    rw [List.range'_succ, List.map_cons]
    exact .cons (h.repetition hrows hlt (hcolumns.heads hlt)) (ih hlength' hcolumns.tails)

/-- A driving variable stands for the list of what its row stands for. -/
theorem lookup_row (h : Carries c env) {name : String} {items : List Capture}
    (hname : env.find? name = some (.many items)) :
    ∃ value, c.lookup name = pure value ∧
      value.elements.map Value.bare = items.map Capture.bare ∧
      value.elements.length = items.length := by
  obtain ⟨value, hlookup, hvalue⟩ := h.lookup hname
  have hcolumn : value.elements.map Value.bare = items.map Capture.bare := by
    rw [← Value.elements_bare, hvalue, Capture.bare, Capture.allBare_eq_map,
      Value.elements_chain_nil]
  exact ⟨value, hlookup, hcolumn, by simpa using congrArg List.length hcolumn⟩

/-- **The lists that the driving variables stand for** are their rows, if these are of one
length. -/
theorem agrees_columns (h : Carries c env) (sub : Value) (count : Nat)
    {rows : List (String × List Capture)}
    (hrows : ∀ row ∈ rows, env.find? row.1 = some (.many row.2)) :
    Effect.Agrees
      (List.Forall₂ fun column row => column.map Value.bare = row.2.map Capture.bare)
      (columns c sub (some count) (rows.map (·.1)))
      (if rows.all (·.2.length = count) then .ok rows else .error (.unequalRepetitions sub)) := by
  induction rows with
  | nil => exact Effect.agrees_pure .nil
  | cons row rows ih =>
    obtain ⟨name, items⟩ := row
    obtain ⟨value, hlookup, hcolumn, hlength⟩ :=
      h.lookup_row (hrows (name, items) List.mem_cons_self)
    have hrest := ih fun row hrow => hrows row (List.mem_cons_of_mem _ hrow)
    rw [List.map_cons, columns, hlookup, pure_bind]
    by_cases hcount : items.length = count
    · have hdirect :
          (if ((name, items) :: rows).all (·.2.length = count) then
            Except.ok ((name, items) :: rows) else .error (Fault.unequalRepetitions sub)) =
          (if rows.all (·.2.length = count) then Except.ok rows
            else .error (Fault.unequalRepetitions sub)) >>=
              fun rows => pure ((name, items) :: rows) := by
        simp only [List.all_cons, hcount, decide_true, Bool.true_and]
        split <;> rfl
      have hsame : ¬ (some count).any (· ≠ value.elements.length) := by
        simp [hlength, hcount]
      rw [hdirect, if_neg hsame, hlength, hcount]
      exact hrest.bind fun others rows hothers => Effect.agrees_pure (.cons hcolumn hothers)
    · have hdiffer : (some count).any (· ≠ value.elements.length) := by
        simpa [hlength] using Ne.symm hcount
      have hnot : ¬ ((name, items) :: rows).all (·.2.length = count) := by
        simp [hcount]
      rw [if_pos hdiffer, if_neg hnot]
      exact Effect.agrees_fail _

/-- **A repetition takes place in the contexts of its repetitions**, or fails for the same
reason. -/
theorem agrees_expandRepetition (h : Carries c env) (sub : Value) :
    Effect.Agrees (List.Forall₂ Carries) (expandRepetition c sub) (env.repetitions sub) := by
  have hrows : ∀ row ∈ env.rows sub, env.find? row.1 = some (.many row.2) :=
    fun row hrow => (Captures.mem_rows_iff.mp hrow).2
  unfold expandRepetition Captures.repetitions
  rw [h.driving_eq sub]
  cases hsub : env.rows sub with
  | nil => exact Effect.agrees_fail _
  | cons row rows =>
    obtain ⟨name, items⟩ := row
    rw [hsub] at hrows
    -- the first of the lists sets the length that the others are compared with
    have hfirst : columns c sub none (((name, items) :: rows).map (·.1)) =
        columns c sub (some items.length) (((name, items) :: rows).map (·.1)) := by
      obtain ⟨value, hlookup, -, hlength⟩ := h.lookup_row (hrows (name, items) List.mem_cons_self)
      simp [columns, hlookup, hlength]
    have hcolumns := h.agrees_columns sub items.length hrows
    have hall : ((name, items) :: rows).all (·.2.length = items.length) =
        rows.all (·.2.length = items.length) := by
      simp
    rw [hall] at hcolumns
    dsimp only
    rw [List.map_cons, List.isEmpty_cons, if_neg (by simp), ← List.map_cons, hfirst]
    split
    · next hequal =>
      rw [if_pos hequal] at hcolumns
      have hlengths : ∀ row ∈ (name, items) :: rows, row.2.length = 0 + items.length := by
        simpa using hequal
      refine hcolumns.bind_ok fun columns hcolumns => ?_
      have hcount : (columns.head?.map List.length).getD 0 = items.length := by
        cases hcolumns with
        | cons hcolumn => simpa using congrArg List.length hcolumn
      rw [hcount, List.range_eq_range']
      refine Effect.Agrees.after (fun s => ⟨_, _, rfl⟩) fun _ => ?_
      exact Effect.agrees_pure (h.repetitions hrows hlengths hcolumns)
    · next hunequal =>
      rw [if_neg hunequal] at hcolumns
      exact hcolumns.bind_error _

end Carries

/-! ## 5. Instantiating is substituting -/

/-- **The items of a list and what ends it**, compared as trees. -/
def SameList (list tree : List Value × Value) : Prop :=
  list.1.map Value.bare = tree.1 ∧ list.2.bare = tree.2

namespace Carries

open Template

variable {c : TemplateContext} {env : Captures}

theorem agrees_instantiateElement (h : Carries c env) (template : Value)
    {asList : Effect (List Value × Value)} {direct : Except Fault (List Value × Value)}
    (hlist : Effect.Agrees SameList asList direct) :
    Effect.Agrees (fun v t => v.bare = t) (instantiateElement c template asList)
      (substituteElement env template direct) := by
  have hleaf := h.agrees_instantiateLeaf template
  cases template with
  | pair id head tail =>
    have hmade : Effect.Agrees (fun v t => v.bare = t)
        (asList >>= fun list => finish (.pair id head tail) list.1 list.2)
        (direct >>= fun tree => pure (.chain tree.1 tree.2)) := by
      refine hlist.bind fun list tree hsame => Effect.agrees_modifyGet fun s => ?_
      rw [← hsame.1, ← hsame.2]
      exact bare_newListWithTail s list.1 list.2
    cases hdots : head.isSymbolNamed ellipsis with
    | false => simpa only [instantiateElement, substituteElement, hdots] using hmade
    | true =>
      cases tail with
      | pair =>
        simp only [instantiateElement, substituteElement, hdots]
        exact Effect.agrees_pure rfl
      | _ => simpa only [instantiateElement, substituteElement, hdots] using hmade
  | _ => exact hleaf

theorem agrees_instantiateList (template : Value) {c : TemplateContext} {env : Captures}
    (h : Carries c env) :
    Effect.Agrees SameList (instantiateList template c) (substituteList template env) := by
  match template with
  | .nil => exact Effect.agrees_pure ⟨rfl, rfl⟩
  | .pair id head tail =>
    have hhead : ∀ {c env}, Carries c env →
        Effect.Agrees (fun v t => v.bare = t) (instantiateElement c head (instantiateList head c))
          (substituteElement env head (substituteList head env)) :=
      fun h => h.agrees_instantiateElement head (agrees_instantiateList head h)
    cases htail : tail.afterEllipsis? with
    | some after =>
      have hsize := Value.sizeOf_afterEllipsis? htail
      rw [instantiateList_repeated htail, substituteList_repeated htail]
      refine (h.agrees_expandRepetition head).bind fun contexts envs hcontexts => ?_
      refine (Effect.agrees_mapM (fun _ _ h => hhead h) hcontexts).bind fun items trees hitems => ?_
      refine (agrees_instantiateList after h).bind fun others rest hothers => ?_
      have htrees : items.map Value.bare = trees := by
        rwa [← List.forall₂_eq_eq_eq, List.forall₂_map_left_iff]
      exact Effect.agrees_pure ⟨by rw [List.map_append, htrees, hothers.1], hothers.2⟩
    | none =>
      rw [instantiateList_item htail, substituteList_item htail]
      refine (hhead h).bind fun item tree hitem => ?_
      refine (agrees_instantiateList tail h).bind fun others rest hothers => ?_
      exact Effect.agrees_pure ⟨congrArg₂ List.cons hitem hothers.1, hothers.2⟩
  | .atom .. | .procedure .. | .transformer .. | .formMarker .. | .hostMarker .. =>
    rw [instantiateList_indivisible ⟨rfl, rfl⟩, substituteList_indivisible ⟨rfl, rfl⟩]
    exact (h.agrees_instantiateLeaf _).bind_ok fun value hvalue =>
      Effect.agrees_pure ⟨rfl, hvalue⟩
termination_by sizeOf template

/-- **Instantiating a template is substituting in it**: the same tree, or the same fault. -/
theorem agrees_instantiate (h : Carries c env) (template : Value) :
    Effect.Agrees (fun v t => v.bare = t) (instantiate c template) (substitute env template) :=
  h.agrees_instantiateElement template (agrees_instantiateList template h)

end Carries

/-! ## 6. A rule in use -/

/-- **The values that captures become** are bound to their names. -/
theorem forall₂_toBindings (captures : Captures) (s : Store) :
    List.Forall₂ (fun a b => a.1 = b.1 ∧ a.2.bare = b.2.bare) (captures.toBindings s).1
      captures := by
  induction captures generalizing s with
  | nil => exact .nil
  | cons entry captures ih => exact .cons ⟨rfl, Capture.bare_toValue entry.2 s⟩ (ih _)

/-- **A template is instantiated in a context that carries what was captured.** -/
theorem carries_of_match? {p : Pattern} (hlinear : p.Linear) {v : Value} {captures : Captures}
    (h : p.match? v = some captures) (s : Store) (root : Nat) :
    Carries ⟨(captures.toBindings s).1, p.depths 0, .ofRoot root⟩ captures := by
  refine ⟨rfl, fun name => ?_⟩
  have hnames : ((p.depths 0).lookup name).isSome ↔ (captures.lookup name).isSome := by
    rw [isSome_lookup_iff, Pattern.map_fst_depths, ← Pattern.isSome_find?_of_match? h,
      Captures.find?]
  rcases lookup_of_forall₂ (R := fun _ (v : Value) (c : Capture) => v.bare = c.bare)
      (forall₂_toBindings captures s) name with
    ⟨value, capture, hvalue, hcapture, -, hbare⟩ | ⟨hvalue, hcapture, -⟩
  · obtain ⟨depth, hdepth⟩ := Option.isSome_iff_exists.mp (hnames.mpr (by simp [hcapture]))
    have hhas := Pattern.hasDepth_of_find? hlinear h (mem_of_lookup_eq_some hdepth) hcapture
    exact .inl ⟨depth, capture, value, hdepth, hcapture, hvalue, hbare, hhas⟩
  · refine .inr ⟨?_, hcapture, hvalue⟩
    refine Option.not_isSome_iff_eq_none.mp fun hsome => ?_
    rw [hnames, hcapture] at hsome
    cases hsome

/-- **A rule in use substitutes what its pattern captured in its template.** -/
theorem agrees_ruleInstantiate {rule : Rule} (hlinear : rule.pattern.Linear) {args : Value}
    {captures : Captures} (h : rule.pattern.match? args = some captures) (root : Nat) :
    Effect.Agrees (fun v t => v.bare = t) (rule.instantiate (.ofRoot root) args captures)
      (Template.substitute captures rule.template) := by
  have hbound : Effect.Agrees (fun bound _ => ∃ s, bound = (captures.toBindings s).1)
      (modifyGet captures.toBindings) (.ok ()) := Effect.agrees_modifyGet fun s => ⟨s, rfl⟩
  refine hbound.bind_ok fun bound ⟨s, hs⟩ => ?_
  rw [hs, ← bind_pure (Template.substitute captures rule.template)]
  refine ((carries_of_match? hlinear h s root).agrees_instantiate rule.template).bind
    fun v t hvt => ?_
  exact Effect.Agrees.after (fun s => ⟨_, _, rfl⟩) fun _ => Effect.agrees_pure hvt

end Lisp
