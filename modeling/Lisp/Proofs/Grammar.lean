/-
# The grammar of data

    datum  ::=  atom  |  string  |  ' datum  |  ( datum* )  |  ( datum+ . datum )

A `ParseTree` is a derivation tree of `datum`.  It has a yield, the tokens at its leaves
(`ParseTree.tokens`), and a meaning, the datum that those tokens write (`ParseTree.datum`).

The grammar is unambiguous in a strong form (`ParseTree.tokens_cancel`): a row of tokens that
starts with the yield of a datum does so in one way only, whatever follows.  Hence the tokens of a
whole text have at most one derivation (`allTokens_injective`).
-/
import Lisp.Proofs.Tokens
import Lisp.Datum
import Lisp.Numeral

namespace Lisp

/-! ## 1. Derivation trees, their yield and their meaning -/

/-- **A derivation tree of one datum.**  There is no tree for a lone `.`, and none for a string
that does not end. -/
inductive ParseTree where
  | atom (text : List Char)
  | string (text : List Char) (raw : Bool)
  | quote (datum : ParseTree)
  | list (items : List ParseTree)
  /-- At least one datum in front of the dot and exactly one after it. -/
  | dotted (first : ParseTree) (others : List ParseTree) (last : ParseTree)

namespace ParseTree

mutual

/-- **The tokens at the leaves.** -/
def tokens : ParseTree → List Token
  | .atom text => [.atom text]
  | .string text raw => [.string text raw]
  | .quote d => .quote :: d.tokens
  | .list items => .opening :: (allTokens items ++ [.closing])
  | .dotted first others last =>
    .opening :: (first.tokens ++ allTokens others ++ .dot :: (last.tokens ++ [.closing]))

/-- **The tokens of several data** in a row. -/
def allTokens : List ParseTree → List Token
  | [] => []
  | d :: ds => d.tokens ++ allTokens ds

end

mutual

/-- **The datum that a derivation writes.**  `'x` is the two element list `(quote x)`, and a dotted
list goes on with its last datum, be it a list or not. -/
def datum : ParseTree → Datum
  | .atom text => .atom (.ofChars text) none
  | .string text raw => .atom (.string (String.ofList text) raw) none
  | .quote d => d.datum.quoted
  | .list items => Datum.listWithTail (allData items) .nil
  | .dotted first others last => Datum.listWithTail (first.datum :: allData others) last.datum

/-- **The data that several derivations write.** -/
def allData : List ParseTree → List Datum
  | [] => []
  | d :: ds => d.datum :: allData ds

end

theorem allTokens_cons (d : ParseTree) (ds : List ParseTree) :
    allTokens (d :: ds) = d.tokens ++ allTokens ds := by
  rw [allTokens]

theorem allTokens_append (ds es : List ParseTree) :
    allTokens (ds ++ es) = allTokens ds ++ allTokens es := by
  induction ds with
  | nil => rfl
  | cons d ds ih => rw [List.cons_append, allTokens, allTokens, ih, List.append_assoc]

theorem allData_eq_map (ds : List ParseTree) : allData ds = ds.map datum := by
  induction ds with
  | nil => rfl
  | cons d ds ih => rw [allData, ih, List.map_cons]

@[simp] theorem tokens_dotted (first : ParseTree) (others : List ParseTree) (last : ParseTree) :
    (dotted first others last).tokens =
      .opening :: (allTokens (first :: others) ++ .dot :: (last.tokens ++ [.closing])) := by
  simp only [tokens, allTokens]

@[simp] theorem datum_dotted (first : ParseTree) (others : List ParseTree) (last : ParseTree) :
    (dotted first others last).datum =
      Datum.listWithTail (allData (first :: others)) last.datum := by
  simp only [datum, allData]

/-! ## 2. The grammar is unambiguous -/

end ParseTree

/-- **A token that a datum can begin with.** -/
def Token.Begins : Token → Prop
  | .opening | .quote | .atom _ | .string _ _ => True
  | .closing | .dot | .unterminated => False

/-- **Nothing can follow here as one more datum**: the tokens end, or go on with one that no datum
begins with. -/
def NoDatum (ts : List Token) : Prop :=
  ∀ t, ts.head? = some t → ¬ t.Begins

theorem noDatum_nil : NoDatum [] := by
  simp [NoDatum]

theorem noDatum_cons {t : Token} (ht : ¬ t.Begins) {ts : List Token} : NoDatum (t :: ts) := by
  rintro u ⟨⟩
  exact ht

namespace ParseTree

/-- Every datum has a first token. -/
theorem tokens_head (d : ParseTree) : ∃ t ts, d.tokens = t :: ts ∧ t.Begins := by
  cases d with
  | atom text => exact ⟨_, _, rfl, trivial⟩
  | string text raw => exact ⟨_, _, rfl, trivial⟩
  | quote d => exact ⟨.quote, d.tokens, by rw [tokens], trivial⟩
  | list items => exact ⟨.opening, _, by rw [tokens], trivial⟩
  | dotted first others last => exact ⟨.opening, _, by rw [tokens], trivial⟩

/-- Where nothing can follow as a datum, nothing does. -/
theorem not_noDatum_tokens (d : ParseTree) (rest : List Token) :
    ¬ NoDatum (d.tokens ++ rest) := by
  obtain ⟨t, ts, hd, ht⟩ := d.tokens_head
  rw [hd]
  exact fun h => h t rfl ht

/-- The yield of `d` can be split off a row of tokens in one way only. -/
def Cancels (d : ParseTree) : Prop :=
  ∀ (d' : ParseTree) (rest rest' : List Token),
    d.tokens ++ rest = d'.tokens ++ rest' → d = d' ∧ rest = rest'

/-- The yield of all of `ds` can be split off in one way only, if no further datum follows. -/
def AllCancel (ds : List ParseTree) : Prop :=
  ∀ (ds' : List ParseTree) (rest rest' : List Token), NoDatum rest → NoDatum rest' →
    allTokens ds ++ rest = allTokens ds' ++ rest' → ds = ds' ∧ rest = rest'

theorem allCancel_nil : AllCancel [] := by
  intro ds' rest rest' hrest _ h
  cases ds' with
  | nil => exact ⟨rfl, h⟩
  | cons d' ds' =>
    simp only [allTokens, List.nil_append, List.append_assoc] at h
    exact absurd (h ▸ hrest) (not_noDatum_tokens d' _)

theorem AllCancel.cons {d : ParseTree} {ds : List ParseTree} (hd : d.Cancels)
    (hds : AllCancel ds) : AllCancel (d :: ds) := by
  intro ds' rest rest' hrest hrest' h
  cases ds' with
  | nil =>
    simp only [allTokens, List.nil_append, List.append_assoc] at h
    exact absurd (h ▸ hrest') (not_noDatum_tokens d _)
  | cons d' ds' =>
    simp only [allTokens, List.append_assoc] at h
    obtain ⟨rfl, htail⟩ := hd d' _ _ h
    obtain ⟨rfl, hend⟩ := hds ds' rest rest' hrest hrest' htail
    exact ⟨rfl, hend⟩

theorem Cancels.quote {d : ParseTree} (hd : d.Cancels) : (ParseTree.quote d).Cancels := by
  intro d' rest rest' h
  cases d' <;> simp [tokens] at h
  next d' =>
    obtain ⟨rfl, hend⟩ := hd d' rest rest' h
    exact ⟨rfl, hend⟩

theorem Cancels.list {items : List ParseTree} (hitems : AllCancel items) :
    (ParseTree.list items).Cancels := by
  intro d' rest rest' h
  have hrest : NoDatum (.closing :: rest) := noDatum_cons id
  cases d' <;> simp [tokens] at h
  · next items' =>
    obtain ⟨rfl, htail⟩ := hitems items' _ _ hrest (noDatum_cons id) h
    exact ⟨rfl, by simpa using htail⟩
  · next first others last =>
    -- the items agree, but the one list goes on with `)` and the other with the dot
    rw [← List.append_assoc, ← allTokens] at h
    obtain ⟨-, htail⟩ := hitems (first :: others) _ _ hrest (noDatum_cons id) h
    simp at htail

theorem Cancels.dotted {first last : ParseTree} {others : List ParseTree}
    (hitems : AllCancel (first :: others)) (hlast : last.Cancels) :
    (ParseTree.dotted first others last).Cancels := by
  intro d' rest rest' h
  have hrest : NoDatum (.dot :: (last.tokens ++ .closing :: rest)) := noDatum_cons id
  cases d' <;> simp [tokens] at h
  all_goals rw [← List.append_assoc, ← allTokens] at h
  · next items' =>
    obtain ⟨-, htail⟩ := hitems items' _ _ hrest (noDatum_cons id) h
    simp at htail
  · next first' others' last' =>
    rw [← List.append_assoc, ← allTokens] at h
    obtain ⟨heads, htail⟩ := hitems (first' :: others') _ _ hrest (noDatum_cons id) h
    obtain ⟨rfl, hend⟩ := hlast last' _ _ (List.cons.inj htail).2
    obtain ⟨rfl, rfl⟩ := List.cons.inj heads
    exact ⟨rfl, by simpa using hend⟩

mutual

/-- **The yield of a datum is split off in one way only.**  One case for each form of datum. -/
theorem tokens_cancel : ∀ d : ParseTree, d.Cancels
  | .atom text => by
    intro d' rest rest' h
    cases d' <;> simp [tokens] at h
    simpa using h
  | .string text raw => by
    intro d' rest rest' h
    cases d' <;> simp [tokens] at h
    simpa [and_assoc] using h
  | .quote d => (tokens_cancel d).quote
  | .list items => Cancels.list (allTokens_cancel items)
  | .dotted first others last =>
    Cancels.dotted (AllCancel.cons (tokens_cancel first) (allTokens_cancel others))
      (tokens_cancel last)

/-- **The yield of several data is split off in one way only.** -/
theorem allTokens_cancel : ∀ ds : List ParseTree, AllCancel ds
  | [] => allCancel_nil
  | d :: ds => AllCancel.cons (tokens_cancel d) (allTokens_cancel ds)

end

/-- **The tokens of a text have at most one derivation.** -/
theorem allTokens_injective {ds ds' : List ParseTree} (h : allTokens ds = allTokens ds') :
    ds = ds' :=
  (allTokens_cancel ds ds' [] [] noDatum_nil noDatum_nil (by rw [h])).1

end ParseTree

end Lisp
