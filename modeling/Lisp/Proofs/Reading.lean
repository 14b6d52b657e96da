/-
# What the reader accepts

The reader is a push-down machine over lexemes, the grammar a type of derivation trees.  Both
directions of their agreement are proved by what one step does (`Reading.step_ok_iff`).

* **Soundness.**  At every moment the lexemes read so far write the forms completed and the things
  begun, outermost first (`Reads`), each datum marked with its place in them (`Written`).  One step
  keeps this (`Reads.step`), hence so does a run (`Reads.run`).  What lexemes write has a derivation
  (`Written.derivation`).
* **Completeness.**  Over the lexemes of one derivation, in front of anything, the machine hands
  the datum of that derivation to whatever is pending (`ParseTree.delivered`), one case for each
  form of datum.

A derivation knows no places, so there the data are compared without theirs (`Datum.bare`).
-/
import Lisp.Fault
import Lisp.Proofs.Grammar

namespace Lisp

open ParseTree (allTokens allData)

/-! ## 1. Data without places -/

namespace Datum

@[simp] theorem bare_withSpan (d : Datum) (span : Option Span) :
    (d.withSpan span).bare = d.bare := by
  cases d <;> rfl

@[simp] theorem bare_listWithTail (items : List Datum) (tail : Datum) :
    (listWithTail items tail).bare = listWithTail (items.map bare) tail.bare := by
  induction items with
  | nil => rfl
  | cons item items ih => simp [listWithTail, bare, ih]

@[simp] theorem bare_quoted (d : Datum) : d.quoted.bare = d.bare.quoted := by
  simp [quoted, bare]

end Datum

/-! ## 2. What one step does -/

/-- **Where a datum can be accepted**: not right after the one that follows a dot. -/
def Accepting : List Pending → Prop
  | .ending .. :: _ => False
  | _ => True

namespace Reading

/-- **The datum of a lexeme that is one by itself**: an atom or a string. -/
def leaf? (file : Nat) (lexeme : Lexeme) : Option Datum :=
  match lexeme.token with
  | .atom text => some (.atom (.ofChars text) (some ⟨file, lexeme.start, lexeme.stop⟩))
  | .string text raw =>
    some (.atom (.string (String.ofList text) raw) (some ⟨file, lexeme.start, lexeme.stop⟩))
  | _ => none

/-- **The steps of the reader.** -/
inductive Step (file : Nat) : Reading → Lexeme → Reading → Prop where
  | opening {pending forms start stop} (h : Accepting pending) :
    Step file ⟨pending, forms⟩ ⟨.opening, start, stop⟩ ⟨.list start [] :: pending, forms⟩
  | quote {pending forms start stop} (h : Accepting pending) :
    Step file ⟨pending, forms⟩ ⟨.quote, start, stop⟩ ⟨.quote start stop :: pending, forms⟩
  | leaf {pending forms lexeme d} (h : Accepting pending) (hd : leaf? file lexeme = some d) :
    Step file ⟨pending, forms⟩ lexeme (supply file forms lexeme.stop d pending)
  | dot {pending forms begun item items start stop} :
    Step file ⟨.list begun (item :: items) :: pending, forms⟩ ⟨.dot, start, stop⟩
      ⟨.dotted begun (item :: items) start :: pending, forms⟩
  | close {pending forms begun items start stop} :
    Step file ⟨.list begun items :: pending, forms⟩ ⟨.closing, start, stop⟩
      (supply file forms stop
        ((Datum.listWithTail items.reverse .nil).withSpan (some ⟨file, begun, stop⟩)) pending)
  | closeDotted {pending forms begun items tail dot start stop} :
    Step file ⟨.ending begun items tail dot :: pending, forms⟩ ⟨.closing, start, stop⟩
      (supply file forms stop
        ((Datum.listWithTail items.reverse tail).withSpan (some ⟨file, begun, stop⟩)) pending)

theorem accepting_of_ne {pending : List Pending}
    (h : ∀ start items tail dot rest, pending = .ending start items tail dot :: rest → False) :
    Accepting pending := by
  unfold Accepting
  split
  · exact h _ _ _ _ _ rfl
  · trivial

/-- **A lexeme is accepted in these cases and no others.** -/
theorem step_ok_iff {file : Nat} {r r' : Reading} {lexeme : Lexeme} :
    r.step file lexeme = .ok r' ↔ Step file r lexeme r' := by
  obtain ⟨pending, forms⟩ := r
  obtain ⟨token, start, stop⟩ := lexeme
  constructor
  · intro h
    unfold step at h
    -- the branches in the order of the definition; half of them refuse the lexeme
    split at h <;> cases h
    · next hp ht => cases hp; cases ht; exact .closeDotted
    · next ht hp => cases ht; exact .opening (accepting_of_ne hp)
    · next hp ht => cases hp; cases ht; exact .close
    · next hp ht => cases hp; cases ht; exact .dot
    · next ht hp => cases ht; exact .quote (accepting_of_ne hp)
    · next ht hp => cases ht; exact .leaf (accepting_of_ne hp) rfl
    · next ht hp => cases ht; exact .leaf (accepting_of_ne hp) rfl
  · intro h
    cases h with
    | opening hp | quote hp =>
      rcases pending with _ | ⟨_ | _ | _ | _, pending⟩
      case cons.ending => exact hp.elim
      all_goals rfl
    | leaf hp hd =>
      cases token <;> cases hd
      all_goals
        rcases pending with _ | ⟨_ | _ | _ | _, pending⟩
        case cons.ending => exact hp.elim
        all_goals rfl
    | dot | close | closeDotted => rfl

@[simp] theorem run_nil (file : Nat) (r : Reading) : r.run file [] = (r, none) := rfl

/-- **A run goes on after a lexeme that is accepted.** -/
theorem run_cons {file : Nat} {r r' : Reading} {lexeme : Lexeme} (h : Step file r lexeme r')
    (rest : List Lexeme) : r.run file (lexeme :: rest) = r'.run file rest := by
  rw [run, step_ok_iff.mpr h]

/-- **A run that ends without an error** accepted its first lexeme. -/
theorem step_of_run_cons {file : Nat} {r r' : Reading} {lexeme : Lexeme} {rest : List Lexeme}
    (h : r.run file (lexeme :: rest) = (r', none)) :
    ∃ next, Step file r lexeme next ∧ next.run file rest = (r', none) := by
  rw [run] at h
  split at h
  · next next hnext => exact ⟨next, step_ok_iff.mp hnext, h⟩
  · cases h

theorem missing_eq_none_iff {r : Reading} : r.missing = none ↔ r.pending = [] := by
  unfold missing
  split <;> simp_all

end Reading

/-! ### Whole texts -/

section Texts

open Contents (ofChars)

variable {file : Nat}

theorem readAll_eq_ok_iff {text : String} {data : List Datum} :
    readAll file text = .ok data ↔
      (ofChars file text.toList).error = none ∧ (ofChars file text.toList).data = data := by
  unfold readAll
  dsimp only
  split
  · next h => simp [h]
  · next h => simp [h]

theorem readAll_eq_error_iff {text : String} {e : SyntaxError} :
    readAll file text = .error e ↔ (ofChars file text.toList).error = some e := by
  unfold readAll
  dsimp only
  split
  · next h => simp [h]
  · next h => simp [h]

/-- **A text without an error leaves nothing pending.** -/
theorem Contents.run_of_no_error {text : List Char} (h : (ofChars file text).error = none) :
    Reading.initial.run file (lexemes text) = (⟨[], (ofChars file text).forms.reverse⟩, none) := by
  obtain ⟨⟨pending, forms⟩, error, hrun⟩ :
      ∃ r error, Reading.initial.run file (lexemes text) = (r, error) := ⟨_, _, rfl⟩
  simp only [ofChars, hrun] at h ⊢
  cases error with
  | some e => cases h
  | none =>
    obtain rfl : pending = [] := Reading.missing_eq_none_iff.mp h
    simp

end Texts

/-! ## 3. Soundness: what has been read writes what is kept -/

/-- **The lexemes `ls` write the data `ds`**, one after the other and each marked with its place in
them: a list from its parenthesis to the one that closes it, a quote with its `'` alone. -/
inductive Written (file : Nat) : List Lexeme → List Datum → Prop where
  | nil : Written file [] []
  | cons {own d ls ds} (hd : Written file own [d]) (h : Written file ls ds) :
    Written file (own ++ ls) (d :: ds)
  | leaf {l d} (hd : Reading.leaf? file l = some d) : Written file [l] [d]
  | quote {start stop own d} (h : Written file own [d]) :
    Written file (⟨.quote, start, stop⟩ :: own) [d.quoted.withSpan (some ⟨file, start, stop⟩)]
  | list {start after place stop own items} (h : Written file own items) :
    Written file (⟨.opening, start, after⟩ :: (own ++ [⟨.closing, place, stop⟩]))
      [(Datum.listWithTail items .nil).withSpan (some ⟨file, start, stop⟩)]
  | dotted {start after dot dotStop place stop own items last tail} (hitems : items ≠ [])
    (h : Written file own items) (hlast : Written file last [tail]) :
    Written file
      (⟨.opening, start, after⟩ ::
        (own ++ ⟨.dot, dot, dotStop⟩ :: (last ++ [⟨.closing, place, stop⟩])))
      [(Datum.listWithTail items tail).withSpan (some ⟨file, start, stop⟩)]

namespace Written

variable {file : Nat} {ls ls' : List Lexeme} {ds ds' : List Datum}

theorem append (h : Written file ls ds) (h' : Written file ls' ds') :
    Written file (ls ++ ls') (ds ++ ds') := by
  induction h with
  | nil => exact h'
  | cons hd _ _ ih =>
    rw [List.append_assoc]
    exact .cons hd ih
  | leaf hd => exact .cons (.leaf hd) h'
  | quote h => exact .cons (.quote h) h'
  | list h => exact .cons (.list h) h'
  | dotted hitems h hlast => exact .cons (.dotted hitems h hlast) h'

/-- One more datum at the end. -/
theorem concat {items : List Datum} {own : List Lexeme} {x : Datum}
    (h : Written file ls items.reverse) (hx : Written file own [x]) :
    Written file (ls ++ own) (x :: items).reverse := by
  rw [List.reverse_cons]
  exact h.append hx

/-- The derivation of one datum is one tree. -/
theorem exists_tree {trees : List ParseTree} {d : Datum} (h : allData trees = [d].map Datum.bare) :
    ∃ t, trees = [t] ∧ t.datum = d.bare := by
  rw [ParseTree.allData_eq_map] at h
  obtain ⟨t, rest, rfl, ht, hrest⟩ := List.map_eq_cons_iff.mp h
  obtain rfl : rest = [] := List.map_eq_nil_iff.mp hrest
  exact ⟨t, rfl, ht⟩

/-- **What lexemes write has a derivation.** -/
theorem derivation (h : Written file ls ds) :
    ∃ trees, allTokens trees = ls.map Lexeme.token ∧ allData trees = ds.map Datum.bare := by
  induction h with
  | nil => exact ⟨[], rfl, rfl⟩
  | cons _ _ ihd ih =>
    obtain ⟨first, hfirst, hfirstData⟩ := ihd
    obtain ⟨trees, htokens, hdata⟩ := ih
    obtain ⟨t, rfl, ht⟩ := exists_tree hfirstData
    refine ⟨t :: trees, ?_, by simp [allData, ht, hdata]⟩
    simp [allTokens, htokens, ← hfirst]
  | @leaf l d hd =>
    obtain ⟨token, start, stop⟩ := l
    cases token <;> cases hd
    · next text => exact ⟨[.atom text], by simp [allTokens, ParseTree.tokens], rfl⟩
    · next text raw => exact ⟨[.string text raw], by simp [allTokens, ParseTree.tokens], rfl⟩
  | quote _ ih =>
    obtain ⟨inner, hinner, hinnerData⟩ := ih
    obtain ⟨t, rfl, ht⟩ := exists_tree hinnerData
    refine ⟨[.quote t], ?_, by simp [allData, ParseTree.datum, ht]⟩
    simp [allTokens, ParseTree.tokens, ← hinner]
  | list _ ih =>
    obtain ⟨items, hitems, hdata⟩ := ih
    refine ⟨[.list items], ?_, by simp [allData, ParseTree.datum, hdata, Datum.bare]⟩
    simp [allTokens, ParseTree.tokens, hitems]
  | dotted hne _ _ ih ihlast =>
    obtain ⟨items, hitems, hdata⟩ := ih
    obtain ⟨last, hlast, hlastData⟩ := ihlast
    obtain ⟨t, rfl, ht⟩ := exists_tree hlastData
    -- the dot stands after at least one datum
    cases items with
    | nil => exact absurd (List.map_eq_nil_iff.mp hdata.symm) hne
    | cons first others =>
      refine ⟨[.dotted first others t], ?_, by simp [allData, hdata.symm, ht]⟩
      rw [allTokens, ParseTree.tokens_dotted, hitems]
      simp [← hlast, allTokens]

end Written

/-- **What has been read of something begun**, from its first lexeme on. -/
def Pending.Read (file : Nat) : Pending → List Lexeme → Prop
  | .list start items, ls =>
    ∃ after own, Written file own items.reverse ∧ ls = ⟨.opening, start, after⟩ :: own
  | .dotted start items dot, ls =>
    ∃ after own dotStop, items ≠ [] ∧ Written file own items.reverse ∧
      ls = ⟨.opening, start, after⟩ :: (own ++ [⟨.dot, dot, dotStop⟩])
  | .ending start items tail dot, ls =>
    ∃ after own dotStop last, items ≠ [] ∧ Written file own items.reverse ∧
      Written file last [tail] ∧
      ls = ⟨.opening, start, after⟩ :: (own ++ ⟨.dot, dot, dotStop⟩ :: last)
  | .quote start stop, ls => ls = [⟨.quote, start, stop⟩]

/-- **What has been read of all that is pending**, outermost first.  Only the innermost of it can
refuse a datum. -/
inductive Stacked (file : Nat) : List Pending → List Lexeme → Prop where
  | nil : Stacked file [] []
  | cons {p pending ls own} (hrest : Stacked file pending ls) (hp : Accepting pending)
    (hread : p.Read file own) : Stacked file (p :: pending) (ls ++ own)

/-- **The lexemes `ls` are what the reader has read.** -/
def Reads (file : Nat) (r : Reading) (ls : List Lexeme) : Prop :=
  ∃ done begun, Written file done (r.forms.reverse.map Form.datum) ∧
    Stacked file r.pending begun ∧ ls = done ++ begun

theorem reads_initial (file : Nat) : Reads file .initial [] := ⟨[], [], .nil, .nil, rfl⟩

/-- **A complete datum, handed to what is pending.** -/
theorem reads_supply {file : Nat} {forms : List Form} (stop : Position) {done : List Lexeme}
    (hforms : Written file done (forms.reverse.map Form.datum)) {pending : List Pending}
    {begun : List Lexeme} (hstack : Stacked file pending begun) (hpending : Accepting pending)
    {own : List Lexeme} {x : Datum} (hx : Written file own [x]) :
    Reads file (Reading.supply file forms stop x pending) (done ++ begun ++ own) := by
  induction hstack generalizing own x with
  | nil =>
    refine ⟨done ++ own, [], ?_, .nil, by simp⟩
    simpa [Reading.supply] using hforms.append hx
  | @cons p pending ls us hrest hp hread ih =>
    cases p with
    | quote start after =>
      obtain rfl : us = [⟨.quote, start, after⟩] := hread
      have hquoted : Written file (⟨.quote, start, after⟩ :: own)
          [x.quoted.withSpan (some ⟨file, start, after⟩)] := .quote hx
      simpa [Reading.supply] using ih hp hquoted
    | list start items =>
      obtain ⟨after, inside, hitems, rfl⟩ := hread
      refine ⟨done, _, hforms, .cons hrest hp ⟨after, _, hitems.concat hx, rfl⟩, ?_⟩
      simp
    | dotted start items dot =>
      obtain ⟨after, inside, dotStop, hne, hitems, rfl⟩ := hread
      refine ⟨done, _, hforms, .cons hrest hp ⟨after, _, dotStop, _, hne, hitems, hx, rfl⟩, ?_⟩
      simp
    | ending start items tail dot => exact hpending.elim

/-- **One step** reads its lexeme. -/
theorem Reads.step {file : Nat} {r r' : Reading} {lexeme : Lexeme} {ls : List Lexeme}
    (hstep : Reading.Step file r lexeme r') (h : Reads file r ls) :
    Reads file r' (ls ++ [lexeme]) := by
  obtain ⟨done, begun, hforms, hstack, rfl⟩ := h
  cases hstep with
  | @opening pending forms start stop hp =>
    exact ⟨done, _, hforms, .cons hstack hp ⟨stop, [], .nil, rfl⟩, by simp⟩
  | @quote pending forms start stop hp =>
    exact ⟨done, _, hforms, .cons hstack hp rfl, by simp⟩
  | @leaf pending forms lexeme d hp hd =>
    exact reads_supply lexeme.stop hforms hstack hp (.leaf hd)
  | @dot pending forms start item items dot dotStop =>
    cases hstack with
    | cons hrest hp hread =>
      obtain ⟨after, inside, hitems, rfl⟩ := hread
      refine ⟨done, _, hforms, .cons hrest hp ⟨after, inside, dotStop, ?_, hitems, rfl⟩, by simp⟩
      exact List.cons_ne_nil item items
  | @close pending forms start items place stop =>
    cases hstack with
    | cons hrest hp hread =>
      obtain ⟨after, inside, hitems, rfl⟩ := hread
      have hlist : Written file (⟨.opening, start, after⟩ :: (inside ++ [⟨.closing, place, stop⟩]))
          [(Datum.listWithTail items.reverse .nil).withSpan (some ⟨file, start, stop⟩)] :=
        .list hitems
      simpa using reads_supply stop hforms hrest hp hlist
  | @closeDotted pending forms start items tail dot place stop =>
    cases hstack with
    | cons hrest hp hread =>
      obtain ⟨after, inside, dotStop, last, hne, hitems, hlast, rfl⟩ := hread
      have hdotted : Written file
          (⟨.opening, start, after⟩ ::
            (inside ++ ⟨.dot, dot, dotStop⟩ :: (last ++ [⟨.closing, place, stop⟩])))
          [(Datum.listWithTail items.reverse tail).withSpan (some ⟨file, start, stop⟩)] :=
        .dotted (by simpa using hne) hitems hlast
      simpa using reads_supply stop hforms hrest hp hdotted

/-- **A run without an error** reads all its lexemes. -/
theorem Reads.run {file : Nat} {ls : List Lexeme} :
    ∀ {r r' : Reading} {before : List Lexeme}, Reads file r before → r.run file ls = (r', none) →
      Reads file r' (before ++ ls) := by
  induction ls with
  | nil =>
    rintro r r' before h ⟨⟩
    simpa using h
  | cons l ls ih =>
    intro r r' before h hrun
    obtain ⟨next, hstep, hrun⟩ := Reading.step_of_run_cons hrun
    have hnext := ih (h.step hstep) hrun
    simpa using hnext

/-- **Lexemes that leave nothing pending** write the forms that they complete. -/
theorem written_of_run {file : Nat} {ls : List Lexeme} {forms : List Form}
    (h : Reading.initial.run file ls = (⟨[], forms⟩, none)) :
    Written file ls (forms.reverse.map Form.datum) := by
  obtain ⟨done, begun, hforms, hstack, hls⟩ := (reads_initial file).run h
  cases hstack
  rw [List.nil_append, List.append_nil] at hls
  rwa [hls]

/-- **What is read is written in the text**: its lexemes write its forms. -/
theorem written_of_readAll {file : Nat} {text : String} {forms : List Datum}
    (h : readAll file text = .ok forms) : Written file (lexemes text.toList) forms := by
  obtain ⟨hnone, rfl⟩ := readAll_eq_ok_iff.mp h
  have hwritten := written_of_run (Contents.run_of_no_error hnone)
  rwa [List.reverse_reverse] at hwritten

/-- A run reads lexemes up to the one that it refuses. -/
theorem Reads.run_upTo {file : Nat} {ls : List Lexeme} :
    ∀ {r r' : Reading} {before : List Lexeme} {error : Option SyntaxError}, Reads file r before →
      r.run file ls = (r', error) → ∃ read, read <+: ls ∧ Reads file r' (before ++ read) := by
  induction ls with
  | nil =>
    rintro r r' before error h ⟨⟩
    exact ⟨[], List.nil_prefix, by simpa using h⟩
  | cons l ls ih =>
    intro r r' before error h hrun
    unfold Reading.run at hrun
    split at hrun
    · next next hstep =>
      obtain ⟨read, hread, hnext⟩ := ih (h.step (Reading.step_ok_iff.mp hstep)) hrun
      exact ⟨l :: read, by simpa using hread, by simpa using hnext⟩
    · cases hrun
      exact ⟨[], List.nil_prefix, by simpa using h⟩

/-- **The forms in front of an error are written in the text**, like those of a text without one. -/
theorem written_contents (file : Nat) (text : List Char) :
    ∃ done, done <+: lexemes text ∧ Written file done (Contents.ofChars file text).data := by
  unfold Contents.ofChars Contents.data
  obtain ⟨r, hrun⟩ : ∃ r, Reading.initial.run file (lexemes text) = r := ⟨_, rfl⟩
  obtain ⟨r, error⟩ := r
  obtain ⟨read, hread, done, begun, hforms, -, hdone⟩ := (reads_initial file).run_upTo hrun
  rw [List.nil_append] at hdone
  refine ⟨done, ?_, by rwa [hrun]⟩
  exact (List.prefix_append done begun).trans (hdone ▸ hread)

/-- **What is read is derivable**: the tokens of a text that is read have a derivation, and it
writes the forms. -/
theorem derivation_of_readAll {file : Nat} {text : String} {forms : List Datum}
    (h : readAll file text = .ok forms) :
    ∃ ds, allTokens ds = tokens text.toList ∧ allData ds = forms.map Datum.bare :=
  (written_of_readAll h).derivation

/-! ## 4. Completeness: what is derivable is read -/

/-- The first of some lexemes, by its token. -/
theorem lexemes_of_map_cons {ls : List Lexeme} {t : Token} {ts : List Token}
    (h : ls.map Lexeme.token = t :: ts) :
    ∃ start stop ls', ls = ⟨t, start, stop⟩ :: ls' ∧ ls'.map Lexeme.token = ts := by
  obtain ⟨⟨token, start, stop⟩, ls', rfl, rfl, hls'⟩ := List.map_eq_cons_iff.mp h
  exact ⟨start, stop, ls', rfl, hls'⟩

/-- **The machine makes the datum of `d` out of its lexemes** and hands it to what is pending,
whatever comes after. -/
def ParseTree.Delivered (d : ParseTree) : Prop :=
  ∀ (file : Nat) (ls rest : List Lexeme) (pending : List Pending) (forms : List Form),
    ls.map Lexeme.token = d.tokens → Accepting pending →
    ∃ x stop, x.bare = d.datum ∧
      Reading.run file ⟨pending, forms⟩ (ls ++ rest) =
        (Reading.supply file forms stop x pending).run file rest

/-- **The machine collects the data of `ds`** in the list that was begun last. -/
def AllCollected (ds : List ParseTree) : Prop :=
  ∀ (file : Nat) (ls rest : List Lexeme) (start : Position) (items : List Datum)
    (pending : List Pending) (forms : List Form), ls.map Lexeme.token = allTokens ds →
    ∃ xs : List Datum, xs.map Datum.bare = allData ds ∧
      Reading.run file ⟨.list start items :: pending, forms⟩ (ls ++ rest) =
        Reading.run file ⟨.list start (xs.reverse ++ items) :: pending, forms⟩ rest

theorem allCollected_nil : AllCollected [] := by
  intro file ls rest start items pending forms hls
  obtain rfl : ls = [] := by simpa [allTokens] using hls
  exact ⟨[], rfl, rfl⟩

theorem AllCollected.cons {d : ParseTree} {ds : List ParseTree} (hd : d.Delivered)
    (hds : AllCollected ds) : AllCollected (d :: ds) := by
  intro file ls rest start items pending forms hls
  obtain ⟨ls, ls', rfl, hls, hls'⟩ :=
    List.map_eq_append_iff.mp (hls.trans (ParseTree.allTokens_cons d ds))
  obtain ⟨x, stop, hx, hrun⟩ :=
    hd file ls (ls' ++ rest) (.list start items :: pending) forms hls trivial
  obtain ⟨xs, hxs, hruns⟩ := hds file ls' rest start (x :: items) pending forms hls'
  refine ⟨x :: xs, by simp [allData, hx, hxs], ?_⟩
  rw [List.append_assoc, hrun, Reading.supply, hruns]
  simp

namespace ParseTree

/-- A lexeme that is a datum by itself. -/
theorem Delivered.leaf {d : ParseTree} {t : Token} (ht : d.tokens = [t])
    (hd : ∀ file start stop, ∃ x, Reading.leaf? file ⟨t, start, stop⟩ = some x ∧ x.bare = d.datum) :
    d.Delivered := by
  intro file ls rest pending forms hls hpending
  rw [ht] at hls
  obtain ⟨start, stop, ls, rfl, hls⟩ := lexemes_of_map_cons hls
  obtain rfl : ls = [] := by simpa using hls
  obtain ⟨x, hleaf, hx⟩ := hd file start stop
  exact ⟨x, stop, hx, Reading.run_cons (.leaf hpending hleaf) rest⟩

theorem Delivered.quote {d : ParseTree} (hd : d.Delivered) : (ParseTree.quote d).Delivered := by
  intro file ls rest pending forms hls hpending
  rw [tokens] at hls
  obtain ⟨start, stop, ls, rfl, hquoted⟩ := lexemes_of_map_cons hls
  obtain ⟨x, after, hx, hrun⟩ :=
    hd file ls rest (.quote start stop :: pending) forms hquoted trivial
  refine ⟨x.quoted.withSpan (some ⟨file, start, stop⟩), after, by simp [datum, hx], ?_⟩
  rw [List.cons_append, Reading.run_cons (.quote hpending), hrun, Reading.supply]

theorem Delivered.list {items : List ParseTree} (hitems : AllCollected items) :
    (ParseTree.list items).Delivered := by
  intro file ls rest pending forms hls hpending
  rw [tokens] at hls
  obtain ⟨start, _, ls, rfl, hinside⟩ := lexemes_of_map_cons hls
  obtain ⟨ls, close, rfl, hitem, hclose⟩ := List.map_eq_append_iff.mp hinside
  obtain ⟨_, stop, close, rfl, hend⟩ := lexemes_of_map_cons hclose
  obtain rfl : close = [] := by simpa using hend
  obtain ⟨xs, hxs, hrun⟩ := hitems file ls _ start [] pending forms hitem
  refine ⟨(Datum.listWithTail xs .nil).withSpan (some ⟨file, start, stop⟩), stop, ?_, ?_⟩
  · simp [datum, hxs, Datum.bare]
  · rw [List.cons_append, Reading.run_cons (.opening hpending), List.append_assoc, hrun,
      List.cons_append, Reading.run_cons .close]
    simp

theorem Delivered.dotted {first last : ParseTree} {others : List ParseTree}
    (hitems : AllCollected (first :: others)) (hlast : last.Delivered) :
    (ParseTree.dotted first others last).Delivered := by
  intro file ls rest pending forms hls hpending
  rw [tokens_dotted] at hls
  obtain ⟨start, _, ls, rfl, hinside⟩ := lexemes_of_map_cons hls
  obtain ⟨ls, after, rfl, hitem, hafter⟩ := List.map_eq_append_iff.mp hinside
  obtain ⟨dot, _, after, rfl, hending⟩ := lexemes_of_map_cons hafter
  obtain ⟨tail, close, rfl, htail, hclose⟩ := List.map_eq_append_iff.mp hending
  obtain ⟨_, stop, close, rfl, hend⟩ := lexemes_of_map_cons hclose
  obtain rfl : close = [] := by simpa using hend
  obtain ⟨xs, hxs, hrun⟩ := hitems file ls _ start [] pending forms hitem
  -- the dot is accepted because there is an item in front of it
  obtain ⟨item, items, hreverse⟩ : ∃ item items, xs.reverse = item :: items := by
    cases hreverse : xs.reverse with
    | nil => simp [List.reverse_eq_nil_iff.mp hreverse, allData] at hxs
    | cons item items => exact ⟨item, items, rfl⟩
  obtain ⟨x, _, hx, hdelivered⟩ :=
    hlast file tail _ (.dotted start (item :: items) dot :: pending) forms htail trivial
  refine ⟨(Datum.listWithTail xs x).withSpan (some ⟨file, start, stop⟩), stop, ?_, ?_⟩
  · simp [hxs, hx]
  · rw [List.cons_append, Reading.run_cons (.opening hpending), List.append_assoc, hrun,
      List.append_nil, hreverse, List.cons_append, Reading.run_cons .dot, List.append_assoc,
      hdelivered, Reading.supply, List.cons_append, Reading.run_cons .closeDotted, ← hreverse]
    simp

mutual

/-- **The lexemes of one datum make that datum.**  One case for each form of datum. -/
theorem delivered : ∀ d : ParseTree, d.Delivered
  | .atom _ => .leaf (by rw [tokens]) fun _ _ _ => ⟨_, rfl, rfl⟩
  | .string _ _ => .leaf (by rw [tokens]) fun _ _ _ => ⟨_, rfl, rfl⟩
  | .quote d => (delivered d).quote
  | .list items => .list (allCollected items)
  | .dotted first others last =>
    .dotted (.cons (delivered first) (allCollected others)) (delivered last)

/-- **The lexemes of several data make those data**, in their order. -/
theorem allCollected : ∀ ds : List ParseTree, AllCollected ds
  | [] => allCollected_nil
  | d :: ds => .cons (delivered d) (allCollected ds)

end

end ParseTree

/-- **A text of several data** makes them its forms. -/
theorem run_forms (file : Nat) (ds : List ParseTree) :
    ∀ (ls : List Lexeme) (forms : List Form), ls.map Lexeme.token = allTokens ds →
    ∃ done : List Form, done.map (fun form => form.datum.bare) = allData ds ∧
      Reading.run file ⟨[], forms⟩ ls = (⟨[], done.reverse ++ forms⟩, none) := by
  induction ds with
  | nil =>
    intro ls forms hls
    obtain rfl : ls = [] := by simpa [allTokens] using hls
    exact ⟨[], rfl, rfl⟩
  | cons d ds ih =>
    intro ls forms hls
    obtain ⟨ls, ls', rfl, hls, hls'⟩ :=
      List.map_eq_append_iff.mp (hls.trans (ParseTree.allTokens_cons d ds))
    obtain ⟨x, stop, hx, hrun⟩ := d.delivered file ls ls' [] forms hls trivial
    obtain ⟨done, hdone, hruns⟩ := ih ls' (⟨x, stop⟩ :: forms) hls'
    refine ⟨⟨x, stop⟩ :: done, by simp [allData, hx, hdone], ?_⟩
    rw [hrun, Reading.supply, hruns]
    simp

/-- **What is derivable is read**, as the data that the derivation writes. -/
theorem readAll_of_derivation (file : Nat) {text : String} {ds : List ParseTree}
    (h : allTokens ds = tokens text.toList) :
    ∃ forms, readAll file text = .ok forms ∧ forms.map Datum.bare = allData ds := by
  obtain ⟨done, hdone, hrun⟩ := run_forms file ds (lexemes text.toList) [] h.symm
  refine ⟨done.map Form.datum, ?_, by simpa [Function.comp_def] using hdone⟩
  unfold readAll Contents.ofChars
  rw [Reading.initial, hrun]
  simp [Reading.missing, Contents.data]

/-- **Nothing else is read**: reading succeeds only where there is a derivation. -/
theorem readAll_error_of_no_derivation (file : Nat) {text : String}
    (h : ¬ ∃ ds, allTokens ds = tokens text.toList) : ∃ e, readAll file text = .error e := by
  cases hread : readAll file text with
  | error e => exact ⟨e, rfl⟩
  | ok forms =>
    obtain ⟨ds, hds, -⟩ := derivation_of_readAll hread
    exact absurd ⟨ds, hds⟩ h

/-! ## 5. The reader accepts exactly its grammar -/

/-- **A text is read if and only if its tokens are derivable as a sequence of data**, and its forms
are the trees of the derivation, of which there is one only.  Every other text is a syntax error.
The lone `.` is the dot of the grammar and never an atom. -/
theorem readAll_iff_derivation (file : Nat) (text : String) :
    (∀ data, (∃ forms, readAll file text = .ok forms ∧ forms.map Datum.bare = data) ↔
      ∃ ds, allTokens ds = tokens text.toList ∧ allData ds = data) ∧
    (∀ ds ds', allTokens ds = tokens text.toList → allTokens ds' = tokens text.toList → ds = ds') ∧
    ((¬ ∃ ds, allTokens ds = tokens text.toList) →
      ∃ e, readAll file text = .error e ∧ (Fault.unreadable e).kind = .syntaxError) ∧
    .atom ['.'] ∉ tokens text.toList := by
  refine ⟨fun data => ⟨?_, ?_⟩, ?_, fun h => ?_, fun hdot => ?_⟩
  · rintro ⟨forms, hread, rfl⟩
    exact derivation_of_readAll hread
  · rintro ⟨ds, hds, rfl⟩
    exact readAll_of_derivation file hds
  · intro ds ds' hds hds'
    exact ParseTree.allTokens_injective (hds.trans hds'.symm)
  · obtain ⟨e, he⟩ := readAll_error_of_no_derivation file h
    exact ⟨e, he, rfl⟩
  · exact (atomText_of_mem_tokens hdot).undotted rfl

end Lisp
