/-
# Categories agree with the reader

`Category.ofChars` looks at the two ends of a text and at the number grammar, and reads nothing.
For a text that is one datum with nothing but blanks around it this is enough, since the ends of the
text are then ends of tokens:

* a list begins with `(` and ends with `)`, and nothing else that begins with `(` is a datum;
* a quote begins with `'`;
* a string has its delimiter at both ends, whatever is escaped in between;
* an atom begins with none of these, wherever else they stand in it, so that for it the number
  grammar and the two booleans decide, as they do in the reader.

That the ends of the text are ends of tokens is what the hypothesis gives, that the text without its
blanks is its first datum (`Filler.blank_of_trimBlanks`): a comment would be neither trimmed nor cut
off.
-/
import Lisp.Category
import Lisp.Proofs.FirstDatum

namespace Lisp

open ParseTree (allTokens allData)

/-! ## 1. Blanks around a text -/

section Blanks

variable {text before piece after : List Char} {c : Char}

/-- **What comes first among blanks and comments** is a blank, or the `;` of a comment. -/
theorem Filler.blank_or_comment (h : Filler text) :
    (∀ d ∈ text, isBlank d) ∨
      ∃ blanks rest, text = blanks ++ ';' :: rest ∧ ∀ d ∈ blanks, isBlank d := by
  induction h with
  | nil => exact .inl (by simp)
  | @blank d text hd _ ih =>
    rcases ih with hblank | ⟨blanks, rest, rfl, hblank⟩
    · exact .inl (List.forall_mem_cons.mpr ⟨hd, hblank⟩)
    · exact .inr ⟨d :: blanks, rest, rfl, List.forall_mem_cons.mpr ⟨hd, hblank⟩⟩
  | @comment w text _ _ _ => exact .inr ⟨[], w ++ '\n' :: text, rfl, by simp⟩

theorem dropWhile_isBlank_append (hbefore : ∀ d ∈ before, isBlank d) (hc : isBlank c = false)
    (rest : List Char) : (before ++ c :: rest).dropWhile isBlank = c :: rest := by
  rw [List.dropWhile_append_of_pos hbefore, List.dropWhile_cons_of_neg (by simp [hc])]

/-- **Trimming takes blanks off**, at the end as well. -/
theorem trimBlanks_append (text : List Char) :
    ∃ blanks, text.dropWhile isBlank = trimBlanks text ++ blanks ∧ ∀ d ∈ blanks, isBlank d := by
  refine ⟨((text.dropWhile isBlank).reverse.takeWhile isBlank).reverse, ?_, fun d hd => ?_⟩
  · rw [trimBlanks, ← List.reverse_append, List.takeWhile_append_dropWhile, List.reverse_reverse]
  · exact List.mem_takeWhile_imp (List.mem_reverse.mp hd)

/-- **If trimming leaves what stands behind the filler**, then only blanks stand around it. -/
theorem Filler.blank_of_trimBlanks (hbefore : Filler before) (hpiece : piece.head? = some c)
    (hc : isBlank c = false) (hcomment : c ≠ ';')
    (htrim : trimBlanks (before ++ piece ++ after) = piece) : ∀ d ∈ after, isBlank d := by
  obtain ⟨rest, rfl⟩ : ∃ rest, piece = c :: rest := List.head?_eq_some_iff.mp hpiece
  obtain ⟨blanks, hdrop, hblanks⟩ := trimBlanks_append (before ++ c :: rest ++ after)
  rw [htrim, List.append_assoc] at hdrop
  rcases hbefore.blank_or_comment with hblank | ⟨front, behind, rfl, hfront⟩
  · rw [List.cons_append, dropWhile_isBlank_append hblank hc] at hdrop
    rwa [List.append_cancel_left (List.cons.inj hdrop).2]
  · -- a comment would stay in front
    rw [List.append_assoc, List.cons_append, dropWhile_isBlank_append hfront (by decide)] at hdrop
    exact absurd (List.cons.inj hdrop).1.symm hcomment

/-- **There is nothing to read in blanks.** -/
theorem Contents.ofChars_of_blank (file : Nat) (h : ∀ d ∈ text, isBlank d) :
    ofChars file text = ⟨[], none⟩ := by
  have hlaid : ∀ p, Laid p text [] := by
    induction text with
    | nil => exact fun _ => .nil
    | cons d text ih =>
      obtain ⟨hd, htext⟩ := List.forall_mem_cons.mp h
      exact fun p => .blank hd (ih htext _)
  rw [ofChars, (hlaid .first).lexemes_eq]
  rfl

end Blanks

/-! ## 2. The ends of a datum -/

/-- **What a datum of this derivation has at its two ends.** -/
inductive Ends (text : List Char) : ParseTree → Prop where
  | atom (h : AtomText text) : Ends text (.atom text)
  | string {content raw c} (hc : c = '"' ∨ c = '`') (h : Category.delimitedBy c text = true) :
    Ends text (.string content raw)
  | quote {d} (h : text.head? = some '\'') : Ends text (.quote d)
  | list {items} (hfirst : text.head? = some '(') (hlast : text.getLast? = some ')') :
    Ends text (.list items)
  | dotted {first others last} (hfirst : text.head? = some '(') (hlast : text.getLast? = some ')') :
    Ends text (.dotted first others last)

namespace Ends

variable {p : Position} {text : List Char} {ls : List Lexeme} {d : ParseTree}

theorem delimitedBy_of_ends (c : Char) (body : List Char) :
    Category.delimitedBy c (c :: (body ++ [c])) = true := by
  rw [Category.delimitedBy, ← List.cons_append, List.getLast?_concat]
  simp

theorem head?_of_delimitedBy {c : Char} (h : Category.delimitedBy c text = true) :
    text.head? = some c := by
  simp only [Category.delimitedBy, Bool.and_eq_true, beq_iff_eq] at h
  exact h.1.2

/-- **A text between an opening and a closing parenthesis.** -/
theorem parentheses {inner : List Token} (h : Flush p text ls)
    (hls : ls.map Lexeme.token = .opening :: (inner ++ [.closing])) :
    text.head? = some '(' ∧ text.getLast? = some ')' := by
  obtain ⟨start, after, rest, rfl, hrest⟩ := lexemes_of_map_cons hls
  obtain ⟨own, _, rfl, -, hclosing⟩ := List.map_eq_append_iff.mp hrest
  obtain ⟨⟨token, place, stop⟩, rfl, rfl⟩ := List.map_eq_singleton_iff.mp hclosing
  have hends : Flush p text ((⟨.opening, start, after⟩ :: own) ++ [⟨.closing, place, stop⟩]) := h
  obtain ⟨w, behind, hbegin, hw, -⟩ := h.begins
  obtain ⟨front, w', hend, hw'⟩ := hends.ends
  cases hw
  cases hw'
  exact ⟨by simp [hbegin], by simp [hend]⟩

/-- **A text that starts and stops with the tokens of a datum** has its ends. -/
theorem of_flush (h : Flush p text ls) (hls : ls.map Lexeme.token = d.tokens) : Ends text d := by
  cases d with
  | atom w =>
    obtain ⟨l, rfl, hl⟩ := List.map_eq_singleton_iff.mp (hls.trans (by rw [ParseTree.tokens]))
    have hspelled := h.single
    rw [hl] at hspelled
    cases hspelled with
    | atom hw => exact .atom hw
  | string content raw =>
    obtain ⟨l, rfl, hl⟩ := List.map_eq_singleton_iff.mp (hls.trans (by rw [ParseTree.tokens]))
    have hspelled := h.single
    rw [hl] at hspelled
    cases hspelled with
    | string => exact .string (.inl rfl) (delimitedBy_of_ends _ _)
    | raw => exact .string (.inr rfl) (delimitedBy_of_ends _ _)
  | quote d =>
    obtain ⟨_, _, rest, rfl, -⟩ := lexemes_of_map_cons (hls.trans (by rw [ParseTree.tokens]))
    obtain ⟨w, behind, rfl, hw, -⟩ := h.begins
    exact .quote (hw.head_iff.mpr rfl)
  | list items =>
    obtain ⟨hfirst, hlast⟩ := parentheses h (hls.trans (by rw [ParseTree.tokens]))
    exact .list hfirst hlast
  | dotted first others last =>
    have htokens : (ParseTree.dotted first others last).tokens =
        .opening :: (allTokens (first :: others) ++ .dot :: last.tokens ++ [.closing]) := by
      rw [ParseTree.tokens_dotted, List.append_assoc, List.cons_append]
    obtain ⟨hfirst, hlast⟩ := parentheses h (hls.trans htokens)
    exact .dotted hfirst hlast

end Ends

/-! ## 3. Categories of derivations -/

/-- **The category that a derivation should have.**  Atoms are constants unless they are symbols. -/
def ParseTree.category : ParseTree → Category
  | .atom text =>
    if (Datum.atom (.ofChars text) none).isSymbol then .reference else .selfEvaluating
  | .string .. => .selfEvaluating
  | .quote _ => .quoted
  | .list _ | .dotted .. => .list

theorem Numeral.toAtom_cases (n : Numeral) :
    (∃ k, n.toAtom = .integer k) ∨ ∃ x, n.toAtom = .float x := by
  unfold toAtom
  split
  · split
    · exact .inl ⟨_, rfl⟩
    · exact .inr ⟨_, rfl⟩
  · exact .inr ⟨_, rfl⟩

/-- The constants among the atoms are the booleans and what the number grammar accepts. -/
theorem isSymbol_ofChars_iff (text : List Char) :
    (Datum.atom (.ofChars text) none).isSymbol = true ↔
      ¬ ((Numeral.ofChars? text).isSome ∨ text = ['#', 't'] ∨ text = ['#', 'f']) := by
  by_cases htrue : text = ['#', 't']
  · rw [Atom.ofChars, if_pos htrue]
    exact iff_of_false nofun (not_not.mpr (.inr (.inl htrue)))
  by_cases hfalse : text = ['#', 'f']
  · rw [Atom.ofChars, if_neg htrue, if_pos hfalse]
    exact iff_of_false nofun (not_not.mpr (.inr (.inr hfalse)))
  rw [Atom.ofChars, if_neg htrue, if_neg hfalse]
  cases Numeral.ofChars? text with
  | none => simp [htrue, hfalse, Datum.isSymbol]
  | some n =>
    refine iff_of_false ?_ (not_not.mpr (.inl rfl))
    dsimp only
    rcases n.toAtom_cases with ⟨k, hk⟩ | ⟨x, hx⟩
    · rw [hk]
      nofun
    · rw [hx]
      nofun

/-- **An atom begins like no other datum.** -/
theorem AtomText.head?_ne {text : List Char} (h : AtomText text) :
    text.head? ≠ some '(' ∧ text.head? ≠ some '\'' ∧ text.head? ≠ some '"' ∧
      text.head? ≠ some '`' := by
  refine ⟨fun hc => ?_, fun hc => ?_, fun hc => ?_, fun hc => ?_⟩
  · cases h.undelimited _ (List.mem_of_head? hc)
  · exact (h.unquoted _ hc).1 rfl
  · exact (h.unquoted _ hc).2.1 rfl
  · exact (h.unquoted _ hc).2.2 rfl

/-- **The two ends and the number grammar tell the category.** -/
theorem Ends.category_eq {text : List Char} {d : ParseTree} (h : Ends (trimBlanks text) d) :
    Category.ofChars text = d.category := by
  unfold Category.ofChars
  generalize trimBlanks text = piece at h
  cases h with
  | atom h =>
    obtain ⟨hopening, hquote, hstring, hraw⟩ := h.head?_ne
    simp only [ParseTree.category, isSymbol_ofChars_iff, ite_not]
    simp [Category.delimitedBy, hopening, hquote, hstring, hraw, or_assoc]
  | @string content raw c hc h =>
    have hhead : piece.head? = some c := head?_of_delimitedBy h
    rcases hc with rfl | rfl
    all_goals simp [hhead, h, ParseTree.category]
  | quote h => simp [h, ParseTree.category]
  | list hfirst hlast => simp [hfirst, hlast, ParseTree.category]
  | dotted hfirst hlast => simp [hfirst, hlast, ParseTree.category]

/-- **A datum begins with no blank and with no comment.** -/
theorem Ends.exists_head {text : List Char} {d : ParseTree} (h : Ends text d) :
    ∃ c, text.head? = some c ∧ isBlank c = false ∧ c ≠ ';' := by
  cases h with
  | atom h =>
    cases text with
    | nil => exact absurd rfl h.nonempty
    | cons c text =>
      have hc := h.undelimited c List.mem_cons_self
      simp only [isDelimiter, Bool.or_eq_false_iff, beq_eq_false_iff_ne] at hc
      exact ⟨c, rfl, hc.1.1.1, hc.2⟩
  | @string content raw c hc h =>
    refine ⟨c, head?_of_delimitedBy h, ?_⟩
    rcases hc with rfl | rfl <;> decide
  | quote h | list h | dotted h => exact ⟨_, h, by decide, by decide⟩

/-- **Only quotes begin with one.** -/
theorem Ends.head?_iff {text : List Char} {d : ParseTree} (h : Ends text d) :
    text.head? = some '\'' ↔ d.category = .quoted := by
  cases h with
  | atom h =>
    refine iff_of_false h.head?_ne.2.1 ?_
    rw [ParseTree.category]
    split <;> decide
  | @string content raw c hc h =>
    have hhead : text.head? = some c := head?_of_delimitedBy h
    rcases hc with rfl | rfl
    all_goals simp [hhead, ParseTree.category]
  | quote h => simp [h, ParseTree.category]
  | list hfirst | dotted hfirst => simp [hfirst, ParseTree.category]

/-! ## 4. Categories of data -/

namespace Datum

/-- **Whether the datum is a list**, proper or not, the empty one among them. -/
def IsList : Datum → Prop
  | .nil | .pair .. => True
  | .atom .. => False

/-- **Whether the datum is a boolean, a number or a string.** -/
def IsConstant : Datum → Prop
  | .atom (.boolean _) _ | .atom (.integer _) _ | .atom (.float _) _ | .atom (.string ..) _ => True
  | .atom (.symbol _) _ | .nil | .pair .. => False

theorem isList_bare (d : Datum) : d.bare.IsList ↔ d.IsList := by
  cases d <;> rfl

theorem isConstant_bare (d : Datum) : d.bare.IsConstant ↔ d.IsConstant := by
  cases d with
  | atom value span => cases value <;> rfl
  | nil | pair => rfl

theorem isSymbol_bare (d : Datum) : d.bare.isSymbol = d.isSymbol := by
  cases d with
  | atom value span => cases value <;> rfl
  | nil | pair => rfl

theorem isList_listWithTail (items : List Datum) : (listWithTail items .nil).IsList := by
  cases items <;> trivial

end Datum

namespace ParseTree

theorem category_eq_list_iff (d : ParseTree) :
    d.category = .list ↔ d.datum.IsList ∧ d.category ≠ .quoted := by
  cases d with
  | atom text =>
    rw [category, datum]
    split <;> simp [Datum.IsList]
  | string text raw => simp [category, datum, Datum.IsList]
  | quote d => simp [category]
  | list items => simpa [category, datum] using Datum.isList_listWithTail _
  | dotted first others last => simp [category, datum, Datum.listWithTail, Datum.IsList]

theorem category_eq_selfEvaluating_iff (d : ParseTree) :
    d.category = .selfEvaluating ↔ d.datum.IsConstant := by
  cases d with
  | atom text =>
    rw [category, datum]
    cases Atom.ofChars text <;> simp [Datum.IsConstant, Datum.isSymbol]
  | string text raw => simp [category, datum, Datum.IsConstant]
  | quote d => simp [category, datum, Datum.quoted, Datum.listWithTail, Datum.IsConstant]
  | list items =>
    cases items <;> simp [category, datum, allData, Datum.listWithTail, Datum.IsConstant]
  | dotted first others last => simp [category, datum, Datum.listWithTail, Datum.IsConstant]

theorem category_eq_reference_iff (d : ParseTree) :
    d.category = .reference ↔ d.datum.isSymbol = true := by
  cases d with
  | atom text =>
    rw [category, datum]
    cases Atom.ofChars text <;> simp [Datum.isSymbol]
  | string text raw => simp [category, datum, Datum.isSymbol]
  | quote d => simp [category, datum, Datum.quoted, Datum.listWithTail, Datum.isSymbol]
  | list items =>
    cases items <;> simp [category, datum, allData, Datum.listWithTail, Datum.isSymbol]
  | dotted first others last => simp [category, datum, Datum.listWithTail, Datum.isSymbol]

end ParseTree

/-! ## 5. Texts of one datum -/

/-- **A text that is its first datum but for blanks** is read as this datum, which has a derivation
with the ends of the trimmed text. -/
theorem exists_derivation_of_firstDatumText {text : String} (hne : trimBlanks text.toList ≠ [])
    (hfirst : firstDatumText text = .ok (String.ofList (trimBlanks text.toList))) :
    ∃ datum d, readAll 0 text = .ok [datum] ∧ d.datum = datum.bare ∧
      Ends (trimBlanks text.toList) d := by
  cases hcontents : Contents.ofChars 0 text.toList with
  | mk forms error =>
    cases forms with
    | nil =>
      -- an empty text is no datum
      cases error with
      | none => simp [firstDatumText, hcontents, hne] at hfirst
      | some e => simp [firstDatumText, hcontents] at hfirst
    | cons form forms =>
      obtain ⟨before, piece, after, ls, htext, hfiller, hflush, hwritten, hstart, hstop, hrest⟩ :=
        Contents.exists_piece hcontents
      have hpiece : piece = trimBlanks text.toList := by
        rw [firstDatumText_of_piece hcontents htext hstart hstop] at hfirst
        exact String.ofList_injective (Except.ok.inj hfirst)
      obtain ⟨trees, htokens, hdata⟩ := hwritten.derivation
      obtain ⟨d, rfl, hd⟩ := Written.exists_tree hdata
      have hends : Ends piece d := .of_flush hflush (by simpa [allTokens] using htokens.symm)
      refine ⟨form.datum, d, ?_, hd, hpiece ▸ hends⟩
      have hblank : ∀ c ∈ after, isBlank c := by
        obtain ⟨c, hc, hblank, hcomment⟩ := hends.exists_head
        refine hfiller.blank_of_trimBlanks hc hblank hcomment ?_
        rw [← htext, hpiece]
      rw [Contents.ofChars_of_blank 0 hblank] at hrest
      obtain ⟨rfl, rfl⟩ := Contents.mk.inj hrest
      rw [readAll_eq_ok_iff, hcontents]
      exact ⟨rfl, rfl⟩

/-- **Categories agree with the reader.**  A text that is its first datum but for blanks is read as
that datum.  It is classified as quoted if and only if the datum starts with `'`, as a list if and
only if the datum is a pair or the empty list and does not start so, as self evaluating if and only
if it is a boolean, a number or a string, and as a reference if and only if it is a symbol. -/
theorem category_agrees_with_reader {text : String} (hne : trimBlanks text.toList ≠ [])
    (hfirst : firstDatumText text = .ok (String.ofList (trimBlanks text.toList))) :
    ∃ datum, readAll 0 text = .ok [datum] ∧
      (Category.ofChars text.toList = .quoted ↔ (trimBlanks text.toList).head? = some '\'') ∧
      (Category.ofChars text.toList = .list ↔
        datum.IsList ∧ (trimBlanks text.toList).head? ≠ some '\'') ∧
      (Category.ofChars text.toList = .selfEvaluating ↔ datum.IsConstant) ∧
      (Category.ofChars text.toList = .reference ↔ datum.isSymbol = true) := by
  obtain ⟨datum, d, hread, hdatum, hends⟩ := exists_derivation_of_firstDatumText hne hfirst
  refine ⟨datum, hread, ?_⟩
  rw [hends.category_eq, ne_eq, hends.head?_iff, d.category_eq_list_iff,
    d.category_eq_selfEvaluating_iff, d.category_eq_reference_iff, hdatum, Datum.isList_bare,
    Datum.isConstant_bare, Datum.isSymbol_bare]
  exact ⟨Iff.rfl, Iff.rfl, Iff.rfl, Iff.rfl⟩

/-- The last character of the string is an escaped backslash, right before the delimiter, and there
is another delimiter inside. -/
theorem category_of_escaped_string :
    let text := "\t \"a\\\" \\\\\"\n"
    trimBlanks text.toList ≠ [] ∧
      firstDatumText text = .ok (String.ofList (trimBlanks text.toList)) ∧
      ∃ datum, readAll 0 text = .ok [datum] ∧ Category.ofChars text.toList = .selfEvaluating ∧
        datum.IsConstant := by
  intro text
  have hne : trimBlanks text.toList ≠ [] := by decide +kernel
  have hfirst : firstDatumText text = .ok (String.ofList (trimBlanks text.toList)) := by
    decide +kernel
  obtain ⟨datum, hread, -, -, hconstant, -⟩ := category_agrees_with_reader hne hfirst
  have hcategory : Category.ofChars text.toList = .selfEvaluating := by decide +kernel
  exact ⟨hne, hfirst, datum, hread, hcategory, hconstant.mp hcategory⟩

end Lisp
