/-
# Spans are faithful

A datum that was read is marked with the stretch of text that it was written in.  Reading that
stretch on its own gives the same datum again (`readAll_span`).

Two things come together here.  The lexemes of a text write its forms, and those of each object in
a form stand in a row (`Written.exists_part`), be it an item of a list, what follows a dot or what
a quote quotes.  Lexemes in a row are the lexemes of the text they are cut from (`Laid.cut`).  So
that text has a derivation, which is all that the reader asks for.

The pairs further down a list and the symbol that `'x` abbreviates were not written on their own.
They have no span, and nothing is said of them.
-/
import Lisp.Proofs.Layout
import Lisp.Proofs.Reading

namespace Lisp

open ParseTree (allTokens allData)

/-! ## 1. The objects in a datum -/

namespace Datum

/-- **All objects in a datum**, itself included. -/
def parts : Datum → List Datum
  | .nil => [.nil]
  | .atom value span => [.atom value span]
  | .pair head tail span => .pair head tail span :: (head.parts ++ tail.parts)

variable {d tail part : Datum} {items : List Datum} {span : Span}

/-- The place that a datum is marked with changes nothing below it. -/
theorem mem_parts_withSpan {mark : Option Span} (h : part ∈ (d.withSpan mark).parts) :
    part = d.withSpan mark ∨ part ∈ d.parts := by
  cases d with
  | nil => exact .inr h
  | atom value old => exact .inl (List.mem_singleton.mp h)
  | pair head rest old =>
    rcases List.mem_cons.mp h with rfl | h
    · exact .inl rfl
    · exact .inr (List.mem_cons_of_mem _ h)

theorem eq_of_span_withSpan {mark : Option Span} (h : (d.withSpan mark).span = some span) :
    mark = some span := by
  cases d with
  | nil => cases h
  | atom | pair => exact h

/-- **What has a place in a list** is in one of the items or in the tail. -/
theorem mem_parts_listWithTail (h : part ∈ (listWithTail items tail).parts)
    (hspan : part.span = some span) :
    (∃ item ∈ items, part ∈ item.parts) ∨ part ∈ tail.parts := by
  induction items with
  | nil => exact .inr h
  | cons item items ih =>
    rcases List.mem_cons.mp h with rfl | h
    · cases hspan
    rcases List.mem_append.mp h with h | h
    · exact .inl ⟨item, List.mem_cons_self, h⟩
    rcases ih h with ⟨other, hother, hpart⟩ | htail
    · exact .inl ⟨other, List.mem_cons_of_mem item hother, hpart⟩
    · exact .inr htail

/-- **What has a place in a quote** is in what it quotes. -/
theorem mem_parts_quoted (h : part ∈ d.quoted.parts) (hspan : part.span = some span) :
    part ∈ d.parts := by
  rcases mem_parts_listWithTail h hspan with ⟨item, hitem, hpart⟩ | hnil
  · rcases List.mem_cons.mp hitem with rfl | hitem
    · obtain rfl := List.mem_singleton.mp hpart
      cases hspan
    · obtain rfl := List.mem_singleton.mp hitem
      exact hpart
  · obtain rfl := List.mem_singleton.mp hnil
    cases hspan

end Datum

/-! ## 2. The lexemes of an object -/

/-- **Some lexemes in a row, among `ls`, write the one datum `d`.** -/
def WrittenIn (file : Nat) (ls : List Lexeme) (d : Datum) : Prop :=
  ∃ own, own <:+: ls ∧ Written file own [d]

theorem WrittenIn.mono {file : Nat} {ls ls' : List Lexeme} {d : Datum} (h : WrittenIn file ls d)
    (hls : ls <:+: ls') : WrittenIn file ls' d := by
  obtain ⟨own, hown, hwritten⟩ := h
  exact ⟨own, hown.trans hls, hwritten⟩

namespace Reading

variable {file : Nat} {l : Lexeme} {d : Datum}

/-- A datum that is one lexeme has no other objects in it. -/
theorem parts_leaf (h : leaf? file l = some d) : d.parts = [d] := by
  unfold leaf? at h
  split at h <;> cases h <;> rfl

theorem span_leaf (h : leaf? file l = some d) :
    l.token ≠ .quote ∧ d.span = some ⟨file, l.start, l.stop⟩ := by
  unfold leaf? at h
  split at h <;> cases h
  · next htoken => exact ⟨by simp [htoken], rfl⟩
  · next htoken => exact ⟨by simp [htoken], rfl⟩

end Reading

namespace Written

variable {file : Nat} {ls own : List Lexeme} {ds : List Datum} {d part : Datum} {span : Span}

/-- **The lexemes that write an object of the data stand in a row.** -/
theorem writtenIn_of_mem_parts (h : Written file ls ds) (hd : d ∈ ds) (hpart : part ∈ d.parts)
    (hspan : part.span = some span) : WrittenIn file ls part := by
  induction h generalizing d with
  | nil => cases hd
  | @cons own x ls ds hx h ihx ih =>
    rcases List.mem_cons.mp hd with rfl | hd
    · exact (ihx List.mem_cons_self hpart).mono (List.prefix_append own ls).isInfix
    · exact (ih hd hpart).mono (List.suffix_append own ls).isInfix
  | @leaf l x hx =>
    obtain rfl := List.mem_singleton.mp hd
    rw [Reading.parts_leaf hx] at hpart
    obtain rfl := List.mem_singleton.mp hpart
    exact ⟨[l], List.infix_rfl, .leaf hx⟩
  | @quote start stop own x h ih =>
    obtain rfl := List.mem_singleton.mp hd
    rcases Datum.mem_parts_withSpan hpart with rfl | hpart
    · exact ⟨_, List.infix_rfl, .quote h⟩
    have hquoted := ih List.mem_cons_self (Datum.mem_parts_quoted hpart hspan)
    exact hquoted.mono (List.suffix_cons _ own).isInfix
  | @list start after place stop own items h ih =>
    obtain rfl := List.mem_singleton.mp hd
    rcases Datum.mem_parts_withSpan hpart with rfl | hpart
    · exact ⟨_, List.infix_rfl, .list h⟩
    rcases Datum.mem_parts_listWithTail hpart hspan with ⟨item, hitem, hpart⟩ | hnil
    · exact (ih hitem hpart).mono (List.infix_append [_] own _)
    · obtain rfl := List.mem_singleton.mp hnil
      cases hspan
  | @dotted start after dot dotStop place stop own items last tail hitems h hlast ih ihlast =>
    obtain rfl := List.mem_singleton.mp hd
    rcases Datum.mem_parts_withSpan hpart with rfl | hpart
    · exact ⟨_, List.infix_rfl, .dotted hitems h hlast⟩
    rcases Datum.mem_parts_listWithTail hpart hspan with ⟨item, hitem, hpart⟩ | htail
    · exact (ih hitem hpart).mono (List.infix_append [_] own _)
    · have hlast : last <:+: own ++ ⟨.dot, dot, dotStop⟩ :: (last ++ [⟨.closing, place, stop⟩]) :=
        ⟨own ++ [⟨.dot, dot, dotStop⟩], [⟨.closing, place, stop⟩], by simp⟩
      exact (ihlast List.mem_cons_self htail).mono (hlast.trans (List.suffix_cons _ _).isInfix)

theorem eq_nil (h : Written file ls []) : ls = [] := by
  cases h
  rfl

/-- **The place an object is marked with**: its quote alone, or all of its lexemes. -/
theorem span_eq (h : Written file own [part]) (hspan : part.span = some span) :
    ∃ l later, own = l :: later ∧
      span = ⟨file, l.start, if l.token = .quote then l.stop else stopOf l.stop later⟩ := by
  generalize hparts : [part] = ds at h
  induction h with
  | nil => cases hparts
  | cons hd h ihd ih =>
    obtain ⟨rfl, rfl⟩ := List.cons.inj hparts
    obtain rfl := eq_nil h
    rw [List.append_nil]
    exact ihd rfl
  | @leaf l x hx =>
    obtain ⟨rfl, -⟩ := List.cons.inj hparts
    obtain ⟨htoken, hmark⟩ := Reading.span_leaf hx
    refine ⟨l, [], rfl, ?_⟩
    rw [if_neg htoken]
    exact Option.some.inj (hspan.symm.trans hmark)
  | @quote start stop own x h ih =>
    obtain ⟨rfl, -⟩ := List.cons.inj hparts
    exact ⟨_, own, rfl, (Option.some.inj (Datum.eq_of_span_withSpan hspan)).symm⟩
  | @list start after place stop own items h ih =>
    obtain ⟨rfl, -⟩ := List.cons.inj hparts
    refine ⟨_, _, rfl, ?_⟩
    rw [if_neg (by simp), stopOf_concat]
    exact (Option.some.inj (Datum.eq_of_span_withSpan hspan)).symm
  | @dotted start after dot dotStop place stop own items last tail hitems h hlast ih ihlast =>
    obtain ⟨rfl, -⟩ := List.cons.inj hparts
    refine ⟨_, _, rfl, ?_⟩
    rw [if_neg (by simp), ← List.cons_append, ← List.append_assoc, stopOf_concat]
    exact (Option.some.inj (Datum.eq_of_span_withSpan hspan)).symm

end Written

/-! ## 3. The characters of a span -/

/-- **The characters of a text from the start of a span up to its stop**, found by their lines and
columns. -/
def Span.chars (span : Span) (text : List Char) : List Char :=
  charsWithin span.start span.stop .first text

/-- Only the spelling of a quote begins with one. -/
theorem Token.Spelled.head_iff {t : Token} {w rest : List Char} (h : t.Spelled w) :
    (w ++ rest).head? = some '\'' ↔ t = .quote := by
  cases h with
  | quote => simp
  | opening | closing | dot | string | raw | unterminated | unterminatedEscape | unterminatedRaw =>
    simp
  | atom h =>
    cases w with
    | nil => exact absurd rfl h.nonempty
    | cons c w => simp [(h.unquoted c rfl).1]

/-- **What lexemes write is read from their text.** -/
theorem readAll_of_written {file : Nat} {own : List Lexeme} {d : Datum} {w : List Char}
    (h : Written file own [d]) (hw : tokens w = own.map Lexeme.token) :
    ∃ x, readAll file (String.ofList w) = .ok [x] ∧ x.bare = d.bare := by
  obtain ⟨trees, htokens, hdata⟩ := h.derivation
  have hderived : allTokens trees = tokens (String.ofList w).toList := by
    rw [String.toList_ofList, hw, htokens]
  obtain ⟨forms, hread, hforms⟩ := readAll_of_derivation file hderived
  obtain ⟨x, rest, rfl, hx, hrest⟩ := List.map_eq_cons_iff.mp (hforms.trans hdata)
  obtain rfl : rest = [] := List.map_eq_nil_iff.mp hrest
  exact ⟨x, hread, hx⟩

/-- **Spans are faithful.**  An object that is marked with a span was written, where that span
starts, as a text `own`, which read on its own gives exactly this object.  The characters that the
span covers are the `'` alone if `own` begins with one, and all of `own` otherwise. -/
theorem readAll_span {file : Nat} {text : String} {forms : List Datum}
    (h : readAll file text = .ok forms) {form part : Datum} (hform : form ∈ forms)
    (hpart : part ∈ form.parts) {span : Span} (hspan : part.span = some span) :
    span.file = file ∧
      ∃ before own after, text.toList = before ++ own ++ after ∧
        span.start = Position.first.after before ∧
        (∃ x, readAll file (String.ofList own) = .ok [x] ∧ x.bare = part.bare) ∧
        span.chars text.toList = if own.head? = some '\'' then ['\''] else own := by
  obtain ⟨own, ⟨earlier, later, hls⟩, hwritten⟩ :=
    (written_of_readAll h).writtenIn_of_mem_parts hform hpart hspan
  obtain ⟨l, others, rfl, rfl⟩ := hwritten.span_eq hspan
  have hlaid : Laid .first text.toList (earlier ++ (l :: others) ++ later) := by
    rw [hls]
    exact laid_lexemes text.toList
  obtain ⟨a, w, w', b, htext, hstart, hstop, hlast, hw, htokens⟩ := hlaid.cut
  refine ⟨rfl, a, w ++ w', b, htext, hstart, readAll_of_written hwritten htokens, ?_⟩
  by_cases hquote : l.token = .quote
  · obtain rfl : w = ['\''] := by
      rw [hquote] at hw
      cases hw
      rfl
    -- what the quote quotes is part of the text behind it
    have hbehind : text.toList = a ++ ['\''] ++ (w' ++ b) := by simp [htext]
    rw [if_pos (hw.head_iff.mpr hquote), Span.chars, if_pos hquote, hstop, hstart, hbehind,
      charsWithin_cut]
  · rw [if_neg (mt hw.head_iff.mp hquote), Span.chars, if_neg hquote, hlast, hstart, htext,
      charsWithin_cut]

/-- The list after the dot stands on the second and the third line, for it holds a string with a
line break. -/
theorem readAll_span_after_dot :
    ∃ text form part span, readAll 0 text = .ok [form] ∧ part ∈ form.parts ∧
      part.span = some span ∧ span = ⟨0, ⟨2, 1, 5⟩, ⟨3, 4, 14⟩⟩ ∧ span.file = 0 ∧
      ∃ before own after, text.toList = before ++ own ++ after ∧
        span.start = Position.first.after before ∧
        (∃ x, readAll 0 (String.ofList own) = .ok [x] ∧ x.bare = part.bare) ∧
        span.chars text.toList = if own.head? = some '\'' then ['\''] else own := by
  let inner : Datum := .pair (.atom (.symbol "b") (some ⟨0, ⟨2, 2, 6⟩, ⟨2, 3, 7⟩⟩))
    (.pair (.atom (.string "c\nd" false) (some ⟨0, ⟨2, 4, 8⟩, ⟨3, 3, 13⟩⟩)) .nil none)
    (some ⟨0, ⟨2, 1, 5⟩, ⟨3, 4, 14⟩⟩)
  let whole : Datum := .pair (.atom (.symbol "a") (some ⟨0, ⟨1, 2, 1⟩, ⟨1, 3, 2⟩⟩)) inner
    (some ⟨0, ⟨1, 1, 0⟩, ⟨3, 5, 15⟩⟩)
  have hread : readAll 0 "(a .\n(b \"c\nd\"))" = .ok [whole] := by decide +kernel
  have hpart : inner ∈ whole.parts := by decide
  exact ⟨_, whole, inner, _, hread, hpart, rfl, rfl,
    readAll_span hread List.mem_cons_self hpart rfl⟩

end Lisp
