/-
# The first datum of a text, cut off

`firstDatumText` gives the characters of the first datum, from the start of the first lexeme to the
stop of the lexeme that completes the first form.  That these are the right places is shown on both
sides of the cut.

* **Inside.**  The reader completes a form with the lexeme it has just taken, and has taken none
  that belongs to the next (`Reading.exists_first_form`).  The lexemes up to there write that form
  and no other, so their own text is read as exactly it.
* **Behind.**  When the first form is complete nothing is pending, so the rest is read like a text
  of its own (`Contents.ofChars_of_laid`).

In front of the cut there are blanks and comments alone, for there the first lexeme starts.
-/
import Lisp.Proofs.Continuation
import Lisp.Proofs.Spans

namespace Lisp

/-! ## 1. The lexemes of the first form -/

namespace Reading

variable {file : Nat} {r next : Reading} {l : Lexeme}

theorem supply_completes (forms : List Form) (stop : Position) (d : Datum)
    (pending : List Pending) :
    (supply file forms stop d pending).forms = forms ∨
      ∃ whole, supply file forms stop d pending = ⟨[], ⟨whole, stop⟩ :: forms⟩ := by
  induction pending generalizing d with
  | nil => exact .inr ⟨d, rfl⟩
  | cons p pending ih =>
    cases p with
    | quote => exact ih _
    | list | dotted | ending => exact .inl rfl

/-- **A form is completed by the lexeme that it ends with**, and then nothing is pending. -/
theorem Step.completes (h : Step file r l next) :
    next.forms = r.forms ∨ ∃ whole, next = ⟨[], ⟨whole, l.stop⟩ :: r.forms⟩ := by
  cases h with
  | opening | quote | dot => exact .inl rfl
  | leaf | close | closeDotted => exact supply_completes _ _ _ _

/-- **Forms that are complete stay.** -/
theorem forms_suffix_run (file : Nat) (r : Reading) (ls : List Lexeme) :
    r.forms <:+ (r.run file ls).1.forms := by
  induction ls generalizing r with
  | nil => exact List.suffix_rfl
  | cons l ls ih =>
    cases hstep : r.step file l with
    | error e => simp [run, hstep]
    | ok next =>
      have hnext : Step file r l next := step_ok_iff.mp hstep
      rw [run_cons hnext]
      rcases hnext.completes with hforms | ⟨whole, hwhole⟩
      · rw [← hforms]
        exact ih next
      · have hcons : r.forms <:+ next.forms := by
          rw [hwhole]
          exact List.suffix_cons _ _
        exact hcons.trans (ih next)

/-- **The first form is complete after some first lexemes**, with nothing pending, and stops where
the last of them does. -/
theorem exists_first_form {ls : List Lexeme} {form : Form} {forms : List Form} (hr : r.forms = [])
    (h : (r.run file ls).1.forms.reverse = form :: forms) :
    ∃ l own rest, ls = l :: own ++ rest ∧ r.run file (l :: own) = (⟨[], [form]⟩, none) ∧
      stopOf l.stop own = form.stop := by
  induction ls generalizing r with
  | nil => simp [hr] at h
  | cons l ls ih =>
    cases hstep : r.step file l with
    | error e => simp [run, hstep, hr] at h
    | ok next =>
      have hnext : Step file r l next := step_ok_iff.mp hstep
      rw [run_cons hnext] at h
      rcases hnext.completes with hforms | ⟨whole, rfl⟩
      · obtain ⟨l', own, rest, rfl, hrun, hstop⟩ := ih (hforms.trans hr) h
        exact ⟨l, l' :: own, rest, rfl, by rw [run_cons hnext, hrun], hstop⟩
      · -- the form just completed is the first one for good
        obtain ⟨more, hmore⟩ := forms_suffix_run file ⟨[], ⟨whole, l.stop⟩ :: r.forms⟩ ls
        rw [← hmore, hr, List.reverse_append] at h
        obtain ⟨rfl, -⟩ := List.cons.inj h
        exact ⟨l, [], ls, rfl, by rw [run_cons hnext, run_nil, hr], rfl⟩

end Reading

/-! ## 2. Texts without anything around their lexemes -/

/-- **A layout that starts with its first lexeme and stops with its last.** -/
structure Flush (p : Position) (text : List Char) (ls : List Lexeme) : Prop where
  laid : Laid p text ls
  start : ls.head?.map Lexeme.start = some p
  stop : stopOf p ls = p.after text

/-- Between a place and itself there are no characters. -/
theorem Position.eq_nil_of_after_append {p : Position} {a b : List Char}
    (h : p.after (a ++ b) = p.after a) : b = [] := by
  have hoffset := congrArg Position.offset h
  rw [Position.offset_after, Position.offset_after, List.length_append] at hoffset
  exact List.eq_nil_of_length_eq_zero (by omega)

namespace Flush

variable {p : Position} {text : List Char} {l : Lexeme} {ls : List Lexeme}

/-- **It begins with the spelling of the first.** -/
theorem begins (h : Flush p text (l :: ls)) :
    ∃ w rest, text = w ++ rest ∧ l.token.Spelled w ∧ l.stop = p.after w := by
  obtain ⟨a, w, rest, rfl, -, hstart, hstop, hw, -⟩ := h.laid.exists_first
  have hplace : l.start = p := Option.some.inj h.start
  obtain rfl : a = [] := Position.eq_nil_of_after_append (p := p) (a := []) (by
    rw [List.nil_append, ← hstart, hplace, Position.after_nil])
  exact ⟨w, rest, rfl, hw, hplace ▸ hstop⟩

/-- **It ends with the spelling of the last.** -/
theorem ends (h : Flush p text (ls ++ [l])) : ∃ front w, text = front ++ w ∧ l.token.Spelled w := by
  obtain ⟨a, _, rfl, hlast⟩ := h.laid.drop
  obtain ⟨a', w, rest, rfl, -, hstart, hstop, hw, -⟩ := hlast.exists_first
  obtain rfl : rest = [] := Position.eq_nil_of_after_append (p := p) (a := a ++ (a' ++ w)) (by
    have hend := h.stop
    rw [stopOf_concat, hstop, hstart] at hend
    simpa using hend.symm)
  exact ⟨a ++ a', w, by simp, hw⟩

/-- **A single lexeme is all of it.** -/
theorem single (h : Flush p text [l]) : l.token.Spelled text := by
  obtain ⟨w, rest, rfl, hw, hstop⟩ := h.begins
  obtain rfl : rest = [] := Position.eq_nil_of_after_append (h.stop.symm.trans hstop)
  rwa [List.append_nil]

end Flush

/-! ## 3. The text of the first form -/

/-- **A text that has a form is cut in three**: blanks and comments, a piece that starts and stops
with the lexemes that write the first form, and a rest that is read as what remains, from where that
form stops. -/
theorem Contents.exists_piece {file : Nat} {text : List Char} {form : Form} {forms : List Form}
    {error : Option SyntaxError} (h : ofChars file text = ⟨form :: forms, error⟩) :
    ∃ before piece after ls, text = before ++ piece ++ after ∧ Filler before ∧
      Flush (Position.first.after before) piece ls ∧ Written file ls [form.datum] ∧
      (lexemes text).head?.map Lexeme.start = some (Position.first.after before) ∧
      form.stop = Position.first.after (before ++ piece) ∧
      (ofChars file after).moved form.stop = ⟨forms, error⟩ := by
  have hforms : (Reading.initial.run file (lexemes text)).1.forms.reverse = form :: forms :=
    congrArg Contents.forms h
  obtain ⟨l, own, rest, hls, hrun, hstop⟩ := Reading.exists_first_form rfl hforms
  have hlaid : Laid .first text (l :: own ++ rest) := hls ▸ laid_lexemes text
  obtain ⟨before, w, w', after, htext, hfiller, hstart, -, hlast, -, hown, hrest⟩ :=
    hlaid.cut_first
  have hflush : Flush l.start (w ++ w') (l :: own) := ⟨hown, rfl, hlast⟩
  refine ⟨before, w ++ w', after, l :: own, htext, hfiller, hstart ▸ hflush, written_of_run hrun,
    ?_, ?_, ?_⟩
  · rw [hls, ← hstart]
    rfl
  · rw [← hstop, hlast, hstart, ← Position.after_append]
  · rw [hstop] at hrest
    have hcontents := ofChars_of_laid hls hrun hrest
    rw [h] at hcontents
    cases hmoved : (ofChars file after).moved form.stop with
    | mk forms' error' =>
      rw [hmoved] at hcontents
      simp only [List.reverse_singleton, List.singleton_append, mk.injEq, List.cons.injEq, true_and]
        at hcontents
      rw [hcontents.1, hcontents.2]

/-- **The piece is not empty, and is read as the first form.** -/
theorem Contents.exists_cut {file : Nat} {text : List Char} {form : Form} {forms : List Form}
    {error : Option SyntaxError} (h : ofChars file text = ⟨form :: forms, error⟩) :
    ∃ before piece after, text = before ++ piece ++ after ∧ Filler before ∧ piece ≠ [] ∧
      (lexemes text).head?.map Lexeme.start = some (Position.first.after before) ∧
      form.stop = Position.first.after (before ++ piece) ∧
      (∃ x, readAll file (String.ofList piece) = .ok [x] ∧ x.bare = form.datum.bare) ∧
      (ofChars file after).moved form.stop = ⟨forms, error⟩ := by
  obtain ⟨before, piece, after, ls, htext, hfiller, hflush, hwritten, hstart, hstop, hrest⟩ :=
    exists_piece h
  refine ⟨before, piece, after, htext, hfiller, ?_, hstart, hstop,
    readAll_of_written hwritten hflush.laid.tokens_eq, hrest⟩
  cases ls with
  | nil => cases hflush.start
  | cons l ls =>
    obtain ⟨w, rest, rfl, hw, -⟩ := hflush.begins
    obtain ⟨c, spelled, rfl, -⟩ := hw.exists_cons
    simp

/-- What is between two places of a text, by their offsets. -/
theorem take_drop_offset (before piece after : List Char) :
    ((before ++ piece ++ after).drop (Position.first.after before).offset).take
        ((Position.first.after (before ++ piece)).offset - (Position.first.after before).offset) =
      piece := by
  simp [Position.offset_after, Position.first]

/-- **The piece is what is cut off.** -/
theorem firstDatumText_of_piece {text : String} {form : Form} {forms : List Form}
    {error : Option SyntaxError} {before piece after : List Char}
    (h : Contents.ofChars 0 text.toList = ⟨form :: forms, error⟩)
    (htext : text.toList = before ++ piece ++ after)
    (hstart : (lexemes text.toList).head?.map Lexeme.start = some (Position.first.after before))
    (hstop : form.stop = Position.first.after (before ++ piece)) :
    firstDatumText text = .ok (String.ofList piece) := by
  have hoffset : ((lexemes text.toList).head?.map (·.start.offset)).getD 0 =
      (Position.first.after before).offset := by
    have hfirst := congrArg (Option.map Position.offset) hstart
    rw [Option.map_map] at hfirst
    exact congrArg (Option.getD · 0) hfirst
  simp only [firstDatumText, h, hoffset, hstop]
  rw [htext, take_drop_offset]

/-- **Exactly one datum is cut off.**  What is cut off is empty if the text holds nothing to read,
and the error if that is what comes first in it.  Otherwise it is a piece of the text behind nothing
but blanks and comments, it is read on its own as the first form and no other, and the rest of the
text is read as what remains, the error included, each at its place in the text. -/
theorem firstDatumText_cut (text : String) :
    (firstDatumText text = .ok "" ↔ Contents.ofChars 0 text.toList = ⟨[], none⟩) ∧
    (∀ e, firstDatumText text = .error e ↔ Contents.ofChars 0 text.toList = ⟨[], some e⟩) ∧
    ∀ form forms error, Contents.ofChars 0 text.toList = ⟨form :: forms, error⟩ →
      ∃ before piece after, text.toList = before ++ piece ++ after ∧ Filler before ∧
        firstDatumText text = .ok (String.ofList piece) ∧
        (∃ x, readAll 0 (String.ofList piece) = .ok [x] ∧ x.bare = form.datum.bare) ∧
        (Contents.ofChars 0 after).moved (Position.first.after (before ++ piece)) =
          ⟨forms, error⟩ := by
  cases hcontents : Contents.ofChars 0 text.toList with
  | mk forms error =>
    cases forms with
    | nil =>
      cases error <;> simp [firstDatumText, hcontents]
    | cons form forms =>
      obtain ⟨before, piece, after, htext, hfiller, hpiece, hstart, hstop, hread, hrest⟩ :=
        Contents.exists_cut hcontents
      have hcut := firstDatumText_of_piece hcontents htext hstart hstop
      rw [hstop] at hrest
      refine ⟨?_, ?_, ?_⟩
      · simpa [hcut] using hpiece
      · simp [hcut]
      · rintro _ _ _ ⟨⟩
        exact ⟨before, piece, after, htext, hfiller, hcut, hread, hrest⟩

/-- A comment stands in front of the datum, another one in it, and right behind it, with no blank,
what the text fails at. -/
theorem firstDatumText_cut_comment :
    let text := "; c\n '(a ; d\n . \"b\"))x"
    ∃ form e, Contents.ofChars 0 text.toList = ⟨[form], some e⟩ ∧
      ∃ before piece after, text.toList = before ++ piece ++ after ∧ Filler before ∧
        firstDatumText text = .ok (String.ofList piece) ∧
        (∃ x, readAll 0 (String.ofList piece) = .ok [x] ∧ x.bare = form.datum.bare) ∧
        (Contents.ofChars 0 after).moved (Position.first.after (before ++ piece)) =
          ⟨[], some e⟩ := by
  intro text
  let a : Datum := .atom (.symbol "a") (some ⟨0, ⟨2, 4, 7⟩, ⟨2, 5, 8⟩⟩)
  let b : Datum := .atom (.string "b" false) (some ⟨0, ⟨3, 4, 16⟩, ⟨3, 7, 19⟩⟩)
  let list : Datum := .pair a b (some ⟨0, ⟨2, 3, 6⟩, ⟨3, 8, 20⟩⟩)
  let form : Form := ⟨list.quoted.withSpan (some ⟨0, ⟨2, 2, 5⟩, ⟨2, 3, 6⟩⟩), ⟨3, 8, 20⟩⟩
  have hcontents : Contents.ofChars 0 text.toList =
      ⟨[form], some (.unexpectedClosing ⟨3, 8, 20⟩)⟩ := by decide +kernel
  exact ⟨_, _, hcontents, (firstDatumText_cut text).2.2 _ _ _ hcontents⟩

end Lisp
