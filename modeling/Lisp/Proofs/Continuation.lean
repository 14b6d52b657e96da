/-
# Reading goes on where it stopped

What the reader makes of the rest of a text does not depend on what it has read, as long as nothing
is pending.  The rest is read like a text of its own, and only the places differ
(`Contents.ofChars_of_laid`).

Two facts make this up, and neither is about any particular text.

* **The scanner.**  A text that is laid out from some place on is laid out by the same lexemes from
  any other place, each of them moved (`Laid.moved`).  A move keeps to lines and columns: only on
  the line of the new origin are there characters in front (`Position.moved`).
* **The reader.**  It copies places and never compares them, and it never looks at the forms it has
  completed.  So a step does the same on moved lexemes and behind any forms (`Reading.Step.behind`),
  and so does a run.

From this it follows that a text of several lines is read line by line wherever a line ends with
nothing pending (`readAll_line`).  What has to be seen there is that the newline ends whatever the
first text ended in: an atom, a dot or a comment, but never a string, for the text was read.
-/
import Lisp.Proofs.Layout
import Lisp.Proofs.Reading

namespace Lisp

/-! ## 1. Places that move -/

namespace Position

/-- **The place that is as far behind `origin` as `p` is behind the first place.**  Only the line of
`origin` has columns in front of it. -/
def moved (p origin : Position) : Position where
  line := origin.line + p.line - 1
  column := if p.line = 1 then origin.column + p.column - 1 else p.column
  offset := origin.offset + p.offset

@[simp] theorem moved_first (origin : Position) : first.moved origin = origin := by
  simp [moved, first]

/-- **Lines and columns count from one**, as at every place in a text. -/
structure Counted (p : Position) : Prop where
  line_pos : 0 < p.line
  column_pos : 0 < p.column

theorem counted_first : first.Counted := ⟨by decide, by decide⟩

variable {p : Position}

theorem Counted.advance (h : p.Counted) (c : Char) : (p.advance c).Counted := by
  obtain ⟨hline, hcolumn⟩ := h
  unfold Position.advance
  split
  · exact ⟨Nat.succ_pos _, Nat.one_pos⟩
  · exact ⟨hline, Nat.succ_pos _⟩

/-- **Moving and taking a character commute.** -/
theorem Counted.moved_advance (h : p.Counted) (origin : Position) (c : Char) :
    (p.advance c).moved origin = (p.moved origin).advance c := by
  obtain ⟨hline, hcolumn⟩ := h
  by_cases hc : c = '\n'
  · have hnext : p.line + 1 ≠ 1 := by omega
    simp only [Position.advance, hc, if_true, moved, hnext, if_false, mk.injEq, true_and]
    omega
  · by_cases hfirst : p.line = 1
    · simp only [Position.advance, hc, if_false, moved, hfirst, if_true, mk.injEq, true_and]
      omega
    · simp only [Position.advance, hc, if_false, moved, hfirst, mk.injEq, true_and]
      omega

theorem Counted.after (h : p.Counted) (text : List Char) : (p.after text).Counted := by
  induction text generalizing p with
  | nil => exact h
  | cons c text ih => exact ih (h.advance c)

theorem Counted.moved_after (h : p.Counted) (origin : Position) (text : List Char) :
    (p.after text).moved origin = (p.moved origin).after text := by
  induction text generalizing p with
  | nil => rfl
  | cons c text ih => rw [after_cons, after_cons, ih (h.advance c), h.moved_advance]

/-- **Every newline starts a line.** -/
theorem line_after (p : Position) (text : List Char) :
    (p.after text).line = p.line + text.count '\n' := by
  induction text generalizing p with
  | nil => rfl
  | cons c text ih =>
    rw [after_cons, ih]
    by_cases hc : c = '\n'
    · simp only [advance, hc, if_true, List.count_cons_self]
      omega
    · simp only [advance, hc, if_false, List.count_cons_of_ne hc]

theorem offset_after (p : Position) (text : List Char) :
    (p.after text).offset = p.offset + text.length := by
  induction text generalizing p with
  | nil => rfl
  | cons c text ih =>
    have hadvance : (p.advance c).offset = p.offset + 1 := by
      unfold advance
      split <;> rfl
    rw [after_cons, ih, hadvance, List.length_cons]
    omega

end Position

/-! ## 2. Lexemes that move -/

/-- **The same lexeme, in a text that starts at `origin`.** -/
def Lexeme.moved (origin : Position) (l : Lexeme) : Lexeme :=
  ⟨l.token, l.start.moved origin, l.stop.moved origin⟩

namespace Laid

variable {p : Position} {text : List Char} {ls ls' : List Lexeme}

/-- **A layout can start anywhere.** -/
theorem moved (h : Laid p text ls) (hp : p.Counted) (origin : Position) :
    Laid (p.moved origin) text (ls.map (Lexeme.moved origin)) := by
  induction h with
  | nil => exact .nil
  | @blank p c text ls hc h ih =>
    refine .blank hc ?_
    rw [← hp.moved_advance]
    exact ih (hp.advance c)
  | @comment p w text ls hw htext h ih =>
    refine .comment hw htext ?_
    rw [← hp.moved_after]
    exact ih (hp.after _)
  | @lexeme p t w text ls hw htext h ih =>
    rw [List.map_cons, Lexeme.moved, hp.moved_after]
    refine .lexeme hw htext ?_
    rw [← hp.moved_after]
    exact ih (hp.after w)

/-- **A text has one layout** from each place. -/
theorem unique (h : Laid p text ls) (h' : Laid p text ls') : ls = ls' := by
  have hscan := (h.finish_scan []).symm.trans (h'.finish_scan [])
  simpa using hscan

/-- **What lies in a text behind some place** are its own lexemes, moved there. -/
theorem eq_map_moved (h : Laid p text ls) : ls = (lexemes text).map (Lexeme.moved p) := by
  have hown := (laid_lexemes text).moved Position.counted_first p
  rw [Position.moved_first] at hown
  exact h.unique hown

end Laid

/-! ## 3. The reader behind other forms -/

/-- **The same stretch, of a text that starts at `origin`.** -/
def Span.moved (origin : Position) (span : Span) : Span :=
  ⟨span.file, span.start.moved origin, span.stop.moved origin⟩

/-- **The same datum, read from a text that starts at `origin`.** -/
def Datum.moved (origin : Position) : Datum → Datum
  | .nil => .nil
  | .atom value span => .atom value (span.map (Span.moved origin))
  | .pair head tail span =>
    .pair (head.moved origin) (tail.moved origin) (span.map (Span.moved origin))

namespace Datum

variable (origin : Position)

@[simp] theorem bare_moved (d : Datum) : (d.moved origin).bare = d.bare := by
  induction d with
  | nil | atom => rfl
  | pair head tail span ihHead ihTail => rw [moved, bare, ihHead, ihTail, bare]

theorem moved_withSpan (d : Datum) (span : Option Span) :
    (d.withSpan span).moved origin = (d.moved origin).withSpan (span.map (Span.moved origin)) := by
  cases d <;> rfl

theorem moved_listWithTail (items : List Datum) (tail : Datum) :
    (listWithTail items tail).moved origin =
      listWithTail (items.map (moved origin)) (tail.moved origin) := by
  induction items with
  | nil => rfl
  | cons item items ih => simp [listWithTail, moved, ih]

theorem moved_quoted (d : Datum) : d.quoted.moved origin = (d.moved origin).quoted := rfl

end Datum

/-- **The same error, in a text that starts at `origin`.** -/
def SyntaxError.moved (origin : Position) : SyntaxError → SyntaxError
  | .unterminatedString p => .unterminatedString (p.moved origin)
  | .unclosedList p => .unclosedList (p.moved origin)
  | .unexpectedClosing p => .unexpectedClosing (p.moved origin)
  | .unexpectedDot p => .unexpectedDot (p.moved origin)
  | .notOneAfterDot p => .notOneAfterDot (p.moved origin)
  | .nothingToQuote p => .nothingToQuote (p.moved origin)

@[simp] theorem SyntaxError.place_moved (origin : Position) (e : SyntaxError) :
    (e.moved origin).place = e.place.moved origin := by
  cases e <;> rfl

@[simp] theorem SyntaxError.description_moved (origin : Position) (e : SyntaxError) :
    (e.moved origin).description = e.description := by
  cases e <;> rfl

/-- **The same, begun in a text that starts at `origin`.** -/
def Pending.moved (origin : Position) : Pending → Pending
  | .list start items => .list (start.moved origin) (items.map (Datum.moved origin))
  | .dotted start items dot =>
    .dotted (start.moved origin) (items.map (Datum.moved origin)) (dot.moved origin)
  | .ending start items tail dot =>
    .ending (start.moved origin) (items.map (Datum.moved origin)) (tail.moved origin)
      (dot.moved origin)
  | .quote start stop => .quote (start.moved origin) (stop.moved origin)

/-- **The same form, of a text that starts at `origin`.** -/
def Form.moved (origin : Position) (form : Form) : Form :=
  ⟨form.datum.moved origin, form.stop.moved origin⟩

/-- **The same contents, of a text that starts at `origin`.** -/
def Contents.moved (origin : Position) (contents : Contents) : Contents :=
  ⟨contents.forms.map (Form.moved origin), contents.error.map (SyntaxError.moved origin)⟩

namespace Reading

/-- **The same reading, of a text that starts at `origin`**, after the forms `done` have been
completed in front of it. -/
def behind (origin : Position) (done : List Form) (r : Reading) : Reading :=
  ⟨r.pending.map (Pending.moved origin), r.forms.map (Form.moved origin) ++ done⟩

variable {file : Nat} {origin : Position} {done : List Form}

theorem supply_behind (forms : List Form) (stop : Position) (d : Datum) (pending : List Pending) :
    supply file (forms.map (Form.moved origin) ++ done) (stop.moved origin) (d.moved origin)
        (pending.map (Pending.moved origin)) =
      (supply file forms stop d pending).behind origin done := by
  induction pending generalizing d with
  | nil => rfl
  | cons p pending ih =>
    cases p with
    | quote start after =>
      rw [List.map_cons, Pending.moved, supply, supply, ← ih, Datum.moved_withSpan,
        Datum.moved_quoted]
      rfl
    | list | dotted | ending => rfl

/-- A list that is complete, with any tail. -/
theorem supply_list_behind (forms : List Form) (start stop : Position) (items : List Datum)
    (tail : Datum) (pending : List Pending) :
    supply file (forms.map (Form.moved origin) ++ done) (stop.moved origin)
        ((Datum.listWithTail (items.map (Datum.moved origin)).reverse (tail.moved origin)).withSpan
          (some ⟨file, start.moved origin, stop.moved origin⟩))
        (pending.map (Pending.moved origin)) =
      (supply file forms stop
        ((Datum.listWithTail items.reverse tail).withSpan (some ⟨file, start, stop⟩))
        pending).behind origin done := by
  rw [← supply_behind, Datum.moved_withSpan, Datum.moved_listWithTail, List.map_reverse]
  rfl

theorem accepting_moved {pending : List Pending} (h : Accepting pending) :
    Accepting (pending.map (Pending.moved origin)) := by
  rcases pending with _ | ⟨_ | _ | _ | _, rest⟩
  case cons.ending => exact h.elim
  all_goals trivial

theorem leaf?_moved {l : Lexeme} {d : Datum} (h : leaf? file l = some d) :
    leaf? file (l.moved origin) = some (d.moved origin) := by
  obtain ⟨token, start, stop⟩ := l
  cases token <;> cases h <;> rfl

/-- **A lexeme that is accepted** is so when it is moved and behind other forms. -/
theorem Step.behind {r next : Reading} {l : Lexeme} (h : Step file r l next) :
    Step file (r.behind origin done) (l.moved origin) (next.behind origin done) := by
  cases h with
  | opening h => exact .opening (accepting_moved h)
  | quote h => exact .quote (accepting_moved h)
  | leaf h hd =>
    rw [← supply_behind]
    exact .leaf (accepting_moved h) (leaf?_moved hd)
  | dot => exact .dot
  | close =>
    rw [← supply_list_behind]
    exact .close
  | closeDotted =>
    rw [← supply_list_behind]
    exact .closeDotted

/-- **A lexeme that is refused** is then refused for the same reason. -/
theorem step_error_behind {r : Reading} {l : Lexeme} {e : SyntaxError}
    (h : r.step file l = .error e) :
    (r.behind origin done).step file (l.moved origin) = .error (e.moved origin) := by
  obtain ⟨pending, forms⟩ := r
  obtain ⟨token, start, stop⟩ := l
  rcases pending with _ | ⟨⟨begun, _ | _⟩ | _ | _ | _, rest⟩
  all_goals
    cases token <;> cases h
    all_goals rfl

/-- **A run does the same on moved lexemes and behind other forms.** -/
theorem run_behind (file : Nat) (origin : Position) (done : List Form) (r : Reading)
    (ls : List Lexeme) :
    (r.behind origin done).run file (ls.map (Lexeme.moved origin)) =
      ((r.run file ls).1.behind origin done, (r.run file ls).2.map (SyntaxError.moved origin)) := by
  induction ls generalizing r with
  | nil => rfl
  | cons l ls ih =>
    rw [List.map_cons]
    cases hstep : r.step file l with
    | ok next =>
      have hnext : Step file r l next := step_ok_iff.mp hstep
      rw [run_cons hnext.behind, run_cons hnext, ih]
    | error e => simp [run, hstep, step_error_behind hstep]

theorem missing_behind (r : Reading) :
    (r.behind origin done).missing = r.missing.map (SyntaxError.moved origin) := by
  obtain ⟨pending, forms⟩ := r
  rcases pending with _ | ⟨_ | _ | _ | _, rest⟩
  all_goals rfl

/-- **A lexeme that is accepted ends.** -/
theorem Step.terminated {r next : Reading} {l : Lexeme} (h : Step file r l next) :
    l.token ≠ .unterminated := by
  cases h with
  | @leaf _ _ l d _ hd =>
    obtain ⟨token, start, stop⟩ := l
    cases token <;> cases hd <;> simp
  | _ => simp

theorem terminated_of_run {r next : Reading} {ls : List Lexeme}
    (h : r.run file ls = (next, none)) : ∀ l ∈ ls, l.token ≠ .unterminated := by
  induction ls generalizing r with
  | nil => simp
  | cons l ls ih =>
    obtain ⟨r₁, hstep, hrun⟩ := step_of_run_cons h
    exact List.forall_mem_cons.mpr ⟨hstep.terminated, ih hrun⟩

/-- **A run goes on behind the lexemes that it has accepted.** -/
theorem run_append {r next : Reading} {own : List Lexeme} (h : r.run file own = (next, none))
    (later : List Lexeme) : r.run file (own ++ later) = next.run file later := by
  induction own generalizing r with
  | nil =>
    obtain rfl : r = next := congrArg Prod.fst h
    rfl
  | cons l own ih =>
    obtain ⟨r₁, hstep, hrun⟩ := step_of_run_cons h
    rw [List.cons_append, run_cons hstep, ih hrun]

end Reading

variable {file : Nat} {text : List Char}

namespace Contents

/-- **Reading goes on where it stopped.**  If the first lexemes of a text complete the forms `done`
with nothing pending, then the others are read like the text that they lie in, and the contents of
that stand behind those forms. -/
theorem ofChars_of_laid {own later : List Lexeme} {done : List Form} {p : Position}
    {rest : List Char} (htext : lexemes text = own ++ later)
    (hown : Reading.initial.run file own = (⟨[], done⟩, none)) (hrest : Laid p rest later) :
    ofChars file text =
      ⟨done.reverse ++ ((ofChars file rest).moved p).forms, ((ofChars file rest).moved p).error⟩ := by
  obtain ⟨r, error, hrun⟩ : ∃ r error, Reading.initial.run file (lexemes rest) = (r, error) :=
    ⟨_, _, rfl⟩
  have hlater : Reading.run file ⟨[], done⟩ later =
      (r.behind p done, error.map (SyntaxError.moved p)) := by
    have hbehind := Reading.run_behind file p done .initial (lexemes rest)
    rwa [← hrest.eq_map_moved, hrun] at hbehind
  have hwhole : Reading.initial.run file (lexemes text) =
      (r.behind p done, error.map (SyntaxError.moved p)) := by
    rw [htext, Reading.run_append hown, hlater]
  simp only [ofChars, moved, hwhole, hrun, Reading.missing_behind]
  cases error <;> simp [Reading.behind]

end Contents

/-! ## 4. Lines -/

open Contents (ofChars)

/-- **A newline ends what can be ended**, and that is all but a string. -/
theorem Token.Precedes.line {t : Token} {text : List Char} (h : t.Precedes text)
    (ht : t ≠ .unterminated) (rest : List Char) : t.Precedes (text ++ '\n' :: rest) := by
  have hdelimited : Delimited text → Delimited (text ++ '\n' :: rest) := by
    intro h
    cases text with
    | nil => exact delimited_cons (by decide) rest
    | cons c text => exact h
  cases t with
  | dot | atom => exact hdelimited h
  | unterminated => exact absurd rfl ht
  | opening | closing | quote | string => trivial

/-- **The lexemes of a line stay what they are when more lines follow**, if it ends all its
strings. -/
theorem Laid.append_line {p : Position} {text rest : List Char} {ls later : List Lexeme}
    (h : Laid p text ls) (hends : ∀ l ∈ ls, l.token ≠ .unterminated)
    (hrest : Laid (p.after (text ++ ['\n'])) rest later) :
    Laid p (text ++ '\n' :: rest) (ls ++ later) := by
  induction h with
  | nil => exact .blank (by decide) hrest
  | blank hc h ih => exact .blank hc (ih hends hrest)
  | @comment p w text ls hw htext h ih =>
    rw [List.append_assoc]
    refine .comment hw ?_ (ih hends ?_)
    · intro c hc
      cases text with
      | nil => exact (Option.some.inj hc).symm
      | cons d text => exact htext c hc
    · rwa [List.append_assoc, Position.after_append] at hrest
  | @lexeme p t w text ls hw htext h ih =>
    obtain ⟨ht, hends⟩ := List.forall_mem_cons.mp hends
    rw [List.append_assoc]
    refine .lexeme hw (htext.line ht rest) (ih hends ?_)
    rwa [List.append_assoc, Position.after_append] at hrest

namespace Contents

/-- **A text is read line by line** wherever a line ends with nothing pending. -/
theorem ofChars_line {file : Nat} {a : List Char} (ha : (ofChars file a).error = none)
    (b : List Char) :
    ofChars file (a ++ '\n' :: b) =
      ⟨(ofChars file a).forms ++
          ((ofChars file b).moved (Position.first.after (a ++ ['\n']))).forms,
        ((ofChars file b).moved (Position.first.after (a ++ ['\n']))).error⟩ := by
  have hrun := run_of_no_error ha
  have hrest := (laid_lexemes b).moved Position.counted_first (Position.first.after (a ++ ['\n']))
  rw [Position.moved_first] at hrest
  have hlaid := (laid_lexemes a).append_line (Reading.terminated_of_run hrun) hrest
  rw [ofChars_of_laid hlaid.lexemes_eq hrun hrest, List.reverse_reverse]

end Contents

/-- **Reading is a homomorphism over lines.**  If `a` is read, then `a`, a newline and `b` are read as
the data of `a`, just as they are, and then those of `b`, which only stand elsewhere.  If `b` is not
read, then the whole is not for the same reason, in the same column and as many lines further down
as `a` and the newline make up. -/
theorem readAll_line {file : Nat} {a : String} {dataA : List Datum}
    (ha : readAll file a = .ok dataA) (b : String) :
    (∀ dataB, readAll file b = .ok dataB →
      ∃ moved, readAll file (a ++ "\n" ++ b) = .ok (dataA ++ moved) ∧
        moved.map Datum.bare = dataB.map Datum.bare) ∧
    ∀ e, readAll file b = .error e →
      ∃ moved, readAll file (a ++ "\n" ++ b) = .error moved ∧
        moved.description = e.description ∧
        moved.place.line = e.place.line + (a.toList.count '\n' + 1) ∧
        moved.place.column = e.place.column := by
  obtain ⟨hnone, hdata⟩ := readAll_eq_ok_iff.mp ha
  have hwhole := Contents.ofChars_line hnone b.toList
  have htext : (a ++ "\n" ++ b).toList = a.toList ++ '\n' :: b.toList := by simp
  rw [← htext] at hwhole
  generalize horigin : Position.first.after (a.toList ++ ['\n']) = origin at hwhole
  constructor
  · intro dataB hb
    obtain ⟨hnoneB, rfl⟩ := readAll_eq_ok_iff.mp hb
    refine ⟨((Contents.ofChars file b.toList).moved origin).data, ?_, ?_⟩
    · rw [readAll_eq_ok_iff, hwhole]
      refine ⟨by simp [Contents.moved, hnoneB], ?_⟩
      rw [← hdata]
      simp [Contents.data]
    · simp [Contents.data, Contents.moved, Form.moved]
  · intro e hb
    have herror := readAll_eq_error_iff.mp hb
    refine ⟨e.moved origin, ?_, e.description_moved origin, ?_, ?_⟩
    · rw [readAll_eq_error_iff, hwhole]
      simp [Contents.moved, herror]
    · have hline : origin.line = 1 + (a.toList.count '\n' + 1) := by
        rw [← horigin, Position.line_after]
        simp [Position.first]
      rw [SyntaxError.place_moved, Position.moved, hline]
      dsimp only
      omega
    · have hcolumn : origin.column = 1 := by
        rw [← horigin, Position.after_append]
        rfl
      rw [SyntaxError.place_moved, Position.moved, hcolumn]
      dsimp only
      split
      · next hfirst => omega
      · rfl

/-- The first text ends in a comment, after a string with a newline in it.  What is wrong with the
second stands on its second line, and on the fourth of both. -/
theorem readAll_line_comment :
    ∃ dataA e moved, readAll 0 "'\"p\nq\" ; c" = .ok dataA ∧ readAll 0 "x\n)" = .error e ∧
      e.place.line = 2 ∧ readAll 0 ("'\"p\nq\" ; c" ++ "\n" ++ "x\n)") = .error moved ∧
      moved.description = e.description ∧ moved.place.line = 4 ∧
      moved.place.column = e.place.column := by
  let quoted : Datum := .atom (.string "p\nq" false) (some ⟨0, ⟨1, 2, 1⟩, ⟨2, 3, 6⟩⟩)
  let datum : Datum := quoted.quoted.withSpan (some ⟨0, ⟨1, 1, 0⟩, ⟨1, 2, 1⟩⟩)
  have ha : readAll 0 "'\"p\nq\" ; c" = .ok [datum] := by decide +kernel
  have hb : readAll 0 "x\n)" = .error (.unexpectedClosing ⟨2, 1, 2⟩) := by decide +kernel
  obtain ⟨moved, hmoved, hdescription, hline, hcolumn⟩ := (readAll_line ha "x\n)").2 _ hb
  exact ⟨_, _, moved, ha, hb, rfl, hmoved, hdescription, hline, hcolumn⟩

end Lisp
