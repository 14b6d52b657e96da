/-
# How the lexemes lie in a text

The scanner says where each lexeme starts and stops.  This module says what stands there.

A text is laid out (`Laid`) by blanks, comments and the spellings of its lexemes (`Token.Spelled`),
each of which runs from the start of its lexeme to its stop.  The lexemes of every text lie in it
like this (`laid_lexemes`), the one that does not end included.

What is gained is locality.  Some lexemes in a row, cut out of the text from the start of the first
to the stop of the last, are a text with just these lexemes (`Laid.cut`), although an atom is ended
by what follows it and a comment by a newline: a text that is cut short ends both as well.  In front
of the first lexeme of a text there are blanks and comments alone (`Filler`), and what follows some
lexemes is laid out from where the last of them stops (`Laid.cut_first`).

A position says which line and column it is, and the characters between two of them are found by
these alone (`charsWithin`).  That they are the characters of the cut is `charsWithin_append`.
-/
import Lisp.Proofs.Tokens
import Mathlib.Data.List.TakeWhile

namespace Lisp

/-! ## 1. The place after a text -/

namespace Position

/-- **The place after some more characters.** -/
def after (p : Position) (text : List Char) : Position :=
  text.foldl advance p

@[simp] theorem after_nil (p : Position) : p.after [] = p := rfl

@[simp] theorem after_cons (p : Position) (c : Char) (text : List Char) :
    p.after (c :: text) = (p.advance c).after text := rfl

@[simp] theorem after_append (p : Position) (a b : List Char) :
    p.after (a ++ b) = (p.after a).after b :=
  List.foldl_append

end Position

/-! ## 2. Spellings -/

/-- **The inside of a string that is not raw**, and what it stands for. -/
inductive StringBody : List Char → List Char → Prop where
  | nil : StringBody [] []
  | plain {c body content} (hquote : c ≠ '"') (hescape : c ≠ '\\') (h : StringBody body content) :
    StringBody (c :: body) (c :: content)
  | escape {c body content} (h : StringBody body content) :
    StringBody ('\\' :: c :: body) (unescape c :: content)

namespace Token

/-- **The characters that a token is written with.** -/
inductive Spelled : Token → List Char → Prop where
  | opening : Spelled .opening ['(']
  | closing : Spelled .closing [')']
  | quote : Spelled .quote ['\'']
  | dot : Spelled .dot ['.']
  | atom {text} (h : AtomText text) : Spelled (.atom text) text
  | string {body content} (h : StringBody body content) :
    Spelled (.string content false) ('"' :: (body ++ ['"']))
  | raw {text} (h : '`' ∉ text) : Spelled (.string text true) ('`' :: (text ++ ['`']))
  | unterminated {body content} (h : StringBody body content) : Spelled .unterminated ('"' :: body)
  | unterminatedEscape {body content} (h : StringBody body content) :
    Spelled .unterminated ('"' :: (body ++ ['\\']))
  | unterminatedRaw {text} (h : '`' ∉ text) : Spelled .unterminated ('`' :: text)

/-- **What can follow a token.**  An atom goes on until it is ended; a string that does not end
leaves nothing. -/
def Precedes : Token → List Char → Prop
  | .dot, rest | .atom _, rest => Delimited rest
  | .unterminated, rest => rest = []
  | _, _ => True

/-- What follows can be cut short. -/
theorem Precedes.cut {t : Token} {a b : List Char} (h : t.Precedes (a ++ b)) : t.Precedes a := by
  have hdelimited (h : Delimited (a ++ b)) : Delimited a := by
    cases a with
    | nil => exact delimited_nil
    | cons c a => exact h
  cases t with
  | dot | atom => exact hdelimited h
  | unterminated => exact (List.append_eq_nil_iff.mp h).1
  | opening | closing | quote | string => trivial

theorem precedes_nil (t : Token) : t.Precedes [] := by
  cases t <;> trivial

end Token

/-! ## 3. The scanner over a spelling -/

namespace Scanner

variable {p start : Position} {done : List Lexeme} {read : List Char}

theorem scan_comment {text : List Char} (htext : '\n' ∉ text) :
    scan ⟨p, .comment, done⟩ text = ⟨p.after text, .comment, done⟩ := by
  induction text generalizing p with
  | nil => rfl
  | cons c text ih =>
    obtain ⟨hc, hrest⟩ := not_or.mp (mt List.mem_cons.mpr htext)
    have hstep : step ⟨p, .comment, done⟩ c = ⟨p.advance c, .comment, done⟩ := by
      simp [step, Ne.symm hc]
    rw [scan_cons, hstep, ih hrest, Position.after_cons]

theorem scan_atom {text : List Char} (htext : ∀ c ∈ text, isDelimiter c = false) :
    scan ⟨p, .atom start read, done⟩ text =
      ⟨p.after text, .atom start (text.reverse ++ read), done⟩ := by
  induction text generalizing p read with
  | nil => rfl
  | cons c text ih =>
    obtain ⟨hc, hrest⟩ := List.forall_mem_cons.mp htext
    have hstep : step ⟨p, .atom start read, done⟩ c =
        ⟨p.advance c, .atom start (c :: read), done⟩ := by
      simp [step, hc]
    rw [scan_cons, hstep, ih hrest, Position.after_cons, List.reverse_cons, List.append_assoc]
    rfl

theorem scan_raw {text : List Char} (htext : '`' ∉ text) :
    scan ⟨p, .string start true read, done⟩ text =
      ⟨p.after text, .string start true (text.reverse ++ read), done⟩ := by
  induction text generalizing p read with
  | nil => rfl
  | cons c text ih =>
    obtain ⟨hc, hrest⟩ := not_or.mp (mt List.mem_cons.mpr htext)
    have hstep : step ⟨p, .string start true read, done⟩ c =
        ⟨p.advance c, .string start true (c :: read), done⟩ := by
      simp [step, Ne.symm hc]
    rw [scan_cons, hstep, ih hrest, Position.after_cons, List.reverse_cons, List.append_assoc]
    rfl

theorem scan_stringBody {body content : List Char} (h : StringBody body content) :
    scan ⟨p, .string start false read, done⟩ body =
      ⟨p.after body, .string start false (content.reverse ++ read), done⟩ := by
  induction h generalizing p read with
  | nil => rfl
  | @plain c body content hquote hescape h ih =>
    have hstep : step ⟨p, .string start false read, done⟩ c =
        ⟨p.advance c, .string start false (c :: read), done⟩ := by
      simp [step, hquote, hescape]
    rw [scan_cons, hstep, ih, Position.after_cons, List.reverse_cons, List.append_assoc]
    rfl
  | @escape c body content h ih =>
    have hsteps : scan ⟨p, .string start false read, done⟩ ['\\', c] =
        ⟨(p.advance '\\').advance c, .string start false (unescape c :: read), done⟩ := rfl
    rw [show '\\' :: c :: body = ['\\', c] ++ body from rfl, scan_append, hsteps, ih]
    simp

/-- From outside every lexeme, through the inside of a string. -/
theorem scan_string_begin {body content : List Char} (h : StringBody body content)
    (rest : List Char) :
    scan ⟨p, .blank, done⟩ ('"' :: (body ++ rest)) =
      scan ⟨(p.advance '"').after body, .string p false content.reverse, done⟩ rest := by
  have hbegin : step ⟨p, .blank, done⟩ '"' = ⟨p.advance '"', .string p false [], done⟩ := rfl
  rw [scan_cons, hbegin, scan_append, scan_stringBody h, List.append_nil]

/-- From outside every lexeme, through the inside of a raw string. -/
theorem scan_raw_begin {text : List Char} (htext : '`' ∉ text) (rest : List Char) :
    scan ⟨p, .blank, done⟩ ('`' :: (text ++ rest)) =
      scan ⟨(p.advance '`').after text, .string p true text.reverse, done⟩ rest := by
  have hbegin : step ⟨p, .blank, done⟩ '`' = ⟨p.advance '`', .string p true [], done⟩ := rfl
  rw [scan_cons, hbegin, scan_append, scan_raw htext, List.append_nil]

/-- **What ends an atom** is looked at again outside of it. -/
theorem finish_scan_delimited {rest : List Char} (hrest : Delimited rest) :
    (scan ⟨p, .atom start read, done⟩ rest).finish =
      (scan ⟨p, .blank, ⟨atomToken read.reverse, start, p⟩ :: done⟩ rest).finish := by
  cases rest with
  | nil => rfl
  | cons c rest =>
    have hc : isDelimiter c = true := hrest
    have hstep : step ⟨p, .atom start read, done⟩ c =
        step ⟨p, .blank, ⟨atomToken read.reverse, start, p⟩ :: done⟩ c := by
      simp [step, hc]
    rw [scan_cons, scan_cons, hstep]

/-- **The characters of an atom or a dot** complete it. -/
theorem finish_scan_atom {c : Char} {text rest : List Char} (hc : isDelimiter c = false)
    (hfirst : c ≠ '\'' ∧ c ≠ '"' ∧ c ≠ '`') (htext : ∀ d ∈ text, isDelimiter d = false)
    (hrest : Delimited rest) :
    (scan ⟨p, .blank, done⟩ (c :: text ++ rest)).finish =
      (scan ⟨p.after (c :: text), .blank,
        ⟨atomToken (c :: text), p, p.after (c :: text)⟩ :: done⟩ rest).finish := by
  have hstep : step ⟨p, .blank, done⟩ c = ⟨p.advance c, .atom p [c], done⟩ :=
    begin_atom hc hfirst p done
  rw [List.cons_append, scan_cons, hstep, scan_append, scan_atom htext, finish_scan_delimited hrest]
  simp

/-- **The spelling of a token completes it**, from the place where it starts to the place where it
stops, and the scanner goes on outside of it. -/
theorem finish_scan_spelled {t : Token} {w rest : List Char} (hw : t.Spelled w)
    (hrest : t.Precedes rest) :
    (scan ⟨p, .blank, done⟩ (w ++ rest)).finish =
      (scan ⟨p.after w, .blank, ⟨t, p, p.after w⟩ :: done⟩ rest).finish := by
  cases hw with
  | opening | closing | quote => rfl
  | dot => exact finish_scan_atom rfl (by decide) (by simp) hrest
  | atom h =>
    cases w with
    | nil => exact absurd rfl h.nonempty
    | cons c w =>
      obtain ⟨hc, hw⟩ := List.forall_mem_cons.mp h.undelimited
      rw [finish_scan_atom hc (h.unquoted c rfl) hw hrest, atomToken, if_neg h.undotted]
  | string h =>
    rw [List.cons_append, List.append_assoc, scan_string_begin h]
    simp [step]
  | raw h =>
    rw [List.cons_append, List.append_assoc, scan_raw_begin h]
    simp [step]
  | @unterminated body content h =>
    obtain rfl : rest = [] := hrest
    rw [List.append_nil, ← List.append_nil body, scan_string_begin h]
    simp [finish]
  | unterminatedEscape h =>
    obtain rfl : rest = [] := hrest
    rw [List.append_nil, scan_string_begin h]
    simp [step, finish]
  | @unterminatedRaw text h =>
    obtain rfl : rest = [] := hrest
    rw [List.append_nil, ← List.append_nil text, scan_raw_begin h]
    simp [finish]

end Scanner

/-! ## 4. Layouts -/

/-- **The lexemes `ls` lie in a text that starts at `p`**, each where it says, with nothing but
blanks and comments between them. -/
inductive Laid : Position → List Char → List Lexeme → Prop where
  | nil {p} : Laid p [] []
  | blank {p c text ls} (hc : isBlank c) (h : Laid (p.advance c) text ls) : Laid p (c :: text) ls
  | comment {p w text ls} (hw : '\n' ∉ w) (htext : ∀ c, text.head? = some c → c = '\n')
    (h : Laid (p.after (';' :: w)) text ls) : Laid p (';' :: w ++ text) ls
  | lexeme {p t w text ls} (hw : t.Spelled w) (htext : t.Precedes text)
    (h : Laid (p.after w) text ls) : Laid p (w ++ text) (⟨t, p, p.after w⟩ :: ls)

namespace Laid

variable {p : Position} {text : List Char} {ls : List Lexeme}

/-- **The scanner finds the lexemes of a layout.** -/
theorem finish_scan (h : Laid p text ls) (done : List Lexeme) :
    (Scanner.scan ⟨p, .blank, done⟩ text).finish = ls.reverse ++ done := by
  induction h generalizing done with
  | nil => rfl
  | @blank p c text ls hc h ih =>
    have hstep : Scanner.step ⟨p, .blank, done⟩ c = ⟨p.advance c, .blank, done⟩ := by
      simp [Scanner.step, Scanner.begin, hc]
    rw [Scanner.scan_cons, hstep, ih]
  | @comment p w text ls hw htext h ih =>
    have hbegin : Scanner.step ⟨p, .blank, done⟩ ';' = ⟨p.advance ';', .comment, done⟩ := rfl
    rw [List.cons_append, Scanner.scan_cons, hbegin, Scanner.scan_append, Scanner.scan_comment hw,
      ← ih, Position.after_cons]
    -- the newline that ends the comment is a blank outside of it
    cases text with
    | nil => rfl
    | cons c text =>
      obtain rfl : c = '\n' := htext c rfl
      rfl
  | @lexeme p t w text ls hw htext h ih =>
    rw [Scanner.finish_scan_spelled hw htext, ih, List.reverse_cons, List.append_assoc]
    rfl

theorem lexemes_eq (h : Laid .first text ls) : lexemes text = ls := by
  rw [lexemes, Scanner.initial, h.finish_scan, List.append_nil, List.reverse_reverse]

/-- **The tokens of a text that is laid out**, wherever it starts. -/
theorem tokens_eq (h : Laid p text ls) : tokens text = ls.map Lexeme.token := by
  have hplaced := Scanner.scan_completed ⟨p, .blank, []⟩ text
  rw [h.finish_scan] at hplaced
  simp only [Scanner.completed, List.map_nil, List.append_nil, List.map_reverse] at hplaced
  rw [tokens_eq_tokensFrom, tokensFrom, ← hplaced, List.reverse_reverse]

end Laid

/-! ## 5. Every text has a layout -/

/-- **What stands in front of the first character without a property.** -/
theorem exists_stretch (q : Char → Bool) (text : List Char) :
    ∃ w rest, text = w ++ rest ∧ (∀ c ∈ w, q c = true) ∧
      ∀ c, rest.head? = some c → q c = false := by
  refine ⟨text.takeWhile q, text.dropWhile q, List.takeWhile_append_dropWhile.symm, ?_, ?_⟩
  · intro c hc
    exact List.mem_takeWhile_imp hc
  · intro c hc
    have hfirst := List.head?_dropWhile_not q text
    rw [hc] at hfirst
    simpa using hfirst

/-- **A string ends somewhere, or not at all.** -/
theorem exists_stringBody (text : List Char) :
    (∃ body content rest, text = body ++ '"' :: rest ∧ StringBody body content) ∨
      ∃ body content, StringBody body content ∧ (text = body ∨ text = body ++ ['\\']) := by
  match text with
  | [] => exact .inr ⟨[], [], .nil, .inl rfl⟩
  | c :: text =>
    by_cases hquote : c = '"'
    · exact .inl ⟨[], [], text, by rw [hquote, List.nil_append], .nil⟩
    by_cases hescape : c = '\\'
    · subst hescape
      -- an escape takes the character after it along, unless there is none
      match text with
      | [] => exact .inr ⟨[], [], .nil, .inr rfl⟩
      | c :: text =>
        rcases exists_stringBody text with ⟨body, content, rest, rfl, h⟩ | ⟨body, content, h, htext⟩
        · exact .inl ⟨'\\' :: c :: body, _, rest, rfl, .escape h⟩
        · refine .inr ⟨'\\' :: c :: body, _, .escape h, ?_⟩
          rcases htext with rfl | rfl
          · exact .inl rfl
          · exact .inr rfl
    · rcases exists_stringBody text with ⟨body, content, rest, rfl, h⟩ | ⟨body, content, h, htext⟩
      · exact .inl ⟨c :: body, _, rest, rfl, .plain hquote hescape h⟩
      · refine .inr ⟨c :: body, _, .plain hquote hescape h, ?_⟩
        rcases htext with rfl | rfl
        · exact .inl rfl
        · exact .inr rfl
termination_by text.length

/-- **What a text starts with**: a blank, a comment or the spelling of a token. -/
theorem exists_start (c : Char) (text : List Char) :
    isBlank c = true ∨
      (∃ w rest, c :: text = ';' :: w ++ rest ∧ '\n' ∉ w ∧ ∀ d, rest.head? = some d → d = '\n') ∨
      ∃ t w rest, c :: text = w ++ rest ∧ w ≠ [] ∧ Token.Spelled t w ∧ t.Precedes rest := by
  by_cases hblank : isBlank c
  · exact .inl hblank
  by_cases hcomment : c = ';'
  · subst hcomment
    obtain ⟨w, rest, rfl, hw, hrest⟩ := exists_stretch (· != '\n') text
    exact .inr (.inl ⟨w, rest, rfl, fun h => by simpa using hw _ h, by simpa using hrest⟩)
  refine .inr (.inr ?_)
  by_cases hopen : c = '('
  · exact ⟨.opening, [c], text, rfl, List.cons_ne_nil _ _, hopen ▸ Token.Spelled.opening, trivial⟩
  by_cases hclose : c = ')'
  · exact ⟨.closing, [c], text, rfl, List.cons_ne_nil _ _, hclose ▸ Token.Spelled.closing, trivial⟩
  by_cases hquote : c = '\''
  · exact ⟨.quote, [c], text, rfl, List.cons_ne_nil _ _, hquote ▸ Token.Spelled.quote, trivial⟩
  by_cases hstring : c = '"'
  · subst hstring
    rcases exists_stringBody text with ⟨body, content, rest, rfl, h⟩ | ⟨body, content, h, rfl | rfl⟩
    · exact ⟨_, _, rest, by simp, List.cons_ne_nil _ _, .string h, trivial⟩
    · exact ⟨_, _, [], (List.append_nil _).symm, List.cons_ne_nil _ _, .unterminated h, rfl⟩
    · exact ⟨_, _, [], (List.append_nil _).symm, List.cons_ne_nil _ _, .unterminatedEscape h, rfl⟩
  by_cases hraw : c = '`'
  · subst hraw
    obtain ⟨w, rest, rfl, hw, hrest⟩ := exists_stretch (· != '`') text
    have hw : '`' ∉ w := fun h => by simpa using hw _ h
    cases rest with
    | nil => exact ⟨_, _, [], rfl, List.cons_ne_nil _ _, .unterminatedRaw (by simpa using hw), rfl⟩
    | cons d rest =>
      obtain rfl : d = '`' := by simpa using hrest d rfl
      exact ⟨_, _, rest, by simp, List.cons_ne_nil _ _, .raw hw, trivial⟩
  -- everything else is the first character of an atom or of a dot
  obtain ⟨w, rest, rfl, hw, hrest⟩ := exists_stretch (fun d => !isDelimiter d) text
  have hw : ∀ d ∈ c :: w, isDelimiter d = false := by
    intro d hd
    rcases List.mem_cons.mp hd with rfl | hd
    · simp [isDelimiter, hblank, hopen, hclose, hcomment]
    · simpa using hw d hd
  have hrest : Delimited rest := by
    cases rest with
    | nil => exact delimited_nil
    | cons d rest => exact delimited_cons (by simpa using hrest d rfl) rest
  by_cases hdot : c :: w = ['.']
  · exact ⟨.dot, c :: w, rest, rfl, List.cons_ne_nil _ _, hdot ▸ .dot, hrest⟩
  · refine ⟨.atom (c :: w), c :: w, rest, rfl, List.cons_ne_nil _ _, .atom ?_, hrest⟩
    exact ⟨List.cons_ne_nil _ _, hw, by rintro _ ⟨⟩; exact ⟨hquote, hstring, hraw⟩, hdot⟩

/-- **Every text is laid out by some lexemes.** -/
theorem exists_laid (p : Position) (text : List Char) : ∃ ls, Laid p text ls := by
  match text with
  | [] => exact ⟨[], .nil⟩
  | c :: text =>
    rcases exists_start c text with
      hblank | ⟨w, rest, htext, hw, hrest⟩ | ⟨t, w, rest, htext, hne, hw, hrest⟩
    · obtain ⟨ls, h⟩ := exists_laid (p.advance c) text
      exact ⟨ls, .blank hblank h⟩
    · have hlength : rest.length < (c :: text).length := by
        simp only [htext, List.length_append, List.length_cons]
        omega
      obtain ⟨ls, h⟩ := exists_laid (p.after (';' :: w)) rest
      exact ⟨ls, htext ▸ Laid.comment hw hrest h⟩
    · have hlength : rest.length < (c :: text).length := by
        have := List.length_pos_iff.mpr hne
        simp only [htext, List.length_append]
        omega
      obtain ⟨ls, h⟩ := exists_laid (p.after w) rest
      exact ⟨⟨t, p, p.after w⟩ :: ls, htext ▸ Laid.lexeme hw hrest h⟩
termination_by text.length
decreasing_by
  · exact Nat.lt_succ_self text.length
  · exact hlength
  · exact hlength

/-- **The lexemes of a text lie in it**, each spelled where it says. -/
theorem laid_lexemes (text : List Char) : Laid .first text (lexemes text) := by
  obtain ⟨ls, h⟩ := exists_laid .first text
  rwa [h.lexemes_eq]

/-! ## 6. Cutting lexemes out -/

/-- **The place where the last of some lexemes stops**; `p` if there is none. -/
def stopOf : Position → List Lexeme → Position
  | p, [] => p
  | _, l :: ls => stopOf l.stop ls

@[simp] theorem stopOf_concat (p : Position) (ls : List Lexeme) (l : Lexeme) :
    stopOf p (ls ++ [l]) = l.stop := by
  induction ls generalizing p with
  | nil => rfl
  | cons first ls ih => exact ih first.stop

/-- **Blanks and comments**, each comment with the newline that ends it. -/
inductive Filler : List Char → Prop where
  | nil : Filler []
  | blank {c text} (hc : isBlank c) (h : Filler text) : Filler (c :: text)
  | comment {w text} (hw : '\n' ∉ w) (h : Filler text) : Filler (';' :: w ++ '\n' :: text)

theorem Filler.of_newline {text : List Char} (h : Filler ('\n' :: text)) : Filler text := by
  cases h with
  | blank _ h => exact h

/-- **A token begins with no blank.** -/
theorem Token.Spelled.exists_cons {t : Token} {w : List Char} (h : t.Spelled w) :
    ∃ c rest, w = c :: rest ∧ isBlank c = false := by
  cases h with
  | atom h =>
    cases w with
    | nil => exact absurd rfl h.nonempty
    | cons c w =>
      have hc : isDelimiter c = false := h.undelimited c List.mem_cons_self
      simp only [isDelimiter, Bool.or_eq_false_iff] at hc
      exact ⟨c, w, rfl, hc.1.1.1⟩
  | _ => exact ⟨_, _, rfl, rfl⟩

namespace Laid

variable {p : Position} {text : List Char} {l : Lexeme} {before own later : List Lexeme}

/-- **In front of the first lexeme** there is nothing but blanks and comments. -/
theorem exists_first (h : Laid p text (l :: later)) :
    ∃ a w b, text = a ++ (w ++ b) ∧ Filler a ∧ l.start = p.after a ∧ l.stop = l.start.after w ∧
      l.token.Spelled w ∧ l.token.Precedes b ∧ Laid l.stop b later := by
  generalize hls : l :: later = ls at h
  induction h with
  | nil => cases hls
  | @blank p c text ls hc h ih =>
    obtain ⟨a, w, b, rfl, ha, hl⟩ := ih hls
    exact ⟨c :: a, w, b, rfl, .blank hc ha, hl⟩
  | @comment p w text ls hw htext h ih =>
    obtain ⟨a, w', b, rfl, ha, hstart, hspelled, hl⟩ := ih hls
    have hclosed : Filler (';' :: w ++ a) := by
      cases a with
      | nil =>
        -- a token does not begin with the newline that ends the comment
        obtain ⟨c, rest, rfl, hc⟩ := hl.1.exists_cons
        obtain rfl : c = '\n' := htext c rfl
        cases hc
      | cons c a =>
        obtain rfl : c = '\n' := htext c rfl
        exact .comment hw ha.of_newline
    exact ⟨';' :: w ++ a, w', b, by simp, hclosed, by rw [hstart, Position.after_append], hspelled,
      hl⟩
  | @lexeme p t w text ls hw htext h ih =>
    obtain ⟨rfl, rfl⟩ := List.cons.inj hls
    exact ⟨[], w, text, rfl, .nil, rfl, rfl, hw, htext, h⟩

/-- **Lexemes can be left out in front**, with the text they lie in. -/
theorem drop (h : Laid p text (before ++ later)) :
    ∃ a b, text = a ++ b ∧ Laid (p.after a) b later := by
  induction before generalizing p text with
  | nil => exact ⟨[], text, rfl, h⟩
  | cons l before ih =>
    obtain ⟨a, w, b, rfl, -, hstart, hstop, -, -, hb⟩ := h.exists_first
    obtain ⟨a', b', rfl, hb'⟩ := ih hb
    rw [hstop, hstart] at hb'
    exact ⟨a ++ (w ++ a'), b', by simp, by simpa using hb'⟩

/-- **Lexemes can be left out at the end**, and what is cut short is still laid out, like what was
cut off. -/
theorem take (h : Laid p text (own ++ later)) :
    ∃ w b, text = w ++ b ∧ Laid p w own ∧ p.after w = stopOf p own ∧
      Laid (stopOf p own) b later := by
  cases own with
  | nil => exact ⟨[], text, rfl, .nil, rfl, h⟩
  | cons l own =>
    generalize hls : l :: own ++ later = ls at h
    induction h generalizing l own with
    | nil => cases hls
    | @blank p c text ls hc h ih =>
      obtain ⟨w, b, rfl, hw, hb⟩ := ih l own hls
      exact ⟨c :: w, b, rfl, .blank hc hw, hb⟩
    | @comment p w text ls hw htext h ih =>
      obtain ⟨w', b, rfl, hw', hstop, hb⟩ := ih l own hls
      refine ⟨';' :: w ++ w', b, by simp, .comment hw (fun c hc => htext c ?_) hw', ?_, hb⟩
      · rw [List.head?_append, hc]
        rfl
      · rw [Position.after_append, hstop]
        rfl
    | @lexeme p t w text ls hw htext h ih =>
      obtain ⟨rfl, rfl⟩ := List.cons.inj hls
      cases own with
      | nil =>
        refine ⟨w, text, rfl, ?_, rfl, h⟩
        simpa using Laid.lexeme hw t.precedes_nil .nil
      | cons next own =>
        obtain ⟨w', b, rfl, hw', hstop, hb⟩ := ih next own rfl
        refine ⟨w ++ w', b, by simp, .lexeme hw htext.cut hw', ?_, hb⟩
        rw [Position.after_append, hstop]
        rfl

/-- **The first lexemes are the lexemes of their own text**, which runs from the start of the first,
with the spelling of that, to the stop of the last.  What follows is laid out by the others. -/
theorem cut_first (h : Laid p text (l :: own ++ later)) :
    ∃ a w w' b, text = a ++ (w ++ w') ++ b ∧ Filler a ∧ l.start = p.after a ∧
      l.stop = l.start.after w ∧ stopOf l.stop own = l.start.after (w ++ w') ∧ l.token.Spelled w ∧
      Laid l.start (w ++ w') (l :: own) ∧ Laid (stopOf l.stop own) b later := by
  obtain ⟨a, w, _, rfl, ha, hstart, hstop, hw, hb, hlater⟩ := h.exists_first
  obtain ⟨w', b, rfl, hw', hlast, hrest⟩ := hlater.take
  have hown : Laid l.start (w ++ w') (⟨l.token, l.start, l.start.after w⟩ :: own) :=
    .lexeme hw hb.cut (hstop ▸ hw')
  rw [← hstop] at hown
  refine ⟨a, w, w', b, by simp, ha, hstart, hstop, ?_, hw, hown, hrest⟩
  rw [← hlast, hstop, Position.after_append]

/-- **Lexemes in a row are the lexemes of their own text.** -/
theorem cut (h : Laid p text (before ++ (l :: own) ++ later)) :
    ∃ a w w' b, text = a ++ (w ++ w') ++ b ∧ l.start = p.after a ∧ l.stop = l.start.after w ∧
      stopOf l.stop own = l.start.after (w ++ w') ∧ l.token.Spelled w ∧
      tokens (w ++ w') = (l :: own).map Lexeme.token := by
  rw [List.append_assoc] at h
  obtain ⟨a, _, rfl, hfirst⟩ := h.drop
  obtain ⟨a', w, w', b, rfl, -, hstart, hstop, hlast, hw, hown, -⟩ := hfirst.cut_first
  refine ⟨a ++ a', w, w', b, by simp, ?_, hstop, hlast, hw, hown.tokens_eq⟩
  rw [hstart, Position.after_append]

end Laid

/-! ## 7. Characters by line and column -/

namespace Position

/-- **One place stands in front of another**: on an earlier line, or further left on the same. -/
def Before (p q : Position) : Prop :=
  p.line < q.line ∨ p.line = q.line ∧ p.column < q.column

instance (p q : Position) : Decidable (p.Before q) :=
  inferInstanceAs (Decidable (_ ∨ _))

variable {p q r : Position}

theorem Before.trans (h : p.Before q) (h' : q.Before r) : p.Before r := by
  unfold Before at *
  omega

theorem Before.asymm (h : p.Before q) : ¬ q.Before p := by
  unfold Before at *
  omega

theorem before_advance (p : Position) (c : Char) : p.Before (p.advance c) := by
  unfold Before advance
  split
  · exact .inl (Nat.lt_succ_self p.line)
  · exact .inr ⟨rfl, Nat.lt_succ_self p.column⟩

/-- **Every character moves on.** -/
theorem before_after (p : Position) (c : Char) (text : List Char) :
    p.Before (p.after (c :: text)) := by
  induction text generalizing p c with
  | nil => exact p.before_advance c
  | cons d text ih => exact (p.before_advance c).trans (ih (p.advance c) d)

end Position

/-- **The characters that stand from `start` up to `stop`**, by lines and columns alone, in a text
whose first character stands at the place given. -/
def charsWithin (start stop : Position) : Position → List Char → List Char
  | _, [] => []
  | p, c :: text =>
    if ¬ p.Before start ∧ p.Before stop then c :: charsWithin start stop (p.advance c) text
    else charsWithin start stop (p.advance c) text

section

variable {start stop : Position}

theorem charsWithin_append (p : Position) (a b : List Char) :
    charsWithin start stop p (a ++ b) =
      charsWithin start stop p a ++ charsWithin start stop (p.after a) b := by
  induction a generalizing p with
  | nil => rfl
  | cons c a ih =>
    simp only [List.cons_append, charsWithin, Position.after_cons, ih]
    split <;> rfl

/-- Nothing that ends at `start` is taken. -/
theorem charsWithin_front (p : Position) (a : List Char) :
    charsWithin (p.after a) stop p a = [] := by
  induction a generalizing p with
  | nil => rfl
  | cons c a ih =>
    have hc : ¬ (¬ p.Before (p.after (c :: a)) ∧ p.Before stop) :=
      fun h => h.1 (p.before_after c a)
    rw [charsWithin, if_neg hc]
    exact ih (p.advance c)

/-- All of what ends at `stop` is taken, from `start` on. -/
theorem charsWithin_inside {p : Position} (hp : ¬ p.Before start) (w : List Char) :
    charsWithin start (p.after w) p w = w := by
  induction w generalizing p with
  | nil => rfl
  | cons c w ih =>
    have hnext : ¬ (p.advance c).Before start := by
      have hc := p.before_advance c
      unfold Position.Before at *
      omega
    rw [charsWithin, if_pos ⟨hp, p.before_after c w⟩]
    exact congrArg (c :: ·) (ih hnext)

/-- Nothing from `stop` on is taken. -/
theorem charsWithin_behind {p : Position} (hp : ¬ p.Before stop) (b : List Char) :
    charsWithin start stop p b = [] := by
  induction b generalizing p with
  | nil => rfl
  | cons c b ih =>
    have hnext : ¬ (p.advance c).Before stop := fun h => hp ((p.before_advance c).trans h)
    rw [charsWithin, if_neg fun h => hp h.2]
    exact ih hnext

end

/-- **Between the places after `a` and after `w` stands `w`.** -/
theorem charsWithin_cut (p : Position) (a w b : List Char) :
    charsWithin (p.after a) ((p.after a).after w) p (a ++ w ++ b) = w := by
  have hfront : charsWithin (p.after a) ((p.after a).after w) p a = [] := charsWithin_front p a
  have hinside : charsWithin (p.after a) ((p.after a).after w) (p.after a) w = w :=
    charsWithin_inside (fun h => h.asymm h) w
  have hbehind : charsWithin (p.after a) ((p.after a).after w) ((p.after a).after w) b = [] :=
    charsWithin_behind (fun h => h.asymm h) b
  rw [charsWithin_append, charsWithin_append, Position.after_append, hfront, hinside, hbehind,
    List.nil_append, List.append_nil]

end Lisp
