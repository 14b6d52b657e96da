/-
# The tokens of a text

The scanner keeps places, and its tokens are completed one after the other; but which tokens it
makes of the characters to come depends only on what it is inside of.  `Scanner.scan_completed`
says so, and turns the scanner into a function of a mode and a text, `tokensFrom`.

From it follow the equations that the rest of the development reads texts by.  A blank in front of
a text changes nothing (`tokens_blank`), a parenthesis or a quote is a token of its own
(`tokens_opening`, `tokens_closing`, `tokens_quote`), a string runs to its delimiter
(`tokens_string_begin`, `tokens_rawString`), and an atom runs to the next delimiter or to the end of
the text (`tokens_atom`).

In the other direction, the text of every atom token is such a text as `tokens_atom` asks for
(`atomText_of_mem_tokens`); in particular a lone `.` is never an atom.
-/
import Lisp.Lexeme
import Mathlib.Logic.Basic

namespace Lisp

/-- **The tokens of a text**, without their places. -/
def tokens (text : List Char) : List Token :=
  (lexemes text).map Lexeme.token

/-! ## 1. Places do not matter -/

/-- **The mode without its places.** -/
def ScanMode.unplaced : ScanMode → ScanMode
  | .blank => .blank
  | .comment => .comment
  | .atom _ read => .atom .first read
  | .string _ raw read => .string .first raw read
  | .escape _ read => .escape .first read

namespace Scanner

/-- **The tokens completed**, last first. -/
def completed (s : Scanner) : List Token :=
  s.lexemes.map Lexeme.token

/-- **A scanner that has completed nothing**, inside of what `mode` says. -/
def fresh (mode : ScanMode) : Scanner := ⟨.first, mode.unplaced, []⟩

/-- Taking a character outside every lexeme adds the same tokens wherever the scanner stands. -/
theorem begin_completed (p : Position) (ls : List Lexeme) (c : Char) :
    (begin p ls c).completed = (begin .first [] c).completed ++ ls.map Lexeme.token := by
  unfold begin
  dsimp only
  repeat' split
  all_goals rfl

/-- ...and leaves it inside of the same thing. -/
theorem begin_mode (p : Position) (ls : List Lexeme) (c : Char) :
    (begin p ls c).mode.unplaced = (begin .first [] c).mode.unplaced := by
  unfold begin
  dsimp only
  repeat' split
  all_goals rfl

/-- **One character completes the same tokens** for two scanners inside of the same thing. -/
theorem step_completed (s : Scanner) (c : Char) :
    (s.step c).completed = ((fresh s.mode).step c).completed ++ s.completed := by
  obtain ⟨p, mode, ls⟩ := s
  cases mode with
  | blank => exact begin_completed p ls c
  | comment => by_cases hc : c = '\n' <;> simp [step, fresh, ScanMode.unplaced, completed, hc]
  | atom start read =>
    by_cases hc : isDelimiter c
    · simp only [step, fresh, ScanMode.unplaced, hc, if_true]
      rw [begin_completed, begin_completed _ [_]]
      simp [completed]
    · simp [step, fresh, ScanMode.unplaced, completed, hc]
  | string start raw read =>
    simp only [step, fresh, ScanMode.unplaced]
    generalize (if raw then '`' else '"') = delimiter
    by_cases hc : c = delimiter
    · simp [completed, hc]
    · by_cases he : c = '\\' && !raw <;> simp only [completed, hc, he] <;> rfl
  | escape start read => rfl

/-- ...and leaves both inside of the same thing. -/
theorem step_mode (s : Scanner) (c : Char) :
    (s.step c).mode.unplaced = ((fresh s.mode).step c).mode.unplaced := by
  obtain ⟨p, mode, ls⟩ := s
  cases mode with
  | blank => exact begin_mode p ls c
  | comment => by_cases hc : c = '\n' <;> simp [step, fresh, ScanMode.unplaced, hc]
  | atom start read =>
    by_cases hc : isDelimiter c
    · simp only [step, fresh, ScanMode.unplaced.eq_3, hc, if_true]
      rw [begin_mode, begin_mode _ [_]]
    · simp [step, fresh, ScanMode.unplaced, hc]
  | string start raw read =>
    simp only [step, fresh, ScanMode.unplaced.eq_4]
    generalize (if raw then '`' else '"') = delimiter
    by_cases hc : c = delimiter
    · simp [ScanMode.unplaced, hc]
    · by_cases he : c = '\\' && !raw <;> simp only [hc, he] <;> rfl
  | escape start read => rfl

/-- The end of the text completes the same tokens for two scanners inside of the same thing. -/
theorem finish_completed (s : Scanner) :
    s.finish.map Lexeme.token = (fresh s.mode).finish.map Lexeme.token ++ s.completed := by
  obtain ⟨p, mode, ls⟩ := s
  cases mode <;> rfl

@[simp] theorem scan_nil (s : Scanner) : s.scan [] = s := rfl

@[simp] theorem scan_cons (s : Scanner) (c : Char) (text : List Char) :
    s.scan (c :: text) = (s.step c).scan text := rfl

/-- **The tokens of a text depend on the mode alone.**  What was completed before stays in front of
them. -/
theorem scan_completed (s : Scanner) (text : List Char) :
    (s.scan text).finish.map Lexeme.token =
      ((fresh s.mode).scan text).finish.map Lexeme.token ++ s.completed := by
  induction text generalizing s with
  | nil => exact finish_completed s
  | cons c text ih =>
    have hmode : fresh ((fresh s.mode).step c).mode = fresh (s.step c).mode := by
      rw [fresh, ← step_mode s c, fresh]
    rw [scan_cons, scan_cons, ih (s.step c), ih ((fresh s.mode).step c), hmode, step_completed s c,
      List.append_assoc]

end Scanner

/-! ## 2. Tokens as a function of mode and text -/

/-- **The tokens of a text that starts inside of what `mode` says.** -/
def tokensFrom (mode : ScanMode) (text : List Char) : List Token :=
  (((Scanner.fresh mode).scan text).finish.map Lexeme.token).reverse

theorem tokens_eq_tokensFrom (text : List Char) : tokens text = tokensFrom .blank text := by
  rw [tokens, lexemes, List.map_reverse]
  rfl

/-- One character: what it completes, and then the tokens of the rest. -/
theorem tokensFrom_cons (mode : ScanMode) (c : Char) (text : List Char) :
    tokensFrom mode (c :: text) =
      ((Scanner.fresh mode).step c).completed.reverse ++
        tokensFrom ((Scanner.fresh mode).step c).mode text := by
  rw [tokensFrom, Scanner.scan_cons, Scanner.scan_completed, List.reverse_append]
  rfl

/-- Two modes that differ in their places have the same tokens to come. -/
theorem tokensFrom_unplaced (mode : ScanMode) (text : List Char) :
    tokensFrom mode.unplaced text = tokensFrom mode text := by
  cases mode <;> rfl

/-! ## 3. What stands outside atoms and strings -/

@[simp] theorem tokens_nil : tokens [] = [] := rfl

/-- **A blank in front changes nothing.** -/
theorem tokens_blank {c : Char} (hc : isBlank c) (text : List Char) :
    tokens (c :: text) = tokens text := by
  rw [tokens_eq_tokensFrom, tokens_eq_tokensFrom, tokensFrom_cons]
  simp [Scanner.fresh, ScanMode.unplaced, Scanner.step, Scanner.begin, Scanner.completed, hc]

@[simp] theorem tokens_opening (text : List Char) :
    tokens ('(' :: text) = .opening :: tokens text := by
  rw [tokens_eq_tokensFrom, tokens_eq_tokensFrom, tokensFrom_cons]
  rfl

@[simp] theorem tokens_closing (text : List Char) :
    tokens (')' :: text) = .closing :: tokens text := by
  rw [tokens_eq_tokensFrom, tokens_eq_tokensFrom, tokensFrom_cons]
  rfl

@[simp] theorem tokens_quote (text : List Char) :
    tokens ('\'' :: text) = .quote :: tokens text := by
  rw [tokens_eq_tokensFrom, tokens_eq_tokensFrom, tokensFrom_cons]
  rfl

/-! ## 4. Strings -/

/-- **A raw string runs to the next backtick.** -/
theorem tokensFrom_raw {text : List Char} (htext : '`' ∉ text) (start : Position)
    (read rest : List Char) :
    tokensFrom (.string start true read) (text ++ '`' :: rest) =
      .string (read.reverse ++ text) true :: tokens rest := by
  induction text generalizing start read with
  | nil =>
    rw [List.nil_append, tokensFrom_cons, tokens_eq_tokensFrom, List.append_nil]
    rfl
  | cons c text ih =>
    have hc : c ≠ '`' := fun h => htext (h ▸ List.mem_cons_self)
    have hrest : '`' ∉ text := fun h => htext (List.mem_cons_of_mem c h)
    have hstep : (Scanner.fresh (.string start true read)).step c =
        ⟨Position.first.advance c, .string .first true (c :: read), []⟩ := by
      simp [Scanner.fresh, ScanMode.unplaced, Scanner.step, hc]
    rw [List.cons_append, tokensFrom_cons, hstep, ih hrest]
    simp [Scanner.completed]

theorem tokens_rawString {text : List Char} (htext : '`' ∉ text) (rest : List Char) :
    tokens ('`' :: (text ++ '`' :: rest)) = .string text true :: tokens rest := by
  rw [tokens_eq_tokensFrom, tokensFrom_cons]
  exact tokensFrom_raw htext _ [] rest

/-- **A character that neither escapes nor ends a string** is kept as it is. -/
theorem tokensFrom_string_plain {c : Char} (hquote : c ≠ '"') (hescape : c ≠ '\\')
    (start : Position) (read rest : List Char) :
    tokensFrom (.string start false read) (c :: rest) =
      tokensFrom (.string start false (c :: read)) rest := by
  rw [tokensFrom_cons]
  have hstep : (Scanner.fresh (.string start false read)).step c =
      ⟨Position.first.advance c, .string .first false (c :: read), []⟩ := by
    simp [Scanner.fresh, ScanMode.unplaced, Scanner.step, hquote, hescape]
  rw [hstep]
  rfl

/-- **An escape stands for one character.** -/
theorem tokensFrom_string_escape (c : Char) (start : Position) (read rest : List Char) :
    tokensFrom (.string start false read) ('\\' :: c :: rest) =
      tokensFrom (.string start false (unescape c :: read)) rest := by
  rw [tokensFrom_cons, tokensFrom_cons]
  rfl

/-- **The closing delimiter completes the string.** -/
theorem tokensFrom_string_end (start : Position) (read rest : List Char) :
    tokensFrom (.string start false read) ('"' :: rest) =
      .string read.reverse false :: tokens rest := by
  rw [tokensFrom_cons, tokens_eq_tokensFrom]
  rfl

theorem tokens_string_begin (rest : List Char) :
    tokens ('"' :: rest) = tokensFrom (.string .first false []) rest := by
  rw [tokens_eq_tokensFrom, tokensFrom_cons]
  rfl

/-! ## 5. Atoms -/

/-- **A text that an atom token can have**: characters that end no atom, at least one, of which the
first begins no other token, and not a lone `.`. -/
structure AtomText (text : List Char) : Prop where
  nonempty : text ≠ []
  undelimited : ∀ c ∈ text, isDelimiter c = false
  unquoted : ∀ c, text.head? = some c → c ≠ '\'' ∧ c ≠ '"' ∧ c ≠ '`'
  undotted : text ≠ ['.']

/-- A written-out text is checked character by character. -/
theorem AtomText.of_all {c : Char} {text : List Char}
    (hplain : (c :: text).all fun d => !isDelimiter d)
    (hfirst : c ≠ '\'' ∧ c ≠ '"' ∧ c ≠ '`') (hdot : c :: text ≠ ['.']) : AtomText (c :: text) where
  nonempty := List.cons_ne_nil c text
  undelimited d hd := by simpa using List.all_eq_true.mp hplain d hd
  unquoted := by
    rintro _ ⟨⟩
    exact hfirst
  undotted := hdot

/-- **A text that can follow an atom**: it is empty or begins with a delimiter. -/
def Delimited : List Char → Prop
  | [] => True
  | c :: _ => isDelimiter c

theorem delimited_nil : Delimited [] := trivial

theorem delimited_cons {c : Char} (hc : isDelimiter c) (rest : List Char) :
    Delimited (c :: rest) := hc

theorem isDelimiter_iff {c : Char} :
    isDelimiter c ↔ isBlank c ∨ c = '(' ∨ c = ')' ∨ c = ';' := by
  simp [isDelimiter, or_assoc]

/-- A delimiter is looked at twice: it ends the atom, and it begins what follows. -/
theorem tokensFrom_atom_end {rest : List Char} (hrest : Delimited rest) (start : Position)
    (read : List Char) :
    tokensFrom (.atom start read) rest = Scanner.atomToken read.reverse :: tokens rest := by
  rw [tokens_eq_tokensFrom]
  cases rest with
  | nil => rfl
  | cons c rest =>
    have hc : isDelimiter c = true := hrest
    have hstep : (Scanner.fresh (.atom start read)).step c =
        Scanner.begin .first [⟨Scanner.atomToken read.reverse, .first, .first⟩] c := by
      simp [Scanner.fresh, ScanMode.unplaced, Scanner.step, hc]
    have hblank : (Scanner.fresh .blank).step c = Scanner.begin .first [] c := rfl
    rw [tokensFrom_cons, tokensFrom_cons, hstep, hblank, Scanner.begin_completed,
      ← tokensFrom_unplaced, Scanner.begin_mode, tokensFrom_unplaced]
    simp

/-- Characters that end no atom are read into it. -/
theorem tokensFrom_atom_append {text rest : List Char} (htext : ∀ c ∈ text, isDelimiter c = false)
    (hrest : Delimited rest) (start : Position) (read : List Char) :
    tokensFrom (.atom start read) (text ++ rest) =
      Scanner.atomToken (read.reverse ++ text) :: tokens rest := by
  induction text generalizing start read with
  | nil => simpa using tokensFrom_atom_end hrest start read
  | cons c text ih =>
    have hc : isDelimiter c = false := htext c List.mem_cons_self
    have hstep : (Scanner.fresh (.atom start read)).step c =
        ⟨Position.first.advance c, .atom .first (c :: read), []⟩ := by
      simp [Scanner.fresh, ScanMode.unplaced, Scanner.step, hc]
    rw [List.cons_append, tokensFrom_cons, hstep,
      ih (fun d hd => htext d (List.mem_cons_of_mem c hd))]
    simp [Scanner.completed]

/-- A character that begins an atom. -/
theorem begin_atom {c : Char} (hc : isDelimiter c = false)
    (hfirst : c ≠ '\'' ∧ c ≠ '"' ∧ c ≠ '`') (p : Position) (ls : List Lexeme) :
    Scanner.begin p ls c = ⟨p.advance c, .atom p [c], ls⟩ := by
  have hplain : ¬ isDelimiter c := by simp [hc]
  simp only [isDelimiter_iff, not_or] at hplain
  obtain ⟨hblank, hopen, hclose, hcomment⟩ := hplain
  simp [Scanner.begin, hblank, hopen, hclose, hcomment, hfirst]

/-- **An atom runs to the next delimiter**, or to the end of the text. -/
theorem tokens_atom {text rest : List Char} (htext : AtomText text) (hrest : Delimited rest) :
    tokens (text ++ rest) = .atom text :: tokens rest := by
  cases text with
  | nil => exact absurd rfl htext.nonempty
  | cons c text =>
    have hc : isDelimiter c = false := htext.undelimited c List.mem_cons_self
    have hstep : (Scanner.fresh .blank).step c = ⟨Position.first.advance c, .atom .first [c], []⟩ :=
      begin_atom hc (htext.unquoted c rfl) .first []
    rw [List.cons_append, tokens_eq_tokensFrom, tokensFrom_cons, hstep,
      tokensFrom_atom_append (fun d hd => htext.undelimited d (List.mem_cons_of_mem c hd)) hrest]
    simp [Scanner.completed, Scanner.atomToken, htext.undotted]

/-- **A lone `.` is the dot.** -/
theorem tokens_dot {rest : List Char} (hrest : Delimited rest) :
    tokens ('.' :: rest) = .dot :: tokens rest := by
  have hstep : (Scanner.fresh .blank).step '.' =
      ⟨Position.first.advance '.', .atom .first ['.'], []⟩ := rfl
  rw [tokens_eq_tokensFrom, tokensFrom_cons, hstep, tokensFrom_atom_end hrest]
  rfl

/-! ## 6. Every atom token has such a text -/

/-- What the characters of an unfinished atom are known to be. -/
def ScanMode.AtomsPlain : ScanMode → Prop
  | .atom _ read => read ≠ [] ∧ (∀ c ∈ read, isDelimiter c = false) ∧
      ∀ c, read.reverse.head? = some c → c ≠ '\'' ∧ c ≠ '"' ∧ c ≠ '`'
  | _ => True

theorem ScanMode.atomsPlain_unplaced (mode : ScanMode) :
    mode.unplaced.AtomsPlain ↔ mode.AtomsPlain := by
  cases mode <;> rfl

/-- A finished atom has an atom's text, unless it is the dot. -/
theorem atomText_of_atomToken {start : Position} {read text : List Char}
    (hread : (ScanMode.atom start read).AtomsPlain)
    (htoken : Scanner.atomToken read.reverse = .atom text) : AtomText text := by
  obtain ⟨hne, hplain, hfirst⟩ := hread
  unfold Scanner.atomToken at htoken
  split at htoken
  · exact absurd htoken (by simp)
  · next hdot =>
    obtain rfl := Token.atom.inj htoken
    exact ⟨by simpa using hne, fun c hc => hplain c (List.mem_reverse.mp hc), hfirst, hdot⟩

/-- Outside every lexeme a character completes no atom, and begins one only as `AtomsPlain` says. -/
theorem begin_atomsPlain (p : Position) (c : Char) :
    (∀ text, .atom text ∉ (Scanner.begin p [] c).completed) ∧
      (Scanner.begin p [] c).mode.AtomsPlain := by
  unfold Scanner.begin
  dsimp only
  -- every branch but the last completes a token that is no atom, or none
  iterate 7
    split
    · simp [Scanner.completed, ScanMode.AtomsPlain]
  next hblank hcomment hopen hclose hquote hstring hraw =>
    refine ⟨by simp [Scanner.completed], by simp, ?_, ?_⟩
    · simp [isDelimiter, hblank, hcomment, hopen, hclose]
    · simp [hquote, hstring, hraw]

/-- **One character**: the atoms it completes have an atom's text, and what it leaves unfinished
can become one. -/
theorem step_atomsPlain {mode : ScanMode} (hmode : mode.AtomsPlain) (c : Char) :
    (∀ text, .atom text ∈ ((Scanner.fresh mode).step c).completed → AtomText text) ∧
      ((Scanner.fresh mode).step c).mode.AtomsPlain := by
  cases mode with
  | blank =>
    obtain ⟨hnone, hplain⟩ := begin_atomsPlain .first c
    exact ⟨fun text htext => absurd htext (hnone text), hplain⟩
  | comment =>
    simp only [Scanner.fresh, ScanMode.unplaced, Scanner.step]
    split <;> simp [Scanner.completed, ScanMode.AtomsPlain]
  | atom start read =>
    by_cases hc : isDelimiter c
    · obtain ⟨hnone, hplain⟩ := begin_atomsPlain .first c
      have hstep : (Scanner.fresh (.atom start read)).step c =
          Scanner.begin .first [⟨Scanner.atomToken read.reverse, .first, .first⟩] c := by
        simp [Scanner.fresh, ScanMode.unplaced, Scanner.step, hc]
      rw [hstep]
      refine ⟨fun text htext => ?_, ?_⟩
      · rw [Scanner.begin_completed, List.mem_append] at htext
        rcases htext with h | h
        · exact absurd h (hnone text)
        · exact atomText_of_atomToken hmode (List.mem_singleton.mp h).symm
      · rw [← ScanMode.atomsPlain_unplaced, Scanner.begin_mode, ScanMode.atomsPlain_unplaced]
        exact hplain
    · have hstep : (Scanner.fresh (.atom start read)).step c =
          ⟨Position.first.advance c, .atom .first (c :: read), []⟩ := by
        simp [Scanner.fresh, ScanMode.unplaced, Scanner.step, hc]
      obtain ⟨hne, hread, hfirst⟩ := hmode
      rw [hstep]
      refine ⟨by simp [Scanner.completed], by simp, ?_, ?_⟩
      · intro d hd
        rcases List.mem_cons.mp hd with rfl | hd
        · simpa using hc
        · exact hread d hd
      · intro d hd
        refine hfirst d ?_
        rwa [List.reverse_cons, List.head?_append, Option.or_of_isSome (by simpa using hne)] at hd
  | string start raw read =>
    simp only [Scanner.fresh, ScanMode.unplaced, Scanner.step]
    generalize (if raw then '`' else '"') = delimiter
    split
    · simp [Scanner.completed, ScanMode.AtomsPlain]
    · split <;> simp [Scanner.completed, ScanMode.AtomsPlain]
  | escape start read =>
    simp [Scanner.fresh, ScanMode.unplaced, Scanner.step, Scanner.completed, ScanMode.AtomsPlain]

/-- **A whole text**, from any mode. -/
theorem atomText_of_mem_tokensFrom {mode : ScanMode} (hmode : mode.AtomsPlain) {text : List Char}
    (source : List Char) (htext : .atom text ∈ tokensFrom mode source) : AtomText text := by
  induction source generalizing mode with
  | nil =>
    cases mode with
    | atom start read =>
      rw [tokensFrom_atom_end delimited_nil, tokens_nil, List.mem_singleton] at htext
      exact atomText_of_atomToken hmode htext.symm
    | _ => simp [tokensFrom, Scanner.fresh, ScanMode.unplaced, Scanner.finish] at htext
  | cons c source ih =>
    obtain ⟨hcompleted, hnext⟩ := step_atomsPlain hmode c
    rw [tokensFrom_cons, List.mem_append, List.mem_reverse] at htext
    rcases htext with h | h
    · exact hcompleted text h
    · exact ih hnext h

/-- **The text of an atom token is an atom's text.** -/
theorem atomText_of_mem_tokens {text source : List Char} (htext : .atom text ∈ tokens source) :
    AtomText text :=
  atomText_of_mem_tokensFrom (show ScanMode.blank.AtomsPlain from trivial) source
    (by rwa [tokens_eq_tokensFrom] at htext)

/-! ## 7. No raw string token holds its delimiter -/

/-- What the characters of an unfinished raw string are known to be. -/
def ScanMode.RawsPlain : ScanMode → Prop
  | .string _ true read => '`' ∉ read
  | _ => True

theorem ScanMode.rawsPlain_unplaced (mode : ScanMode) :
    mode.unplaced.RawsPlain ↔ mode.RawsPlain := by
  cases mode with
  | string _ raw => cases raw <;> rfl
  | _ => rfl

/-- Outside every lexeme a character completes no string, and begins one with nothing in it. -/
theorem begin_rawsPlain (p : Position) (c : Char) :
    (∀ text raw, .string text raw ∉ (Scanner.begin p [] c).completed) ∧
      (Scanner.begin p [] c).mode.RawsPlain := by
  unfold Scanner.begin
  dsimp only
  iterate 7
    split
    · simp [Scanner.completed, ScanMode.RawsPlain]
  simp [Scanner.completed, ScanMode.RawsPlain]

/-- **One character**: the raw strings it completes hold no backtick, nor does an unfinished one. -/
theorem step_rawsPlain {mode : ScanMode} (hmode : mode.RawsPlain) (c : Char) :
    (∀ text, .string text true ∈ ((Scanner.fresh mode).step c).completed → '`' ∉ text) ∧
      ((Scanner.fresh mode).step c).mode.RawsPlain := by
  cases mode with
  | blank =>
    obtain ⟨hnone, hplain⟩ := begin_rawsPlain .first c
    exact ⟨fun text htext => absurd htext (hnone text true), hplain⟩
  | comment =>
    simp only [Scanner.fresh, ScanMode.unplaced, Scanner.step]
    split <;> simp [Scanner.completed, ScanMode.RawsPlain]
  | atom start read =>
    by_cases hc : isDelimiter c
    · obtain ⟨hnone, hplain⟩ := begin_rawsPlain .first c
      have hstep : (Scanner.fresh (.atom start read)).step c =
          Scanner.begin .first [⟨Scanner.atomToken read.reverse, .first, .first⟩] c := by
        simp [Scanner.fresh, ScanMode.unplaced, Scanner.step, hc]
      rw [hstep]
      refine ⟨fun text htext => ?_, ?_⟩
      · rw [Scanner.begin_completed, List.mem_append] at htext
        rcases htext with h | h
        · exact absurd h (hnone text true)
        · have htoken : .string text true = Scanner.atomToken read.reverse :=
            List.mem_singleton.mp h
          unfold Scanner.atomToken at htoken
          split at htoken <;> cases htoken
      · rw [← ScanMode.rawsPlain_unplaced, Scanner.begin_mode, ScanMode.rawsPlain_unplaced]
        exact hplain
    · simp [Scanner.fresh, ScanMode.unplaced, Scanner.step, hc, Scanner.completed,
        ScanMode.RawsPlain]
  | string start raw read =>
    cases raw with
    | true =>
      have hread : '`' ∉ read := hmode
      by_cases hc : c = '`'
      · simp [Scanner.fresh, ScanMode.unplaced, Scanner.step, hc, Scanner.completed,
          ScanMode.RawsPlain, hread]
      · simp [Scanner.fresh, ScanMode.unplaced, Scanner.step, hc, Scanner.completed,
          ScanMode.RawsPlain, hread, Ne.symm hc]
    | false =>
      simp only [Scanner.fresh, ScanMode.unplaced, Scanner.step, Bool.false_eq_true, if_false]
      split
      · simp [Scanner.completed, ScanMode.RawsPlain]
      · split <;> simp [Scanner.completed, ScanMode.RawsPlain]
  | escape start read =>
    simp [Scanner.fresh, ScanMode.unplaced, Scanner.step, Scanner.completed, ScanMode.RawsPlain]

/-- **A raw string token holds no backtick**, whatever text it is cut from. -/
theorem not_mem_of_mem_tokens {text source : List Char}
    (htext : .string text true ∈ tokens source) : '`' ∉ text := by
  rw [tokens_eq_tokensFrom] at htext
  have hmode : ScanMode.blank.RawsPlain := trivial
  generalize ScanMode.blank = mode at htext hmode
  induction source generalizing mode with
  | nil =>
    cases mode with
    | atom start read =>
      rw [tokensFrom_atom_end delimited_nil, tokens_nil, List.mem_singleton] at htext
      unfold Scanner.atomToken at htext
      split at htext <;> cases htext
    | _ => simp [tokensFrom, Scanner.fresh, ScanMode.unplaced, Scanner.finish] at htext
  | cons c source ih =>
    obtain ⟨hcompleted, hnext⟩ := step_rawsPlain hmode c
    rw [tokensFrom_cons, List.mem_append, List.mem_reverse] at htext
    rcases htext with h | h
    · exact hcompleted text h
    · exact ih _ h hnext

end Lisp
