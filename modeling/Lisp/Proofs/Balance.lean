/-
# Balanced parentheses

For a text without quotes, dots and unterminated strings, whether it can be read is decided by
counting: up at each `(`, down at each `)` (`depth`).  The reader has no counter.  Its stack is the
lists that are open, and what has to be shown is that the count is the height of that stack, and
that the parenthesis which is blamed can be told from the counts alone.

* **The count.**  A list of lexemes that the count never takes below zero (`NeverBelow`), read on
  top of any open lists, opens as many more as it counts, and leaves those beneath alone
  (`Reading.Opened.run`).
* **The blame.**  A `)` that takes the count below zero for the first time meets the empty stack.
  After the innermost `(` that is still open the count comes back to zero, hence what is on top of
  the stack at the end is that parenthesis (`Innermost`).

That there is such a parenthesis whenever the count ends above zero is a fact about counts
(`exists_innermost`), and so is that there is a first place below zero (`exists_first_below`).
-/
import Lisp.Proofs.Reading
import Mathlib.Data.List.Forall2
import Mathlib.Data.List.Induction
import Mathlib.Data.List.Infix

namespace Lisp

/-! ## 1. Counting -/

/-- **What a token adds to the depth.** -/
def Token.rise : Token → Int
  | .opening => 1
  | .closing => -1
  | _ => 0

/-- **The depth after lexemes**: how many more parentheses were opened than closed. -/
def depth : List Lexeme → Int
  | [] => 0
  | l :: ls => l.token.rise + depth ls

/-- **The depth never goes below zero** on the way. -/
def NeverBelow (ls : List Lexeme) : Prop :=
  ∀ before, before <+: ls → 0 ≤ depth before

/-- **The lexeme is the innermost `(` that is still open at the end**: the depth after it never
goes back to what it was before it, and of no later `(` this can be said. -/
def Innermost (ls : List Lexeme) (l : Lexeme) : Prop :=
  ∃ before after, ls = before ++ l :: after ∧ l.token = .opening ∧ NeverBelow after ∧
    ∀ between later rest, after = between ++ later :: rest → later.token = .opening →
      ¬ NeverBelow rest

instance (ls : List Lexeme) : Decidable (NeverBelow ls) :=
  decidable_of_iff (∀ before ∈ ls.inits, 0 ≤ depth before)
    ⟨fun h before hbefore => h before ((List.mem_inits before ls).mpr hbefore),
      fun h before hbefore => h before ((List.mem_inits before ls).mp hbefore)⟩

@[simp] theorem depth_nil : depth [] = 0 := rfl

@[simp] theorem depth_cons (l : Lexeme) (ls : List Lexeme) :
    depth (l :: ls) = l.token.rise + depth ls := rfl

@[simp] theorem depth_append (ls ls' : List Lexeme) :
    depth (ls ++ ls') = depth ls + depth ls' := by
  induction ls with
  | nil => simp
  | cons l ls ih => rw [List.cons_append, depth_cons, depth_cons, ih, Int.add_assoc]

theorem neverBelow_nil : NeverBelow [] := by
  intro before h
  rw [List.prefix_nil.mp h]
  exact Int.le_refl 0

theorem NeverBelow.depth_nonneg {ls : List Lexeme} (h : NeverBelow ls) : 0 ≤ depth ls :=
  h ls List.prefix_rfl

theorem NeverBelow.of_append {ls ls' : List Lexeme} (h : NeverBelow (ls ++ ls')) : NeverBelow ls :=
  fun before hbefore => h before (hbefore.trans (List.prefix_append ls ls'))

/-- **The first place where the depth is below zero.** -/
theorem exists_first_below {ls : List Lexeme} (h : ¬ NeverBelow ls) :
    ∃ before l after, ls = before ++ l :: after ∧ NeverBelow before ∧
      depth (before ++ [l]) < 0 := by
  induction ls using List.reverseRecOn with
  | nil => exact absurd neverBelow_nil h
  | append_singleton ls x ih =>
    by_cases hls : NeverBelow ls
    · -- all of `ls` is above, so the prefix that is below is the whole list
      refine ⟨ls, x, [], rfl, hls, Int.not_le.mp fun hdepth => h fun before hbefore => ?_⟩
      rcases List.prefix_concat_iff.mp hbefore with rfl | hprefix
      · exact hdepth
      · exact hls before hprefix
    · obtain ⟨before, l, after, rfl, hbefore, hdepth⟩ := ih hls
      exact ⟨before, l, after ++ [x], by simp, hbefore, hdepth⟩

/-- A lexeme that takes the depth below zero is a `)` at depth zero. -/
theorem closing_of_below {before : List Lexeme} {l : Lexeme} (hbefore : NeverBelow before)
    (hbelow : depth (before ++ [l]) < 0) : l.token = .closing ∧ depth before = 0 := by
  have hnonneg := hbefore.depth_nonneg
  rw [depth_append, depth_cons, depth_nil] at hbelow
  cases hl : l.token <;> simp only [hl, Token.rise] at hbelow
  case closing => exact ⟨rfl, by omega⟩
  all_goals omega

/-- **Some `(` is never closed** where the depth ends above zero, and after the last such the depth
comes back to zero. -/
theorem exists_open (ls : List Lexeme) (h : 0 < depth ls) :
    ∃ before l after, ls = before ++ l :: after ∧ l.token = .opening ∧ NeverBelow after ∧
      depth after = 0 := by
  match ls with
  | [] => cases h
  | x :: xs =>
    rcases Int.lt_or_le 0 (depth xs) with hxs | hxs
    · obtain ⟨before, l, after, hsplit, hl⟩ := exists_open xs hxs
      exact ⟨x :: before, l, after, by rw [hsplit, List.cons_append], hl⟩
    rw [depth_cons] at h
    -- `x` itself opens a list; it is the one, unless what follows goes below zero
    have hx : x.token = .opening := by
      cases hx : x.token <;> simp only [hx, Token.rise] at h <;> first | rfl | omega
    have hrise : x.token.rise = 1 := by rw [hx, Token.rise]
    by_cases hnever : NeverBelow xs
    · exact ⟨[], x, xs, rfl, hx, hnever, by have := hnever.depth_nonneg; omega⟩
    · obtain ⟨first, y, rest, rfl, -, hbelow⟩ := exists_first_below hnever
      have hrest : 0 < depth rest := by
        simp only [depth_append, depth_cons, depth_nil] at h hbelow
        omega
      obtain ⟨before, l, after, rfl, hl⟩ := exists_open rest hrest
      exact ⟨x :: (first ++ y :: before), l, after, by simp, hl⟩
termination_by ls.length

/-- **After the innermost open parenthesis the depth comes back to zero.** -/
theorem innermost_iff {ls : List Lexeme} {l : Lexeme} :
    Innermost ls l ↔ ∃ before after, ls = before ++ l :: after ∧ l.token = .opening ∧
      NeverBelow after ∧ depth after = 0 := by
  constructor
  · rintro ⟨before, after, hsplit, hl, hafter, hlast⟩
    refine ⟨before, after, hsplit, hl, hafter, Int.le_antisymm (Int.not_lt.mp fun hpos => ?_)
      hafter.depth_nonneg⟩
    obtain ⟨between, later, rest, hrest, hlater, hopen, -⟩ := exists_open after hpos
    exact hlast between later rest hrest hlater hopen
  · rintro ⟨before, after, hsplit, hl, hafter, hzero⟩
    refine ⟨before, after, hsplit, hl, hafter, ?_⟩
    rintro between later rest rfl hlater hrest
    have hbetween := hafter.of_append.depth_nonneg
    have hrest := hrest.depth_nonneg
    simp only [depth_append, depth_cons, hlater, Token.rise] at hzero
    omega

theorem exists_innermost {ls : List Lexeme} (h : 0 < depth ls) : ∃ l, Innermost ls l := by
  obtain ⟨before, l, after, hsplit⟩ := exists_open ls h
  exact ⟨l, innermost_iff.mpr ⟨before, after, hsplit⟩⟩

/-! ## 2. The stack of the reader -/

/-- **A parenthesis, an atom or a string**: what else there is can be refused for other reasons. -/
def Token.isPlain : Token → Bool
  | .quote | .dot | .unterminated => false
  | _ => true

namespace Reading

variable {file : Nat} {r : Reading} {starts beneath above : List Position} {l : Lexeme}
  {ls : List Lexeme}

/-- **All that is pending is lists** that were opened at these places, innermost first. -/
def Opened (r : Reading) (starts : List Position) : Prop :=
  List.Forall₂ (fun p start => ∃ items, p = .list start items) r.pending starts

theorem opened_initial : Opened .initial [] := .nil

theorem Opened.pending_eq_nil (h : Opened r []) : r.pending = [] := by
  obtain ⟨pending, forms⟩ := r
  cases h
  rfl

theorem Opened.accepting (h : Opened r starts) : Accepting r.pending := by
  obtain ⟨pending, forms⟩ := r
  cases h with
  | nil => trivial
  | cons hp _ =>
    obtain ⟨items, rfl⟩ := hp
    trivial

/-- A complete datum opens and closes nothing. -/
theorem Opened.supply (h : Opened r starts) (stop : Position) (d : Datum) :
    Opened (Reading.supply file r.forms stop d r.pending) starts := by
  obtain ⟨pending, forms⟩ := r
  cases h with
  | nil => exact .nil
  | cons hp hrest =>
    obtain ⟨items, rfl⟩ := hp
    exact .cons ⟨d :: items, rfl⟩ hrest

/-- A `)` on the empty stack. -/
theorem Opened.unexpected (h : Opened r []) (hl : l.token = .closing) :
    r.step file l = .error (.unexpectedClosing l.start) := by
  obtain ⟨token, start, stop⟩ := l
  obtain rfl : token = .closing := hl
  simp only [step, h.pending_eq_nil]

theorem Opened.missing {start : Position} (h : Opened r (start :: starts)) :
    r.missing = some (.unclosedList start) := by
  obtain ⟨pending, forms⟩ := r
  cases h with
  | cons hp _ =>
    obtain ⟨items, rfl⟩ := hp
    rfl

variable (file)

theorem Opened.opening (h : Opened r starts) (hl : l.token = .opening) :
    ∃ r', Step file r l r' ∧ Opened r' (l.start :: starts) := by
  obtain ⟨token, start, stop⟩ := l
  obtain rfl : token = .opening := hl
  exact ⟨_, .opening h.accepting, .cons ⟨[], rfl⟩ h⟩

theorem Opened.closing {start : Position} (h : Opened r (start :: starts))
    (hl : l.token = .closing) : ∃ r', Step file r l r' ∧ Opened r' starts := by
  obtain ⟨pending, forms⟩ := r
  obtain ⟨token, begun, stop⟩ := l
  obtain rfl : token = .closing := hl
  cases h with
  | @cons p _ rest _ hp hrest =>
    obtain ⟨items, rfl⟩ := hp
    have hunder : Opened ⟨rest, forms⟩ starts := hrest
    exact ⟨_, .close, hunder.supply stop _⟩

theorem Opened.leaf (h : Opened r starts) (hplain : l.token.isPlain = true)
    (hl : l.token.rise = 0) : ∃ r', Step file r l r' ∧ Opened r' starts := by
  obtain ⟨token, start, stop⟩ := l
  cases token with
  | atom text => exact ⟨_, .leaf h.accepting rfl, h.supply stop _⟩
  | string text raw => exact ⟨_, .leaf h.accepting rfl, h.supply stop _⟩
  | opening | closing => cases hl
  | quote | dot | unterminated => cases hplain

/-- **The depth is the height of the stack.**  Lexemes over which the depth does not go below the
lists `above` are accepted; they change the number of those by what they count, and nothing that is
beneath. -/
theorem Opened.run (h : Opened r (above ++ beneath)) (hplain : ∀ l ∈ ls, l.token.isPlain = true)
    (hdepth : ∀ before, before <+: ls → 0 ≤ above.length + depth before) :
    ∃ r' above', Opened r' (above' ++ beneath) ∧ above'.length = above.length + depth ls ∧
      ∀ rest, r.run file (ls ++ rest) = r'.run file rest := by
  induction ls generalizing r above with
  | nil => exact ⟨r, above, h, by simp, fun rest => rfl⟩
  | cons l ls ih =>
    obtain ⟨hl, hls⟩ := List.forall_mem_cons.mp hplain
    -- one step, and the height after it
    obtain ⟨next, above₁, hstep, hnext, hheight⟩ : ∃ next above₁, Step file r l next ∧
        Opened next (above₁ ++ beneath) ∧ above₁.length = above.length + l.token.rise := by
      cases htoken : l.token with
      | opening =>
        obtain ⟨next, hstep, hnext⟩ := h.opening file htoken
        exact ⟨next, l.start :: above, hstep, hnext, by simp [Token.rise]⟩
      | closing =>
        have hfirst := hdepth [l] ⟨ls, rfl⟩
        cases above with
        | nil => simp [htoken, Token.rise] at hfirst
        | cons start above =>
          obtain ⟨next, hstep, hnext⟩ := h.closing file htoken
          exact ⟨next, above, hstep, hnext, by simp only [Token.rise, List.length_cons]; omega⟩
      | _ =>
        obtain ⟨next, hstep, hnext⟩ := h.leaf file hl (by rw [htoken]; rfl)
        exact ⟨next, above, hstep, hnext, by simp [Token.rise]⟩
    obtain ⟨r', above', hopened, hlength, hrun⟩ := ih hnext hls fun before hbefore => by
      have := hdepth (l :: before) (List.cons_prefix_cons.mpr ⟨rfl, hbefore⟩)
      rw [depth_cons] at this
      omega
    refine ⟨r', above', hopened, ?_, fun rest => ?_⟩
    · rw [hlength, hheight, depth_cons]
      omega
    · rw [List.cons_append, run_cons hstep, hrun rest]

/-- The same on the empty stack. -/
theorem run_of_neverBelow (hplain : ∀ l ∈ ls, l.token.isPlain = true) (h : NeverBelow ls) :
    ∃ r starts, Opened r starts ∧ starts.length = depth ls ∧
      ∀ rest, Reading.initial.run file (ls ++ rest) = r.run file rest := by
  have hinitial : Opened .initial ([] ++ []) := opened_initial
  obtain ⟨r, starts, hopened, hlength, hrun⟩ :=
    hinitial.run file hplain fun before hbefore => by simpa using h before hbefore
  exact ⟨r, starts, by simpa using hopened, by simpa using hlength, hrun⟩

end Reading

/-! ## 3. Reading by counting -/

section Texts

open Reading

variable {file : Nat} {text : String}

/-- **A `)` too many.** -/
theorem readAll_of_below {before after : List Lexeme} {l : Lexeme}
    (hplain : ∀ l ∈ lexemes text.toList, l.token.isPlain = true)
    (hsplit : lexemes text.toList = before ++ l :: after) (hbefore : NeverBelow before)
    (hbelow : depth (before ++ [l]) < 0) :
    readAll file text = .error (.unexpectedClosing l.start) := by
  rw [hsplit] at hplain
  obtain ⟨r, starts, hopened, hlength, hrun⟩ := run_of_neverBelow file
    (fun x hx => hplain x (List.mem_append_left _ hx)) hbefore
  obtain ⟨hl, hzero⟩ := closing_of_below hbefore hbelow
  obtain rfl : starts = [] := List.length_eq_zero_iff.mp (by omega)
  rw [readAll_eq_error_iff, Contents.ofChars, hsplit, hrun, Reading.run, hopened.unexpected hl]
  rfl

/-- **A `(` too many.** -/
theorem readAll_of_innermost {l : Lexeme}
    (hplain : ∀ l ∈ lexemes text.toList, l.token.isPlain = true)
    (hnever : NeverBelow (lexemes text.toList)) (hl : Innermost (lexemes text.toList) l) :
    readAll file text = .error (.unclosedList l.start) := by
  obtain ⟨before, after, hsplit, hopening, hafter, hzero⟩ := innermost_iff.mp hl
  rw [hsplit] at hplain hnever
  obtain ⟨r, starts, hopened, -, hrun⟩ := run_of_neverBelow file
    (fun x hx => hplain x (List.mem_append_left _ hx)) hnever.of_append
  obtain ⟨next, hstep, hnext⟩ := hopened.opening file hopening
  -- what follows is read on top of the list that `l` opens, and leaves it the innermost one
  have honTop : Opened next ([] ++ l.start :: starts) := hnext
  obtain ⟨last, above, hlast, hlength, hrest⟩ := honTop.run file
    (fun x hx => hplain x (List.mem_append_right _ (List.mem_cons_of_mem _ hx)))
    fun p hp => by simpa using hafter p hp
  obtain rfl : above = [] := List.length_eq_zero_iff.mp (by simpa [hzero] using hlength)
  have hall : Reading.initial.run file (lexemes text.toList) = (last, none) := by
    rw [hsplit, hrun, run_cons hstep, ← List.append_nil after, hrest, run_nil]
  rw [readAll_eq_error_iff, Contents.ofChars, hall]
  exact hlast.missing

/-- **As many of one as of the other.** -/
theorem readAll_of_balanced (hplain : ∀ l ∈ lexemes text.toList, l.token.isPlain = true)
    (hnever : NeverBelow (lexemes text.toList)) (hzero : depth (lexemes text.toList) = 0) :
    ∃ data, readAll file text = .ok data := by
  obtain ⟨r, starts, hopened, hlength, hrun⟩ := run_of_neverBelow file hplain hnever
  obtain rfl : starts = [] := List.length_eq_zero_iff.mp (by omega)
  have hall : Reading.initial.run file (lexemes text.toList) = (r, none) := by
    rw [← List.append_nil (lexemes text.toList), hrun, run_nil]
  refine ⟨_, readAll_eq_ok_iff.mpr ⟨?_, rfl⟩⟩
  rw [Contents.ofChars, hall]
  exact missing_eq_none_iff.mpr hopened.pending_eq_nil

/-- **Reading by counting.**  A text without quotes, dots and unterminated strings is read exactly
if the depth never goes below zero and ends at zero.  Where it goes below zero for the first time
there is an unexpected `)`.  If it never does and ends above zero, there is an innermost `(` that is
still open at the end, and that list is unclosed. -/
theorem readAll_by_counting (hplain : ∀ l ∈ lexemes text.toList, l.token.isPlain = true) :
    ((∃ data, readAll file text = .ok data) ↔
        NeverBelow (lexemes text.toList) ∧ depth (lexemes text.toList) = 0) ∧
      (∀ before l after, lexemes text.toList = before ++ l :: after → NeverBelow before →
        depth (before ++ [l]) < 0 →
          l.token = .closing ∧ readAll file text = .error (.unexpectedClosing l.start)) ∧
      (NeverBelow (lexemes text.toList) → 0 < depth (lexemes text.toList) →
        (∃ l, Innermost (lexemes text.toList) l) ∧
          ∀ l, Innermost (lexemes text.toList) l →
            readAll file text = .error (.unclosedList l.start)) := by
  refine ⟨⟨?_, fun ⟨hnever, hzero⟩ => readAll_of_balanced hplain hnever hzero⟩,
    fun before l after hsplit hbefore hbelow =>
      ⟨(closing_of_below hbefore hbelow).1, readAll_of_below hplain hsplit hbefore hbelow⟩,
    fun hnever hpos =>
      ⟨exists_innermost hpos, fun l hl => readAll_of_innermost hplain hnever hl⟩⟩
  rintro ⟨data, hread⟩
  -- the two ways out of balance end in an error
  have hnever : NeverBelow (lexemes text.toList) := by
    by_contra hbelow
    obtain ⟨before, l, after, hsplit, hbefore, hbelow⟩ := exists_first_below hbelow
    cases hread.symm.trans (readAll_of_below hplain hsplit hbefore hbelow)
  refine ⟨hnever, Int.le_antisymm (Int.not_lt.mp fun hpos => ?_) hnever.depth_nonneg⟩
  obtain ⟨l, hl⟩ := exists_innermost hpos
  cases hread.symm.trans (readAll_of_innermost hplain hnever hl)

/-- Of two lists that are not closed the inner one is blamed. -/
theorem readAll_by_counting_two :
    (∀ l ∈ lexemes "(a (b) (c".toList, l.token.isPlain = true) ∧
      readAll 0 "(a (b) (c" = .error (.unclosedList ⟨1, 8, 7⟩) := by
  have hplain : ∀ l ∈ lexemes "(a (b) (c".toList, l.token.isPlain = true := by decide +kernel
  have hinnermost : Innermost (lexemes "(a (b) (c".toList) ⟨.opening, ⟨1, 8, 7⟩, ⟨1, 9, 8⟩⟩ :=
    innermost_iff.mpr ⟨(lexemes "(a (b) (c".toList).take 5, (lexemes "(a (b) (c".toList).drop 6,
      by decide +kernel⟩
  exact ⟨hplain, ((readAll_by_counting hplain).2.2 (by decide +kernel) (by decide +kernel)).2 _
    hinnermost⟩

end Texts

end Lisp
