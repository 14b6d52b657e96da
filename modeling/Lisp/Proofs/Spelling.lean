/-
# What comes back of a list

A list goes to the host as its printed text, and is read when it comes back.  For data that is no
loss (`readAll_text`).  But a list can hold procedures, macros and markers, and their texts are made
of what the reader takes for other data: `#<procedure (x)>` for the symbol `#<procedure`, the list
`(x)` and the symbol `>`.

What the text of a value reads as is said here without a reader, along the value
(`Value.spelled`).  There are two ways for it not to read as one list.  After a dot more than one
datum would come, and nothing is read at all; or a quote is all there is of the list, and only the
first datum after it is quoted.  Then the text itself comes back.  In all other cases a list comes
back, and it is the same list only if there was nothing in it that can be called
(`pair_ofHost_spelled`): a list of a procedure comes back as a list of three without a word
(`list_of_procedure_comes_back_as_three`).

That nothing is read where two data follow a dot is a matter of the grammar alone.  In what it
derives, each dot has one datum after it and then the parenthesis (`dotsEnd_tokens`).
-/
import Lisp.Proofs.Boundary
import Lisp.Proofs.FloatReading

namespace Lisp

open ParseTree (allTokens allData endingTokens endingDatum chain)

/-! ## 1. What follows a dot -/

/-- **After each dot comes one datum, and then a closing parenthesis.** -/
def DotsEnd (ts : List Token) : Prop :=
  ∀ before after, ts = before ++ .dot :: after →
    ∃ (d : ParseTree) (rest : List Token), after = d.tokens ++ .closing :: rest

theorem DotsEnd.append {ts us : List Token} (hts : DotsEnd ts) (hus : DotsEnd us) :
    DotsEnd (ts ++ us) := by
  intro before after hsplit
  rcases List.append_eq_append_iff.mp hsplit with ⟨more, rfl, hmore⟩ | ⟨more, hmore, hafter⟩
  · exact hus more after hmore
  · cases more with
    | nil => exact hus [] after hafter.symm
    | cons t more =>
      obtain ⟨rfl, rfl⟩ := List.cons.inj hafter
      obtain ⟨d, rest, rfl⟩ := hts before more hmore
      exact ⟨d, rest ++ us, by simp⟩

theorem dotsEnd_nil : DotsEnd [] := by
  intro before after hsplit
  simp at hsplit

theorem dotsEnd_singleton {t : Token} (ht : t ≠ .dot) : DotsEnd [t] := by
  intro before after hsplit
  rcases List.append_eq_singleton_iff.mp hsplit.symm with ⟨-, h⟩ | ⟨-, h⟩
  · exact absurd (List.cons.inj h).1.symm ht
  · cases h

/-- The dot of a dotted list. -/
theorem DotsEnd.ending {d : ParseTree} (h : DotsEnd d.tokens) :
    DotsEnd (.dot :: (d.tokens ++ [.closing])) := by
  intro before after hsplit
  cases before with
  | nil => exact ⟨d, [], (List.cons.inj hsplit).2.symm⟩
  | cons t before =>
    exact (h.append (dotsEnd_singleton (by simp))) before after (List.cons.inj hsplit).2

mutual

/-- **In the tokens of a datum each dot is the last but one thing in its list.** -/
theorem dotsEnd_tokens : ∀ d : ParseTree, DotsEnd d.tokens
  | .atom _ | .string _ _ => by
    rw [ParseTree.tokens]
    exact dotsEnd_singleton (by simp)
  | .quote d => by
    rw [ParseTree.tokens]
    exact (dotsEnd_singleton (t := .quote) (by simp)).append (dotsEnd_tokens d)
  | .list items => by
    rw [ParseTree.tokens]
    exact (dotsEnd_singleton (t := .opening) (by simp)).append
      ((dotsEnd_allTokens items).append (dotsEnd_singleton (by simp)))
  | .dotted first others last => by
    rw [ParseTree.tokens]
    exact (dotsEnd_singleton (t := .opening) (by simp)).append
      (((dotsEnd_tokens first).append (dotsEnd_allTokens others)).append
        (dotsEnd_tokens last).ending)

theorem dotsEnd_allTokens : ∀ ds : List ParseTree, DotsEnd (allTokens ds)
  | [] => dotsEnd_nil
  | d :: ds => by
    rw [allTokens]
    exact (dotsEnd_tokens d).append (dotsEnd_allTokens ds)

end

/-- **Two data follow a dot somewhere.** -/
def Broken (ts : List Token) : Prop :=
  ∃ (before : List Token) (d e : ParseTree) (rest : List Token),
    ts = before ++ .dot :: (d.tokens ++ (e.tokens ++ rest))

theorem Broken.behind {ts : List Token} (h : Broken ts) (front : List Token) :
    Broken (front ++ ts) := by
  obtain ⟨before, d, e, rest, rfl⟩ := h
  exact ⟨front ++ before, d, e, rest, by simp⟩

/-- **Such tokens have no derivation.** -/
theorem Broken.allTokens_ne {ts : List Token} (h : Broken ts) (ds : List ParseTree) :
    allTokens ds ≠ ts := by
  rintro rfl
  obtain ⟨before, d, e, rest, hsplit⟩ := h
  obtain ⟨last, more, hmore⟩ := dotsEnd_allTokens ds before _ hsplit
  obtain ⟨-, hrest⟩ := d.tokens_cancel last _ _ hmore
  -- where the grammar has the parenthesis another datum begins
  obtain ⟨t, ts, he, ht⟩ := e.tokens_head
  rw [he] at hrest
  rw [(List.cons.inj hrest).1] at ht
  exact ht

/-! ## 2. What texts spell -/

/-- **So many times `>`**, as stand behind the parameters of procedures within procedures. -/
def closers (count : Nat) : List Char :=
  List.replicate count '>'

/-- **A symbol that is read from these characters.** -/
def Datum.symbol (text : List Char) : Datum :=
  .atom (.symbol (String.ofList text)) none

/-- **What closers spell by themselves.** -/
def closersSpelled : Nat → List Datum
  | 0 => []
  | count + 1 => [.symbol (closers (count + 1))]

/-- **What the text of an atom spells in front of closers.**  A string has its own end; anything
else goes on with them, and is a symbol then. -/
def Atom.spelled (count : Nat) : Atom → List Datum
  | .string text raw => .atom (.string text raw) none :: closersSpelled count
  | a => if count = 0 then [.atom a none] else [.symbol (a.chars ++ closers count)]

namespace Value

mutual

/-- **The data that the text of a value spells in front of closers**, or none if two data follow a
dot in it. -/
def spelled (count : Nat) : Value → Option (List Datum)
  | .nil => some (.nil :: closersSpelled count)
  | .atom _ value => some (value.spelled count)
  | .pair _ head tail =>
    match head.isSymbolNamed "quote", tail with
    | true, .pair _ second .nil => (spelled count second).map (List.modifyHead Datum.quoted)
    | _, tail => (spelled 0 head).bind fun first =>
      (spelledOn tail).map fun rest => Datum.listWithTail first rest :: closersSpelled count
  | .procedure _ parameters _ _ =>
    (spelled (count + 1) parameters).map (Datum.symbol "#<procedure".toList :: ·)
  | .transformer .. => some [.symbol ("#<syntax-rules>".toList ++ closers count)]
  | .formMarker _ name =>
    some [.symbol "#<special-form".toList, .symbol (name.toList ++ closers (count + 1))]
  | .hostMarker _ name =>
    some [.symbol "#<host-function".toList, .symbol (name.toList ++ closers (count + 1))]

/-- **What the rest of a list spells**, up to its parenthesis.  The text of a procedure or of a
marker is more than one datum, so it cannot follow a dot. -/
def spelledOn : Value → Option Datum
  | .nil => some .nil
  | .atom _ value => some (.atom value none)
  | .pair _ head tail => (spelled 0 head).bind fun first =>
    (spelledOn tail).map (Datum.listWithTail first)
  | .transformer .. => some (.symbol "#<syntax-rules>".toList)
  | .procedure .. | .formMarker .. | .hostMarker .. => none

end

/-- **Values of readable atoms and names**, whatever can be called among them. -/
def Spellable : Value → Prop
  | .nil | .transformer .. => True
  | .atom _ value => value.Readable
  | .pair _ head tail => head.Spellable ∧ tail.Spellable
  | .procedure _ parameters _ _ => parameters.Spellable
  | .formMarker _ name | .hostMarker _ name => ReadableName name

end Value

/-- **What `write` puts in front of a text** has the tokens of these data. -/
def Spells (write : List Char → List Char) (data : List Datum) : Prop :=
  ∃ ds, allData ds = data ∧
    ∀ rest, Delimited rest → tokens (write rest) = allTokens ds ++ tokens rest

/-- **It has the tokens of these data, or two data after a dot** if there are none. -/
def SpellsOrBreaks (write : List Char → List Char) : Option (List Datum) → Prop
  | some data => data ≠ [] ∧ Spells write data
  | none => ∀ rest, Delimited rest → Broken (tokens (write rest))

/-- **The same of the rest of a list**, up to its parenthesis. -/
def SpellsOnOrBreaks (write : List Char → List Char) : Option Datum → Prop
  | some x => WritesOn write x
  | none => ∀ rest, Broken (tokens (write rest))

theorem Writes.spells {write : List Char → List Char} {x : Datum} (h : Writes write x) :
    Spells write [x] := by
  obtain ⟨d, rfl, hd⟩ := h
  exact ⟨[d], rfl, fun rest hrest => by rw [hd rest hrest, allTokens, allTokens, List.append_nil]⟩

/-! ## 3. Texts in front of closers -/

theorem mem_closers_append (text : List Char) (count : Nat) :
    '>' ∈ text ++ closers (count + 1) :=
  List.mem_append_right text List.mem_cons_self

/-- **A text with a closer in it is a symbol**, if it is an atom. -/
theorem ofChars_of_mem {text : List Char} (h : '>' ∈ text) :
    Atom.ofChars text = .symbol (String.ofList text) := by
  have hne : ∀ c, c ≠ '>' → text ≠ ['#', c] := by
    rintro c hc rfl
    simp [hc.symm] at h
  have hnone : Numeral.ofChars? text = none :=
    Numeral.ofChars?_eq_none h (by decide) (by decide) (by decide) (by decide)
  rw [Atom.ofChars, if_neg (hne 't' (by decide)), if_neg (hne 'f' (by decide)), hnone]

/-- **Closers make an atom longer.** -/
theorem AtomText.append_closers {text : List Char} (h : AtomText text) (count : Nat) :
    AtomText (text ++ closers count) where
  nonempty := List.append_ne_nil_of_left_ne_nil h.nonempty _
  undelimited c hc := by
    rcases List.mem_append.mp hc with hc | hc
    · exact h.undelimited c hc
    · rw [List.eq_of_mem_replicate hc]
      decide
  unquoted c hc := by
    rw [List.head?_append_of_ne_nil _ h.nonempty] at hc
    exact h.unquoted c hc
  undotted heq := by
    cases count with
    | zero => exact h.undotted (by simpa [closers] using heq)
    | succ count =>
      have hmem := mem_closers_append text count
      rw [heq] at hmem
      simp at hmem

/-- **An atom and closers** are one symbol. -/
theorem AtomText.spells_closers {text : List Char} (h : AtomText text) {count : Nat}
    (hmem : '>' ∈ text ++ closers count) :
    Spells (fun rest => text ++ (closers count ++ rest)) [.symbol (text ++ closers count)] := by
  have hwrites := (h.append_closers count).writes (ofChars_of_mem hmem)
  have happend : (fun rest => text ++ (closers count ++ rest)) = (text ++ closers count ++ ·) := by
    funext rest
    rw [List.append_assoc]
  rw [happend]
  exact hwrites.spells

theorem spells_closers (count : Nat) : Spells (closers count ++ ·) (closersSpelled count) := by
  cases count with
  | zero => exact ⟨[], rfl, fun _ _ => rfl⟩
  | succ count =>
    have hcloser : AtomText ['>'] := .of_all rfl (by decide) (by decide)
    have hwrites := (hcloser.append_closers count).writes
      (ofChars_of_mem (List.mem_append_left _ List.mem_cons_self))
    exact hwrites.spells

/-- **What ends by itself**, and closers after it. -/
theorem spells_before_closers (write : List Char → List Char) {d : ParseTree} {x : Datum}
    (hd : d.datum = x) (h : ∀ rest, tokens (write rest) = d.tokens ++ tokens rest) (count : Nat) :
    Spells (fun rest => write (closers count ++ rest)) (x :: closersSpelled count) := by
  obtain ⟨ds, hds, htokens⟩ := spells_closers count
  refine ⟨d :: ds, by rw [allData, hd, hds], fun rest hrest => ?_⟩
  rw [h, htokens rest hrest, allTokens, List.append_assoc]

/-- **The text of an atom in front of closers.** -/
theorem Atom.Readable.spells {a : Atom} (ha : a.Readable) (count : Nat) :
    Spells (fun rest => a.chars ++ (closers count ++ rest)) (a.spelled count) := by
  have hother : AtomText a.chars → a.spelled count =
      (if count = 0 then [.atom a none] else [.symbol (a.chars ++ closers count)]) →
      Spells (fun rest => a.chars ++ (closers count ++ rest)) (a.spelled count) := by
    intro htext hspelled
    rw [hspelled]
    cases count with
    | zero => exact ha.writes.spells
    | succ count => exact htext.spells_closers (mem_closers_append _ count)
  cases a with
  | boolean value =>
    exact hother (by cases value <;> exact .of_all rfl (by decide) (by decide)) rfl
  | integer n => exact hother (atomText_integerChars n) rfl
  | float x => exact ha.elim
  | symbol name => exact hother (symbolText_of_readableName ha).atomText rfl
  | string text raw =>
    refine spells_before_closers ((Atom.string text raw).chars ++ ·)
      (d := .string text.toList raw) (by simp [ParseTree.datum]) (fun rest => ?_) count
    cases raw with
    | true =>
      have htokens := tokens_rawString (ha rfl) rest
      simpa [chars, ParseTree.tokens] using htokens
    | false =>
      have htokens := tokens_escaped text.toList rest
      simpa [chars, ParseTree.tokens] using htokens

theorem Atom.spelled_ne_nil (a : Atom) (count : Nat) : a.spelled count ≠ [] := by
  cases a <;> simp only [Atom.spelled] <;> first | exact List.cons_ne_nil _ _ | (split <;> simp)

/-! ## 4. Texts of what holds values -/

section Parts

variable {first others : List Char → List Char} {data : Option (List Datum)} {x : Option Datum}

/-- A word and a blank in front of a text. -/
theorem SpellsOrBreaks.word {word : String} (hword : SymbolText word)
    (h : SpellsOrBreaks first data) :
    SpellsOrBreaks (fun rest => word.toList ++ ' ' :: first rest)
      (data.map (Datum.symbol word.toList :: ·)) := by
  have htokens : ∀ rest, tokens (word.toList ++ ' ' :: first rest) =
      .atom word.toList :: tokens (first rest) := fun rest => by
    rw [tokens_atom hword.atomText (delimited_cons (by decide) _), tokens_blank (by decide)]
  cases data with
  | none =>
    intro rest hrest
    rw [htokens]
    exact (h rest hrest).behind [_]
  | some data =>
    obtain ⟨-, ds, rfl, hds⟩ := h
    refine ⟨List.cons_ne_nil _ _, .atom word.toList :: ds, ?_, fun rest hrest => ?_⟩
    · rw [allData, ParseTree.datum, hword.denotes, Datum.symbol, String.ofList_toList]
    · rw [htokens, hds rest hrest, allTokens, ParseTree.tokens]
      rfl

/-- A quote in front of a text quotes the first datum. -/
theorem SpellsOrBreaks.quote (h : SpellsOrBreaks first data) :
    SpellsOrBreaks (fun rest => '\'' :: first rest)
      (data.map (List.modifyHead Datum.quoted)) := by
  cases data with
  | none =>
    intro rest hrest
    rw [tokens_quote]
    exact (h rest hrest).behind [_]
  | some data =>
    obtain ⟨hne, ds, rfl, hds⟩ := h
    cases ds with
    | nil => exact absurd rfl hne
    | cons d ds =>
      refine ⟨List.cons_ne_nil _ _, .quote d :: ds, rfl, fun rest hrest => ?_⟩
      rw [tokens_quote, hds rest hrest, allTokens, allTokens, ParseTree.tokens]
      rfl

theorem listWithTail_append (items more : List Datum) (tail : Datum) :
    Datum.listWithTail (items ++ more) tail =
      Datum.listWithTail items (Datum.listWithTail more tail) := by
  induction items with
  | nil => rfl
  | cons item items ih => exact congrArg (Datum.pair item · none) ih

/-- A list goes on with the data of one more text. -/
theorem SpellsOnOrBreaks.items (hothers : SpellsOnOrBreaks others x)
    (hdelimited : ∀ rest, Delimited (others rest)) (hfirst : SpellsOrBreaks first data) :
    SpellsOnOrBreaks (fun rest => ' ' :: first (others rest))
      (data.bind fun data => x.map (Datum.listWithTail data)) := by
  have hblank : ∀ rest, tokens (' ' :: first (others rest)) = tokens (first (others rest)) :=
    fun rest => tokens_blank (by decide) _
  cases data with
  | none =>
    intro rest
    rw [hblank]
    exact hfirst _ (hdelimited rest)
  | some data =>
    obtain ⟨-, ds, rfl, hds⟩ := hfirst
    cases x with
    | none =>
      intro rest
      rw [hblank, hds _ (hdelimited rest)]
      exact (hothers rest).behind _
    | some x =>
      obtain ⟨es, ending, rfl, hes⟩ := hothers
      refine ⟨ds ++ es, ending, ?_, fun rest => ?_⟩
      · rw [ParseTree.allData_eq_map, List.map_append, ← ParseTree.allData_eq_map,
          ← ParseTree.allData_eq_map, listWithTail_append]
      · rw [hblank, hds _ (hdelimited rest), hes, ParseTree.allTokens_append, List.append_assoc]

/-- A list begins with the data of a text. -/
theorem SpellsOnOrBreaks.list (hothers : SpellsOnOrBreaks others x)
    (hdelimited : ∀ rest, Delimited (others rest)) (hfirst : SpellsOrBreaks first data)
    (count : Nat) :
    SpellsOrBreaks (fun rest => '(' :: first (others (closers count ++ rest)))
      (data.bind fun data => x.map fun x => Datum.listWithTail data x :: closersSpelled count) := by
  cases data with
  | none =>
    intro rest _
    rw [tokens_opening]
    exact (hfirst _ (hdelimited _)).behind [_]
  | some data =>
    obtain ⟨hne, ds, rfl, hds⟩ := hfirst
    cases x with
    | none =>
      intro rest _
      rw [tokens_opening, hds _ (hdelimited _)]
      exact ((hothers _).behind _).behind [_]
    | some x =>
      obtain ⟨es, ending, rfl, hes⟩ := hothers
      cases ds with
      | nil => exact absurd rfl hne
      | cons d ds =>
        refine ⟨List.cons_ne_nil _ _, spells_before_closers
          (fun rest => '(' :: first (others rest)) (d := chain d (ds ++ es) ending)
          ?_ (fun rest => ?_) count⟩
        · rw [ParseTree.datum_chain, ParseTree.allData_eq_map, List.map_append,
            ← ParseTree.allData_eq_map, ← ParseTree.allData_eq_map, ← List.cons_append,
            listWithTail_append, allData]
        · rw [tokens_opening, hds _ (hdelimited rest), hes, ParseTree.tokens_chain]
          simp [allTokens, ParseTree.allTokens_append]

/-- **More than one datum cannot follow a dot.** -/
theorem SpellsOrBreaks.breaks_afterDot (h : SpellsOrBreaks first data)
    (hdata : ∀ only, data ≠ some [only]) (rest : List Char) :
    Broken (tokens (" . ".toList ++ first (')' :: rest))) := by
  have htokens : tokens (" . ".toList ++ first (')' :: rest)) =
      .dot :: tokens (first (')' :: rest)) := by
    change tokens (' ' :: '.' :: ' ' :: first (')' :: rest)) = _
    rw [tokens_blank (by decide), tokens_dot (delimited_cons (by decide) _),
      tokens_blank (by decide)]
  have hrest : Delimited (')' :: rest) := delimited_cons (by decide) rest
  rw [htokens]
  cases data with
  | none => exact (h _ hrest).behind [_]
  | some data =>
    obtain ⟨hne, ds, rfl, hds⟩ := h
    match ds with
    | [] => exact absurd rfl hne
    | [d] => exact absurd rfl (hdata d.datum)
    | d :: e :: ds =>
      rw [hds _ hrest]
      exact ⟨[], d, e, allTokens ds ++ tokens (')' :: rest), by simp [allTokens]⟩

end Parts

/-! ## 5. Values -/

namespace Value

/-- A pair is a quote of one value or printed as a list. -/
theorem quote_or_list (head tail : Value) :
    (head.isSymbolNamed "quote" = true ∧ ∃ id second, tail = .pair id second .nil) ∨
      ∀ id second, head.isSymbolNamed "quote" = true → tail = .pair id second .nil → False := by
  by_cases h : head.isSymbolNamed "quote" = true ∧ ∃ id second, tail = .pair id second .nil
  · exact .inl h
  · exact .inr fun id second hhead htail => h ⟨hhead, id, second, htail⟩

/-- **What the text of a marker spells**: two symbols. -/
theorem spells_marker {word name : String} (hword : SymbolText word) (hname : ReadableName name)
    (count : Nat) :
    SpellsOrBreaks
      (fun rest => word.toList ++ ' ' :: (name.toList ++ (closers (count + 1) ++ rest)))
      (some [.symbol word.toList, .symbol (name.toList ++ closers (count + 1))]) := by
  have hspells := (symbolText_of_readableName hname).atomText.spells_closers
    (mem_closers_append _ count)
  have hname : SpellsOrBreaks _ (some [.symbol (name.toList ++ closers (count + 1))]) :=
    ⟨List.cons_ne_nil _ _, hspells⟩
  exact hname.word hword

section Words

variable (id : Nat) (name : String) (parameters body : Value) (scope : Scope) (rest : List Char)

/-! The texts of what can be called, as a word, a blank and what is behind it. -/

theorem charsOnto_procedure : (procedure id parameters body scope).charsOnto false rest =
    "#<procedure".toList ++ ' ' :: parameters.charsOnto false ('>' :: rest) := by
  simp [charsOnto, beforeAtom, afterAtom]

theorem charsOnto_formMarker : (formMarker id name).charsOnto false rest =
    "#<special-form".toList ++ ' ' :: (name.toList ++ '>' :: rest) := by
  simp [charsOnto, beforeAtom, afterAtom]

theorem charsOnto_hostMarker : (hostMarker id name).charsOnto false rest =
    "#<host-function".toList ++ ' ' :: (name.toList ++ '>' :: rest) := by
  simp [charsOnto, beforeAtom, afterAtom]

end Words

/-- **What can be called ends a list** behind a dot. -/
theorem charsOnto_true_of_isApplicable {v : Value} (hv : v.isApplicable = true) (rest : List Char) :
    v.charsOnto true rest = " . ".toList ++ v.charsOnto false (')' :: rest) := by
  cases v with
  | procedure | transformer | formMarker | hostMarker =>
    simp [charsOnto, beforeAtom, afterAtom]
  | _ => cases hv

/-- **It breaks the list** if its text is more than one datum. -/
theorem spells_of_isApplicable {v : Value} (hv : v.isApplicable = true) (hon : v.spelledOn = none)
    (hdata : ∀ only, v.spelled 0 ≠ some [only])
    (halone : ∀ count, SpellsOrBreaks (fun rest => v.charsOnto false (closers count ++ rest))
      (v.spelled count)) :
    (∀ count, SpellsOrBreaks (fun rest => v.charsOnto false (closers count ++ rest))
      (v.spelled count)) ∧ SpellsOnOrBreaks (v.charsOnto true) v.spelledOn := by
  refine ⟨halone, ?_⟩
  rw [hon]
  intro rest
  rw [charsOnto_true_of_isApplicable hv]
  exact (halone 0).breaks_afterDot hdata rest

/-- **The text of a value in front of closers, and as the rest of a list**: what it spells, or two
data after a dot. -/
theorem spells (v : Value) (hv : v.Spellable) :
    (∀ count, SpellsOrBreaks (fun rest => v.charsOnto false (closers count ++ rest))
      (v.spelled count)) ∧
    SpellsOnOrBreaks (v.charsOnto true) v.spelledOn := by
  match v with
  | .nil =>
    refine ⟨fun count => ⟨List.cons_ne_nil _ _, ?_⟩, writesOn_nil⟩
    exact spells_before_closers (fun rest => '(' :: ')' :: rest) (d := .list []) rfl
      (fun rest => by simp [ParseTree.tokens, allTokens]) count
  | .atom id value =>
    refine ⟨fun count => ⟨value.spelled_ne_nil count, ?_⟩, (Atom.Readable.writes hv).afterDot⟩
    exact Atom.Readable.spells hv count
  | .pair id head tail =>
    obtain ⟨hhead, -⟩ := spells head hv.1
    obtain ⟨-, htail⟩ := spells tail hv.2
    constructor
    · intro count
      rcases quote_or_list head tail with ⟨hquote, after, second, rfl⟩ | hlist
      · obtain ⟨hsecond, -⟩ := spells second hv.2.1
        rw [spelled.eq_3 _ _ _ _ _ hquote,
          funext fun rest =>
            charsOnto.eq_3 false (closers count ++ rest) id head after second hquote]
        exact (hsecond count).quote
      · rw [spelled.eq_4 _ _ _ _ hlist,
          funext fun rest => charsOnto.eq_4 false (closers count ++ rest) id head tail hlist]
        exact htail.list tail.delimited_charsOnto (hhead 0) count
    · rw [funext (charsOnto_pair_true id head tail)]
      exact htail.items tail.delimited_charsOnto (hhead 0)
  | .procedure id parameters body scope =>
    have hword : SymbolText "#<procedure" := ⟨.of_all rfl (by decide) (by decide), by decide⟩
    obtain ⟨hparameters, -⟩ := spells parameters hv
    refine spells_of_isApplicable rfl rfl (fun only honly => ?_) fun count => ?_
    · -- the parameters are one datum at least
      obtain ⟨data, hdata, honly⟩ := Option.map_eq_some_iff.mp honly
      have hsome := hparameters 1
      rw [hdata] at hsome
      exact hsome.1 (List.cons.inj honly).2
    · simp only [charsOnto_procedure, spelled.eq_5]
      exact (hparameters (count + 1)).word hword
  | .transformer id rules scope =>
    have hword : AtomText "#<syntax-rules>".toList := .of_all rfl (by decide) (by decide)
    have hcloser : '>' ∈ "#<syntax-rules>".toList := by decide
    have hwrites := hword.writes (ofChars_of_mem hcloser)
    refine ⟨fun count => ⟨List.cons_ne_nil _ _, ?_⟩, hwrites.afterDot⟩
    exact hword.spells_closers (List.mem_append_left _ hcloser)
  | .formMarker id name =>
    have hword : SymbolText "#<special-form" := ⟨.of_all rfl (by decide) (by decide), by decide⟩
    refine spells_of_isApplicable rfl rfl (fun only honly => by cases honly) fun count => ?_
    simp only [charsOnto_formMarker, spelled.eq_7]
    exact spells_marker hword hv count
  | .hostMarker id name =>
    have hword : SymbolText "#<host-function" := ⟨.of_all rfl (by decide) (by decide), by decide⟩
    refine spells_of_isApplicable rfl rfl (fun only honly => by cases honly) fun count => ?_
    simp only [charsOnto_hostMarker, spelled.eq_8]
    exact spells_marker hword hv count
termination_by sizeOf v

/-- **The one datum that the text of a pair spells** is a pair. -/
theorem pair_of_spelled {id : Nat} {head tail : Value} {d : Datum}
    (hv : (pair id head tail).Spellable) (h : (pair id head tail).spelled 0 = some [d]) :
    ∃ first rest, d = .pair first rest none := by
  rcases quote_or_list head tail with ⟨hquote, after, second, rfl⟩ | hlist
  · rw [spelled.eq_3 _ _ _ _ _ hquote] at h
    obtain ⟨data, -, hdata⟩ := Option.map_eq_some_iff.mp h
    cases data with
    | nil => cases hdata
    | cons x data => exact ⟨_, _, (List.cons.inj hdata).1.symm⟩
  · rw [spelled.eq_4 _ _ _ _ hlist] at h
    obtain ⟨first, hfirst, h⟩ := Option.bind_eq_some_iff.mp h
    obtain ⟨rest, -, hrest⟩ := Option.map_eq_some_iff.mp h
    have hhead := (spells head hv.1).1 0
    rw [hfirst] at hhead
    obtain ⟨x, items, rfl⟩ := List.exists_cons_of_ne_nil hhead.1
    exact ⟨_, _, (List.cons.inj hrest).1.symm⟩

/-- **Something that can be called is in the value**, as itself or somewhere in its tree. -/
def HoldsCallable : Value → Prop
  | .pair _ head tail => head.HoldsCallable ∨ tail.HoldsCallable
  | v => v.isApplicable = true

/-- **Only a value with nothing of the kind is data.** -/
theorem datum?_eq_none_iff (v : Value) : v.datum? = none ↔ v.HoldsCallable := by
  induction v with
  | pair id head tail ihhead ihtail =>
    rw [HoldsCallable, ← ihhead, ← ihtail, datum?]
    cases head.datum? <;> cases tail.datum? <;> simp
  | _ => simp [datum?, HoldsCallable, isApplicable]

theorem Spellable.readable {v : Value} (hv : v.Spellable) (h : ¬ v.HoldsCallable) : v.Readable := by
  induction v with
  | nil => trivial
  | atom id value => exact hv
  | pair id head tail ihhead ihtail =>
    rw [HoldsCallable, not_or] at h
    exact ⟨ihhead hv.1 h.1, ihtail hv.2 h.2⟩
  | procedure | transformer | formMarker | hostMarker => exact absurd rfl h

end Value

/-! ## 6. The trip of a list -/

/-- **A text that spells data** is read as these. -/
theorem Spells.readAll_eq {write : List Char → List Char} {data : List Datum}
    (h : Spells write data) (file : Nat) :
    ∃ forms, readAll file (String.ofList (write [])) = .ok forms ∧
      forms.map Datum.bare = data := by
  obtain ⟨ds, rfl, hds⟩ := h
  have htokens : allTokens ds = tokens (String.ofList (write [])).toList := by
    simpa using (hds [] delimited_nil).symm
  exact readAll_of_derivation file htokens

/-- **A text with two data after a dot** is not read. -/
theorem Broken.readAll_ne_ok {file : Nat} {text : String} (h : Broken (tokens text.toList))
    (forms : List Datum) : readAll file text ≠ .ok forms := by
  intro hread
  obtain ⟨ds, hds, -⟩ := derivation_of_readAll hread
  exact h.allTokens_ne ds hds

/-- What a host value becomes is data, if it was no undefined value. -/
theorem isSome_datum?_ofHost (s : Store) (text : String) :
    ((s.ofHost (.datum text)).1.datum?).isSome := by
  by_cases hother : ReadsAsOther text
  · obtain ⟨datum, hread, hsymbol⟩ := hother
    rw [Value.ofHost_readsAsOther hread hsymbol, load_datum?]
    rfl
  · obtain ⟨id, hstring⟩ := Value.isPlainString_ofHost (s := s) hother
    rw [hstring]
    rfl

/-- **What comes back of a pair.**  If its text spells one datum, that is what comes back, and it is
a pair; otherwise the text comes back, as a string.  What comes back has the tree of the pair if and
only if nothing in the pair can be called.  So a pair with a procedure, a macro or a marker in it
comes back as another pair, unless its text spells no datum or more than one. -/
theorem pair_ofHost_spelled {v : Value} (hv : v.Spellable) (hpair : v.isPair = true) (s : Store) :
    (∀ d, v.spelled 0 = some [d] → (s.ofHost (.ofValue v)).1.isPair = true ∧
      (s.ofHost (.ofValue v)).1.datum? = some d) ∧
    ((∀ d, v.spelled 0 ≠ some [d]) → (s.ofHost (.ofValue v)).1.IsPlainString v.text) ∧
    ((s.ofHost (.ofValue v)).1.datum? = v.datum? ↔ ¬ v.HoldsCallable) := by
  cases v with
  | pair id head tail =>
    have hspells := (Value.spells _ hv).1 0
    change _ ∧ _ ∧ ((s.ofHost (.datum (Value.pair id head tail).text)).1.datum? = _ ↔ _)
    refine ⟨fun d hd => ?_, fun hd => ?_, fun hsame hcallable => ?_, fun hfree => ?_⟩
    · obtain ⟨first, rest, rfl⟩ := Value.pair_of_spelled hv hd
      rw [hd] at hspells
      obtain ⟨forms, hread, hforms⟩ := hspells.2.readAll_eq 0
      obtain ⟨form, rfl, hform⟩ := List.map_eq_singleton_iff.mp hforms
      have hother : form.isSymbol = false := by
        cases form <;> simp_all [Datum.bare, Datum.isSymbol]
      have hload := Value.ofHost_readsAsOther (s := s) hread hother
      have hdatum := load_datum? s form
      rw [hform, ← hload] at hdatum
      exact ⟨Value.isPair_of_datum? hdatum, hdatum⟩
    · refine Value.isPlainString_ofHost ?_
      rintro ⟨form, hread, -⟩
      cases hspelled : (Value.pair id head tail).spelled 0 with
      | none =>
        rw [hspelled] at hspells
        refine Broken.readAll_ne_ok ?_ _ hread
        simpa [Value.text, Value.chars, closers] using hspells [] delimited_nil
      | some data =>
        rw [hspelled] at hspells
        obtain ⟨forms, hforms, hdata⟩ := hspells.2.readAll_eq 0
        rw [← Except.ok.inj (hread.symm.trans hforms)] at hdata
        exact hd form.bare (hspelled.trans (congrArg some hdata.symm))
    · have hnone := (Value.datum?_eq_none_iff _).mpr hcallable
      have hsome := isSome_datum?_ofHost s (Value.pair id head tail).text
      rw [hsame, hnone] at hsome
      cases hsome
    · obtain ⟨-, datum, hdatum, hback⟩ := Value.Readable.pair_ofHost (s := s) (hv.readable hfree)
      rw [hdatum, hback]
  | _ => cases hpair

/-- The procedure that `(lambda (x) x)` makes. -/
def identityProcedure : Value :=
  .procedure 1 (.pair 2 (.atom 3 (.symbol "x")) .nil) (.pair 4 (.atom 5 (.symbol "x")) .nil)
    (.ofRoot 0)

/-- In a list it comes back as the list of `#<procedure`, `(x)` and `>`; after a dot it makes the
whole come back as a string. -/
theorem pairs_of_procedure_ofHost :
    (Store.empty.ofHost (.ofValue (.pair 0 identityProcedure .nil))).1.datum? =
        some (Datum.listWithTail
          [.symbol "#<procedure".toList, .pair (.atom (.symbol "x") none) .nil none,
            .symbol ">".toList] .nil) ∧
      (Store.empty.ofHost (.ofValue (.pair 0 .nil identityProcedure))).1.IsPlainString
        (Value.pair 0 .nil identityProcedure).text := by
  have hname : ReadableName "x" := ⟨0, "x", _, rfl, _, List.mem_singleton_self _, rfl⟩
  have hprocedure : identityProcedure.Spellable := ⟨hname, trivial⟩
  obtain ⟨hlist, -, -⟩ := pair_ofHost_spelled (v := .pair 0 identityProcedure .nil)
    ⟨hprocedure, trivial⟩ rfl .empty
  obtain ⟨-, hdotted, -⟩ := pair_ofHost_spelled (v := .pair 0 .nil identityProcedure)
    ⟨trivial, hprocedure⟩ rfl .empty
  have hspelled : (Value.pair 0 identityProcedure .nil).spelled 0 = some [_] := rfl
  have hbroken : (Value.pair 0 .nil identityProcedure).spelled 0 = none := rfl
  exact ⟨(hlist _ hspelled).2, hdotted fun d hd => by rw [hbroken] at hd; cases hd⟩

/-- **A list can come back as another list.**  The list of one procedure comes back as a list of
three, which does not equal it. -/
theorem list_of_procedure_comes_back_as_three :
    let v : Value := .pair 0 identityProcedure .nil
    let w := (Store.empty.ofHost (.ofValue v)).1
    w.isPair = true ∧ v.elements.length = 1 ∧ w.elements.length = 3 ∧ v.equal w = false := by
  decide +kernel

end Lisp
