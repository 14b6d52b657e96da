/-
# What is printed reads back

The printer knows nothing of tokens and the reader nothing of values.  They meet in the grammar:
the text of a value, whatever follows it, has the tokens of a derivation of the value's tree
(`Value.Printed`), and what is derivable is read (`readAll_of_derivation`).

A value is printed in two places, by itself and as the rest of a list, and `(quote x)` is printed
as `'x` in the first of them only.  So the induction carries both texts of a value, and for a pair
also that of its head (`Value.printed`).

Floats are left out, and so are the strings and symbols that no text could stand for: a raw string
cannot hold its own delimiter, and a symbol must have a name that some text is read with.
-/
import Lisp.Proofs.Reading
import Lisp.Store
import Mathlib.Data.List.TakeWhile

namespace Lisp

open ParseTree (allTokens allData)

/-! ## 1. Strings -/

/-- **What a character is written as** in a string stands for that character. -/
theorem tokensFrom_escapeChar (c : Char) (start : Position) (read rest : List Char) :
    tokensFrom (.string start false read) (escapeChar c ++ rest) =
      tokensFrom (.string start false (c :: read)) rest := by
  unfold escapeChar
  split
  case h_6 hquote hbackslash _ _ _ =>
    exact tokensFrom_string_plain hquote hbackslash start read rest
  all_goals exact tokensFrom_string_escape _ start read rest

/-- **An escaped text** is read up to its closing delimiter. -/
theorem tokensFrom_escaped (text : List Char) (start : Position) (read rest : List Char) :
    tokensFrom (.string start false read) (text.flatMap escapeChar ++ '"' :: rest) =
      .string (read.reverse ++ text) false :: tokens rest := by
  induction text generalizing read with
  | nil => simpa using tokensFrom_string_end start read rest
  | cons c text ih =>
    rw [List.flatMap_cons, List.append_assoc, tokensFrom_escapeChar, ih]
    simp

theorem tokens_escaped (text rest : List Char) :
    tokens ('"' :: (text.flatMap escapeChar ++ '"' :: rest)) =
      .string text false :: tokens rest := by
  rw [tokens_string_begin, tokensFrom_escaped]
  rfl

/-! ## 2. Integers -/

/-- A digit ends no atom, begins no other token, and is neither a sign nor a point. -/
theorem digit_plain {c : Char} (hc : c.isDigit) :
    isDelimiter c = false ∧ c ≠ '.' ∧ c ≠ '-' ∧ c ≠ '+' ∧ c ≠ '#' ∧
      c ≠ '\'' ∧ c ≠ '"' ∧ c ≠ '`' := by
  have hbounds : 48 ≤ c.toNat ∧ c.toNat ≤ 57 := by
    simpa [Char.isDigit, UInt32.le_iff_toNat_le] using hc
  refine ⟨?_, ?_, ?_, ?_, ?_, ?_, ?_, ?_⟩
  · rw [Bool.eq_false_iff, ne_eq, isDelimiter_iff]
    rintro (hblank | rfl | rfl | rfl)
    · simp [isBlank, blankRanges] at hblank
      omega
    all_goals exact absurd hc (by decide)
  all_goals
    rintro rfl
    exact absurd hc (by decide)

namespace Numeral

/-- **Digits with or without a sign** are a numeral without a point. -/
theorem ofChars?_of_takeSign {text digits : List Char} {negative : Bool}
    (hsign : takeSign text = (negative, digits)) (hne : digits ≠ [])
    (hdigits : ∀ c ∈ digits, c.isDigit) : ofChars? text = some ⟨negative, digits, none⟩ := by
  have hpoint : digits.dropWhile (· ≠ '.') = [] := by
    rw [List.dropWhile_eq_nil_iff]
    intro c hc
    simpa using (digit_plain (hdigits c hc)).2.1
  have hsplit : splitPoint digits = (digits, none) := by
    rw [splitPoint, hpoint]
  simp [ofChars?, hsign, hsplit, wellFormed, hne, List.all_eq_true.mpr hdigits]

theorem takeSign_digits {c : Char} (hc : c.isDigit) (digits : List Char) :
    takeSign (c :: digits) = (false, c :: digits) := by
  obtain ⟨-, -, hminus, hplus, -⟩ := digit_plain hc
  unfold takeSign
  split <;> simp_all

/-- **A number is written by its digits.** -/
theorem digitsValue_toDigits (n : Nat) : digitsValue (Nat.toDigits 10 n) = n :=
  Nat.ofDigitChars_ten_toDigits

end Numeral

theorem isDigit_of_mem_toDigits {n : Nat} {c : Char} (hc : c ∈ Nat.toDigits 10 n) : c.isDigit :=
  Nat.isDigit_of_mem_toDigits (by decide) (by decide) hc

theorem toList_toString_ofNat (n : Nat) : (toString (Int.ofNat n)).toList = Nat.toDigits 10 n := by
  rw [Int.toString_eq_repr, Int.repr_eq_if, if_pos (by simp), Nat.toList_repr]
  rfl

theorem toList_toString_negSucc (n : Nat) :
    (toString (Int.negSucc n)).toList = '-' :: Nat.toDigits 10 (n + 1) := by
  rw [Int.toString_eq_repr, Int.repr_eq_if, if_neg (by simp), String.toList_append, Nat.toList_repr]
  rfl

/-- **The text of an integer is a numeral** of that value. -/
theorem numeral_toString (n : Int) :
    ∃ numeral, Numeral.ofChars? (toString n).toList = some numeral ∧ numeral.fraction = none ∧
      numeral.wholeValue = n := by
  cases n with
  | ofNat n =>
    have hdigits : ∀ c ∈ Nat.toDigits 10 n, c.isDigit := fun c => isDigit_of_mem_toDigits
    obtain ⟨c, digits, hcons⟩ := List.exists_cons_of_ne_nil (Nat.toDigits_ne_nil (n := n) (b := 10))
    have hsign : Numeral.takeSign (Nat.toDigits 10 n) = (false, Nat.toDigits 10 n) := by
      rw [hcons] at hdigits ⊢
      exact Numeral.takeSign_digits (hdigits c List.mem_cons_self) digits
    rw [toList_toString_ofNat]
    refine ⟨_, Numeral.ofChars?_of_takeSign hsign Nat.toDigits_ne_nil hdigits, rfl, ?_⟩
    simp [Numeral.wholeValue, Numeral.digitsValue_toDigits]
  | negSucc n =>
    rw [toList_toString_negSucc]
    refine ⟨_, Numeral.ofChars?_of_takeSign rfl Nat.toDigits_ne_nil
      (fun c => isDigit_of_mem_toDigits), rfl, ?_⟩
    simp [Numeral.wholeValue, Numeral.digitsValue_toDigits, Int.negSucc_eq]

/-- **The text of an integer** has digits, after a `-` if it is negative. -/
theorem integerChars_shape (n : Int64) :
    ∃ digits, digits ≠ [] ∧ (∀ c ∈ digits, c.isDigit) ∧
      (integerChars n = digits ∨ integerChars n = '-' :: digits) := by
  unfold integerChars
  cases n.toInt with
  | ofNat n =>
    exact ⟨_, Nat.toDigits_ne_nil, fun c => isDigit_of_mem_toDigits, .inl (toList_toString_ofNat n)⟩
  | negSucc n =>
    exact ⟨_, Nat.toDigits_ne_nil, fun c => isDigit_of_mem_toDigits,
      .inr (toList_toString_negSucc n)⟩

theorem atomText_integerChars (n : Int64) : AtomText (integerChars n) := by
  obtain ⟨digits, hne, hdigits, h | h⟩ := integerChars_shape n
  · obtain ⟨c, digits, rfl⟩ := List.exists_cons_of_ne_nil hne
    have hc := digit_plain (hdigits c List.mem_cons_self)
    rw [h]
    refine ⟨hne, fun d hd => (digit_plain (hdigits d hd)).1, ?_, ?_⟩
    · rintro _ ⟨⟩
      exact hc.2.2.2.2.2
    · simp [hc.2.1]
  · rw [h]
    refine ⟨by simp, fun d hd => ?_, by rintro _ ⟨⟩; decide, by simp⟩
    rcases List.mem_cons.mp hd with rfl | hd
    · decide
    · exact (digit_plain (hdigits d hd)).1

/-- **The text of an integer denotes it.** -/
theorem ofChars_integerChars (n : Int64) : Atom.ofChars (integerChars n) = .integer n := by
  obtain ⟨numeral, hnumeral, hfraction, hvalue⟩ := numeral_toString n.toInt
  have hboolean : ∀ c, integerChars n ≠ ['#', c] := by
    intro c hc
    obtain ⟨digits, hne, hdigits, h | h⟩ := integerChars_shape n
    · rw [← h, hc] at hdigits
      exact absurd (hdigits '#' List.mem_cons_self) (by decide)
    · rw [hc] at h
      simp at h
  have hrange : Int64.minValue.toInt ≤ n.toInt ∧ n.toInt ≤ Int64.maxValue.toInt :=
    ⟨n.minValue_le_toInt, n.toInt_le⟩
  rw [Atom.ofChars, if_neg (hboolean 't'), if_neg (hboolean 'f')]
  rw [← integerChars] at hnumeral
  rw [hnumeral]
  simp only [Numeral.toAtom, hfraction, hvalue, if_pos hrange, Int64.ofInt_toInt]

/-! ## 3. Symbols that can be read -/

namespace Datum

/-- **The symbol occurs in the datum.** -/
def Mentions (name : String) : Datum → Prop
  | .nil => False
  | .atom value _ => value = .symbol name
  | .pair head tail _ => head.Mentions name ∨ tail.Mentions name

theorem mentions_bare (name : String) (d : Datum) : d.bare.Mentions name ↔ d.Mentions name := by
  induction d with
  | nil | atom => rfl
  | pair head tail _ ihhead ihtail => simp only [bare, Mentions, ihhead, ihtail]

@[simp] theorem mentions_listWithTail (name : String) (items : List Datum) (tail : Datum) :
    (listWithTail items tail).Mentions name ↔
      (∃ item ∈ items, item.Mentions name) ∨ tail.Mentions name := by
  induction items with
  | nil => simp [listWithTail]
  | cons item items ih => simp [listWithTail, Mentions, ih, or_assoc]

@[simp] theorem mentions_quoted (name : String) (d : Datum) :
    d.quoted.Mentions name ↔ name = "quote" ∨ d.Mentions name := by
  simp [quoted, Mentions, eq_comm]

end Datum

/-- **Some text is read with a symbol of this name** in it. -/
def ReadableName (name : String) : Prop :=
  ∃ file text forms, readAll file text = .ok forms ∧ ∃ form ∈ forms, form.Mentions name

/-- **The name written out is the symbol.** -/
structure SymbolText (name : String) : Prop where
  atomText : AtomText name.toList
  denotes : Atom.ofChars name.toList = .symbol name

/-- A symbol keeps the text that it was read from. -/
theorem eq_of_ofChars_eq_symbol {text : List Char} {name : String}
    (h : Atom.ofChars text = .symbol name) : text = name.toList := by
  unfold Atom.ofChars at h
  split at h
  · cases h
  · split at h
    · cases h
    · split at h
      · unfold Numeral.toAtom at h
        split at h
        · split at h <;> cases h
        · cases h
      · cases h
        exact String.toList_ofList.symm

theorem symbolText_quote : SymbolText "quote" where
  atomText := show AtomText ['q', 'u', 'o', 't', 'e'] from .of_all rfl (by decide) (by decide)
  denotes := by decide

namespace ParseTree

/-- **The tokens of a row of data** hold a symbol as an atom. -/
def WritesName (name : String) (ts : List Token) : Prop :=
  name = "quote" ∨ ∃ text, .atom text ∈ ts ∧ Atom.ofChars text = .symbol name

theorem WritesName.mono {name : String} {ts us : List Token} (h : WritesName name ts)
    (hsub : ts ⊆ us) : WritesName name us := by
  rcases h with h | ⟨text, htext, hname⟩
  · exact .inl h
  · exact .inr ⟨text, hsub htext, hname⟩

mutual

/-- **Every symbol of a datum is written by an atom**, or stands for the `'` of a quote. -/
theorem writesName_of_mentions {name : String} :
    ∀ d : ParseTree, d.datum.Mentions name → WritesName name d.tokens
  | .atom text, h => .inr ⟨text, by simp [tokens], h⟩
  | .string text raw, h => by simp [datum, Datum.Mentions] at h
  | .quote d, h => by
    rcases (Datum.mentions_quoted name d.datum).mp h with h | h
    · exact .inl h
    · exact (writesName_of_mentions d h).mono (by simp [tokens])
  | .list items, h => by
    simp only [datum, Datum.mentions_listWithTail, Datum.Mentions, or_false] at h
    exact (allWriteName_of_mentions items h).mono (by simp [tokens])
  | .dotted first others last, h => by
    simp only [datum, Datum.mentions_listWithTail, List.mem_cons, exists_eq_or_imp] at h
    rcases h with (h | h) | h
    · exact (writesName_of_mentions first h).mono (by intro t ht; simp [tokens, ht])
    · exact (allWriteName_of_mentions others h).mono (by intro t ht; simp [tokens, ht])
    · exact (writesName_of_mentions last h).mono (by intro t ht; simp [tokens, ht])

theorem allWriteName_of_mentions {name : String} :
    ∀ ds : List ParseTree, (∃ x ∈ allData ds, x.Mentions name) → WritesName name (allTokens ds)
  | [], h => by simp [allData] at h
  | d :: ds, h => by
    simp only [allData, List.mem_cons, exists_eq_or_imp] at h
    rcases h with h | h
    · exact (writesName_of_mentions d h).mono (by simp [allTokens])
    · exact (allWriteName_of_mentions ds h).mono (by simp [allTokens])

end

end ParseTree

/-- **A name that some text is read with, written out, is the symbol.** -/
theorem symbolText_of_readableName {name : String} (h : ReadableName name) : SymbolText name := by
  obtain ⟨file, text, forms, hread, form, hform, hmentions⟩ := h
  obtain ⟨ds, htokens, hdata⟩ := derivation_of_readAll hread
  have hwritten : ∃ x ∈ allData ds, x.Mentions name := by
    rw [hdata]
    exact ⟨form.bare, List.mem_map_of_mem hform, (Datum.mentions_bare name form).mpr hmentions⟩
  rcases ParseTree.allWriteName_of_mentions ds hwritten with rfl | ⟨chars, hchars, hname⟩
  · exact symbolText_quote
  · obtain rfl := eq_of_ofChars_eq_symbol hname
    rw [htokens] at hchars
    exact ⟨atomText_of_mem_tokens hchars, hname⟩

/-! ## 4. Values that print as data -/

/-- **Atoms that a text can stand for.** -/
def Atom.Readable : Atom → Prop
  | .boolean _ | .integer _ => True
  | .float _ => False
  | .string text raw => raw = true → '`' ∉ text.toList
  | .symbol name => ReadableName name

namespace Value

/-- **Trees of such atoms.** -/
def Readable : Value → Prop
  | .nil => True
  | .atom _ value => value.Readable
  | .pair _ head tail => head.Readable ∧ tail.Readable
  | .procedure .. | .transformer .. | .formMarker .. | .hostMarker .. => False

/-- **The tree of a value**, if it is one of atoms: kinds and contents, without identities. -/
def datum? : Value → Option Datum
  | .nil => some .nil
  | .atom _ value => some (.atom value none)
  | .pair _ head tail =>
    match head.datum?, tail.datum? with
    | some first, some rest => some (.pair first rest none)
    | _, _ => none
  | .procedure .. | .transformer .. | .formMarker .. | .hostMarker .. => none

end Value

/-- **Making the objects of a datum** makes its tree. -/
theorem load_datum? (s : Store) (d : Datum) : (s.load d).1.datum? = some d.bare := by
  induction d generalizing s with
  | nil | atom => rfl
  | pair head tail span ihhead ihtail =>
    simp only [Store.load, Store.allocate, Value.datum?, ihhead, ihtail, Datum.bare]

/-! ## 5. Texts with the tokens of a datum -/

/-- **What `write` puts in front of a text** has the tokens of one datum, which is `x`. -/
def Writes (write : List Char → List Char) (x : Datum) : Prop :=
  ∃ d : ParseTree, d.datum = x ∧
    ∀ rest, Delimited rest → tokens (write rest) = d.tokens ++ tokens rest

theorem AtomText.writes {text : List Char} (htext : AtomText text) {a : Atom}
    (ha : Atom.ofChars text = a) : Writes (text ++ ·) (.atom a none) := by
  refine ⟨.atom text, by rw [ParseTree.datum, ha], fun rest hrest => ?_⟩
  rw [tokens_atom htext hrest, ParseTree.tokens]
  rfl

/-- **A text that writes one datum** is read as one form, which is that datum. -/
theorem Writes.readAll_eq {write : List Char → List Char} {x : Datum} (h : Writes write x)
    (file : Nat) :
    ∃ form, readAll file (String.ofList (write [])) = .ok [form] ∧ form.bare = x := by
  obtain ⟨d, rfl, hd⟩ := h
  have htokens : allTokens [d] = tokens (String.ofList (write [])).toList := by
    simpa [allTokens] using (hd [] delimited_nil).symm
  obtain ⟨forms, hread, hforms⟩ := readAll_of_derivation file htokens
  obtain ⟨form, rfl, hform⟩ : ∃ form, forms = [form] ∧ form.bare = d.datum := by
    simpa [allData, List.map_eq_singleton_iff] using hforms
  exact ⟨form, hread, hform⟩

/-- **The text of an atom** is one token that stands for it. -/
theorem Atom.Readable.writes {a : Atom} (ha : a.Readable) :
    Writes (a.chars ++ ·) (.atom a none) := by
  cases a with
  | boolean value =>
    have htext : AtomText (boolean value).chars := by
      cases value <;> exact .of_all rfl (by decide) (by decide)
    exact htext.writes (by cases value <;> rfl)
  | integer n => exact (atomText_integerChars n).writes (ofChars_integerChars n)
  | float x => exact ha.elim
  | symbol name =>
    have hname := symbolText_of_readableName ha
    exact hname.atomText.writes hname.denotes
  | string text raw =>
    refine ⟨.string text.toList raw, by simp [ParseTree.datum], fun rest _ => ?_⟩
    cases raw with
    | true =>
      have htokens := tokens_rawString (ha rfl) rest
      simpa [chars, ParseTree.tokens] using htokens
    | false =>
      have htokens := tokens_escaped text.toList rest
      simpa [chars, ParseTree.tokens] using htokens

namespace ParseTree

/-- **The last datum of a list**, after a dot, or none. -/
def endingTokens : Option ParseTree → List Token
  | none => []
  | some last => .dot :: last.tokens

/-- **What a list goes on with** after its items. -/
def endingDatum : Option ParseTree → Datum
  | none => .nil
  | some last => last.datum

/-- **The list of at least one datum**, with or without a dot. -/
def chain (first : ParseTree) (others : List ParseTree) : Option ParseTree → ParseTree
  | none => .list (first :: others)
  | some last => .dotted first others last

theorem tokens_chain (first : ParseTree) (others : List ParseTree) (ending : Option ParseTree) :
    (chain first others ending).tokens =
      .opening :: (allTokens (first :: others) ++ (endingTokens ending ++ [.closing])) := by
  cases ending <;> simp [chain, endingTokens, tokens]

theorem datum_chain (first : ParseTree) (others : List ParseTree) (ending : Option ParseTree) :
    (chain first others ending).datum =
      Datum.listWithTail (first.datum :: allData others) (endingDatum ending) := by
  cases ending <;> simp [chain, endingDatum, datum, allData]

end ParseTree

open ParseTree (endingTokens endingDatum chain)

/-- **What `write` puts in front of a text** has the tokens of the rest of a list, up to its
closing parenthesis, and `x` is that rest. -/
def WritesOn (write : List Char → List Char) (x : Datum) : Prop :=
  ∃ ds ending, Datum.listWithTail (allData ds) (endingDatum ending) = x ∧
    ∀ rest, tokens (write rest) = allTokens ds ++ (endingTokens ending ++ .closing :: tokens rest)

/-- A list ends at its parenthesis. -/
theorem writesOn_nil : WritesOn (')' :: ·) .nil :=
  ⟨[], none, rfl, fun rest => by simp [allTokens, endingTokens]⟩

/-- A list ends in a datum after a dot. -/
theorem Writes.afterDot {write : List Char → List Char} {x : Datum} (h : Writes write x) :
    WritesOn (fun rest => " . ".toList ++ write (')' :: rest)) x := by
  obtain ⟨d, hd, htokens⟩ := h
  refine ⟨[], some d, by simp [allData, Datum.listWithTail, endingDatum, hd], fun rest => ?_⟩
  calc tokens (' ' :: '.' :: ' ' :: write (')' :: rest))
      = .dot :: tokens (write (')' :: rest)) := by
        rw [tokens_blank (by decide), tokens_dot (delimited_cons (by decide) _),
          tokens_blank (by decide)]
    _ = .dot :: (d.tokens ++ tokens (')' :: rest)) := by
        rw [htokens _ (delimited_cons (by decide) rest)]
    _ = _ := by simp [allTokens, endingTokens]

section Pair

variable {first others : List Char → List Char} {x y : Datum}

/-- A list goes on with one more item. -/
theorem WritesOn.item (hothers : WritesOn others y) (hdelimited : ∀ rest, Delimited (others rest))
    (hfirst : Writes first x) :
    WritesOn (fun rest => ' ' :: first (others rest)) (.pair x y none) := by
  obtain ⟨d, rfl, hd⟩ := hfirst
  obtain ⟨ds, ending, rfl, hds⟩ := hothers
  refine ⟨d :: ds, ending, rfl, fun rest => ?_⟩
  rw [tokens_blank (by decide), hd _ (hdelimited rest), hds, allTokens, List.append_assoc]

/-- A list begins with an item. -/
theorem WritesOn.list (hothers : WritesOn others y) (hdelimited : ∀ rest, Delimited (others rest))
    (hfirst : Writes first x) :
    Writes (fun rest => '(' :: first (others rest)) (.pair x y none) := by
  obtain ⟨d, rfl, hd⟩ := hfirst
  obtain ⟨ds, ending, rfl, hds⟩ := hothers
  refine ⟨chain d ds ending, ParseTree.datum_chain d ds ending, fun rest _ => ?_⟩
  rw [tokens_opening, hd _ (hdelimited rest), hds, ParseTree.tokens_chain, allTokens]
  simp

/-- A quote begins with `'`. -/
theorem Writes.quote (hfirst : Writes first x) :
    Writes (fun rest => '\'' :: first rest) x.quoted := by
  obtain ⟨d, rfl, hd⟩ := hfirst
  refine ⟨.quote d, rfl, fun rest hrest => ?_⟩
  rw [tokens_quote, hd rest hrest, ParseTree.tokens]
  rfl

end Pair

/-! ## 6. Values -/

namespace Value

theorem text_atom (id : Nat) (a : Atom) : (atom id a).text = String.ofList a.chars := by
  simp [text, chars, charsOnto, beforeAtom, afterAtom]

theorem charsOnto_pair_true (id : Nat) (head tail : Value) (rest : List Char) :
    (pair id head tail).charsOnto true rest =
      ' ' :: head.charsOnto false (tail.charsOnto true rest) := by
  rw [charsOnto.eq_def]
  rfl

/-- The rest of a list begins with a delimiter, so the item before it is read as it is. -/
theorem delimited_charsOnto (v : Value) (rest : List Char) : Delimited (v.charsOnto true rest) := by
  cases v with
  | nil => exact delimited_cons (c := ')') rfl rest
  | pair id head tail =>
    rw [charsOnto_pair_true]
    exact delimited_cons (c := ' ') rfl _
  | _ => exact delimited_cons (c := ' ') rfl _

/-- **A pair by itself** is printed as a list, unless it is a quote. -/
theorem charsOnto_pair_false (id : Nat) (head tail : Value) :
    (∃ symbol after second, head = .atom symbol (.symbol "quote") ∧ tail = .pair after second .nil ∧
      (pair id head tail).charsOnto false = fun rest => '\'' :: second.charsOnto false rest) ∨
    (pair id head tail).charsOnto false =
      fun rest => '(' :: head.charsOnto false (tail.charsOnto true rest) := by
  by_cases hquote : head.isSymbolNamed "quote" ∧ ∃ after second, tail = .pair after second .nil
  · obtain ⟨hhead, after, second, rfl⟩ := hquote
    obtain ⟨symbol, rfl⟩ : ∃ symbol, head = .atom symbol (.symbol "quote") := by
      unfold isSymbolNamed symbol? at hhead
      split at hhead <;> simp at hhead
      exact ⟨_, by rw [hhead]⟩
    exact .inl ⟨symbol, after, second, rfl, rfl, funext fun rest => charsOnto.eq_3 _ _ _ _ _ _ rfl⟩
  · have hlist : ∀ after second, head.isSymbolNamed "quote" = true →
        tail = .pair after second .nil → False :=
      fun after second hhead htail => hquote ⟨hhead, after, second, htail⟩
    exact .inr (funext fun rest => charsOnto.eq_4 _ _ _ _ _ hlist)

/-- **All that is known of a printed value**: its text by itself, its text as the rest of a list,
and, for a pair, the text of its head by itself. -/
structure Printed (v : Value) (x : Datum) : Prop where
  alone : Writes (v.charsOnto false) x
  rest : WritesOn (v.charsOnto true) x
  head : ∀ id first tail, v = .pair id first tail →
    ∃ y, first.datum? = some y ∧ Writes (first.charsOnto false) y

/-- **A value is printed as its tree.** -/
theorem printed {v : Value} (hv : v.Readable) : ∃ x, v.datum? = some x ∧ v.Printed x := by
  induction v with
  | nil =>
    refine ⟨.nil, rfl, ⟨.list [], rfl, fun rest _ => ?_⟩, writesOn_nil, by simp⟩
    simp [charsOnto, ParseTree.tokens, allTokens]
  | atom id value =>
    exact ⟨.atom value none, rfl, Atom.Readable.writes hv, (Atom.Readable.writes hv).afterDot,
      by simp⟩
  | pair id head tail ihhead ihtail =>
    obtain ⟨x, hx, hhead⟩ := ihhead hv.1
    obtain ⟨y, hy, htail⟩ := ihtail hv.2
    refine ⟨.pair x y none, by simp [datum?, hx, hy], ?_, ?_, ?_⟩
    · rcases charsOnto_pair_false id head tail with
        ⟨symbol, after, second, rfl, rfl, hquote⟩ | hlist
      · obtain ⟨z, hz, hsecond⟩ := htail.head after second .nil rfl
        obtain rfl : y = .pair z .nil none := by simpa [datum?, hz] using hy.symm
        obtain rfl : x = .atom (.symbol "quote") none := by simpa [datum?] using hx.symm
        rw [hquote]
        exact hsecond.quote
      · rw [hlist]
        exact htail.rest.list tail.delimited_charsOnto hhead.alone
    · rw [funext (charsOnto_pair_true id head tail)]
      exact htail.rest.item tail.delimited_charsOnto hhead.alone
    · rintro _ _ _ ⟨⟩
      exact ⟨x, hx, hhead.alone⟩
  | procedure | transformer | formMarker | hostMarker => exact hv.elim

end Value

/-! ## 7. Printing, then reading -/

/-- **The text of a readable value is read as one form, and that form is the value's tree**: the
same kinds and contents, down to the raw flags.  So are the objects that the form is made into. -/
theorem readAll_text (file : Nat) {v : Value} (hv : v.Readable) :
    ∃ form, readAll file v.text = .ok [form] ∧ v.datum? = some form.bare ∧
      ∀ s : Store, (s.load form).1.datum? = v.datum? := by
  obtain ⟨x, hx, hprinted⟩ := Value.printed hv
  obtain ⟨d, rfl, hd⟩ := hprinted.alone
  have htokens : allTokens [d] = tokens v.text.toList := by
    simpa [allTokens, Value.text, Value.chars] using (hd [] delimited_nil).symm
  obtain ⟨forms, hread, hforms⟩ := readAll_of_derivation file htokens
  obtain ⟨form, rfl, hform⟩ : ∃ form, forms = [form] ∧ form.bare = d.datum := by
    simpa [allData, List.map_eq_singleton_iff] using hforms
  have htree : v.datum? = some form.bare := by rw [hx, hform]
  exact ⟨form, hread, htree, fun s => by rw [load_datum?, htree]⟩

/-- A quote, an escape, a negative integer and a dot. -/
theorem readAll_text_dotted :
    ∃ form, readAll 0 "('b \"c\\\"\" -7 . #t)" = .ok [form] ∧
      form.bare = Datum.listWithTail
        [(Datum.atom (.symbol "b") none).quoted, .atom (.string "c\"" false) none,
          .atom (.integer (-7)) none] (.atom (.boolean true) none) := by
  have hname : ReadableName "b" := ⟨0, "b", _, rfl, _, List.mem_singleton_self _, rfl⟩
  have hquote : ReadableName "quote" := ⟨0, "quote", _, rfl, _, List.mem_singleton_self _, rfl⟩
  obtain ⟨form, hread, htree, -⟩ := readAll_text 0
    (v := .pair 0 (.pair 1 (.atom 2 (.symbol "quote")) (.pair 3 (.atom 4 (.symbol "b")) .nil))
      (.pair 5 (.atom 6 (.string "c\"" false)) (.pair 7 (.atom 8 (.integer (-7)))
        (.atom 9 (.boolean true)))))
    ⟨⟨hquote, hname, trivial⟩, by rintro ⟨⟩, trivial, trivial⟩
  exact ⟨form, hread, (Option.some.inj htree).symm⟩

end Lisp
