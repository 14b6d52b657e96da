/-
# A trip through the host boundary

Host functions see lists, symbols and whatever can be called as printed text, and a text that comes
back is read again: if it reads as exactly one form that is no symbol, it is that form, and
otherwise it is a string.  So what a value is after the trip depends on what its text reads as
(`Value.ReturnsAs`).

* A readable list reads as itself (`readAll_text`).
* The text of anything that can be called begins with an atom such as `#<procedure`, which is a
  symbol.  What follows it, be it the parameters of a procedure or the name of a host function, can
  contain anything, but it cannot make the whole text read as one form other than that symbol
  (`isSymbol_of_tokens_atom`).
* A symbol is written as its name.  A name that the reader gave it reads as that symbol
  (`symbolText_of_readableName`), but one that was made elsewhere may look like a number, and such a
  symbol does not come back as a string.
-/
import Lisp.Proofs.Printing

namespace Lisp

open ParseTree (allTokens allData)

/-! ## 1. Texts that begin with an atom -/

/-- **A text that begins with a symbol is that symbol**, if it reads as one form at all. -/
theorem isSymbol_of_tokens_atom {file : Nat} {text name : String} {datum : Datum}
    {rest : List Token} (hread : readAll file text = .ok [datum])
    (htokens : tokens text.toList = .atom name.toList :: rest)
    (hname : Atom.ofChars name.toList = .symbol name) : datum.isSymbol = true := by
  obtain ⟨ds, hds, hdata⟩ := derivation_of_readAll hread
  obtain ⟨d, rfl, hdatum⟩ : ∃ d, ds = [d] ∧ d.datum = datum.bare := by
    simpa [ParseTree.allData_eq_map, List.map_eq_singleton_iff] using hdata
  rw [htokens] at hds
  cases d with
  | atom word =>
    obtain ⟨rfl, -⟩ : word = name.toList ∧ _ := by simpa [allTokens, ParseTree.tokens] using hds
    rw [ParseTree.datum, hname] at hdatum
    cases datum with
    | atom value span =>
      obtain rfl : Atom.symbol name = value := by simpa [Datum.bare] using hdatum
      rfl
    | _ => simp [Datum.bare] at hdatum
  | _ => simp [allTokens, ParseTree.tokens] at hds

/-- **The text reads as one form, which is no symbol.** -/
def ReadsAsOther (text : String) : Prop :=
  ∃ datum, readAll 0 text = .ok [datum] ∧ datum.isSymbol = false

/-- A symbol, and whatever follows it. -/
theorem SymbolText.not_readsAsOther {name text : String} {rest : List Char}
    (hname : SymbolText name) (htext : text.toList = name.toList ++ rest)
    (hrest : Delimited rest) : ¬ ReadsAsOther text := by
  rintro ⟨datum, hread, hother⟩
  have htokens := tokens_atom hname.atomText hrest
  rw [← htext] at htokens
  rw [isSymbol_of_tokens_atom hread htokens hname.denotes] at hother
  cases hother

/-- **The name of a symbol that the reader makes** reads as no other form. -/
theorem ReadableName.not_readsAsOther {name : String} (h : ReadableName name) :
    ¬ ReadsAsOther name :=
  (symbolText_of_readableName h).not_readsAsOther (List.append_nil _).symm delimited_nil

namespace Value

variable {s : Store} {v w : Value}

/-- **The text of what can be called reads as no other form than a symbol**, whatever parameters or
name are in it. -/
theorem not_readsAsOther_text_of_isApplicable (hv : v.isApplicable = true) :
    ¬ ReadsAsOther v.text := by
  -- each of the four texts begins with an atom, and a blank or the end of the text is after it
  cases v with
  | procedure id parameters body scope =>
    have hword : SymbolText "#<procedure" := ⟨.of_all rfl (by decide) (by decide), by decide⟩
    have htext : (procedure id parameters body scope).text.toList =
        "#<procedure".toList ++ (' ' :: parameters.charsOnto false ['>']) := by
      simp [text, chars, charsOnto, beforeAtom, afterAtom]
    exact hword.not_readsAsOther htext (delimited_cons rfl _)
  | transformer id rules scope =>
    have hword : SymbolText "#<syntax-rules>" := ⟨.of_all rfl (by decide) (by decide), by decide⟩
    have htext : (transformer id rules scope).text.toList = "#<syntax-rules>".toList ++ [] := by
      simp [text, chars, charsOnto, beforeAtom, afterAtom]
    exact hword.not_readsAsOther htext delimited_nil
  | formMarker id name =>
    have hword : SymbolText "#<special-form" := ⟨.of_all rfl (by decide) (by decide), by decide⟩
    have htext : (formMarker id name).text.toList =
        "#<special-form".toList ++ (' ' :: (name.toList ++ ['>'])) := by
      simp [text, chars, charsOnto, beforeAtom, afterAtom]
    exact hword.not_readsAsOther htext (delimited_cons rfl _)
  | hostMarker id name =>
    have hword : SymbolText "#<host-function" := ⟨.of_all rfl (by decide) (by decide), by decide⟩
    have htext : (hostMarker id name).text.toList =
        "#<host-function".toList ++ (' ' :: (name.toList ++ ['>'])) := by
      simp [text, chars, charsOnto, beforeAtom, afterAtom]
    exact hword.not_readsAsOther htext (delimited_cons rfl _)
  | _ => cases hv

/-! ## 2. The trip -/

/-- **The value is a string of this text**, written without backticks. -/
def IsPlainString (text : String) (w : Value) : Prop :=
  ∃ id, w = .atom id (.string text false)

/-- **What a value is after the trip** to the host and back. -/
def ReturnsAs (w : Value) : Value → Prop
  | .nil => w = .nil
  | .atom _ (.string text _) => w.IsPlainString text
  | .atom id (.symbol name) =>
    (¬ ReadsAsOther name → w.IsPlainString (atom id (.symbol name)).text) ∧
      ∀ datum, readAll 0 name = .ok [datum] → datum.isSymbol = false → w.datum? = some datum.bare
  | .atom _ value => ∃ id, w = .atom id value
  | .pair id head tail => (pair id head tail).Readable →
    w.isPair = true ∧ ∃ datum, (pair id head tail).datum? = some datum ∧ w.datum? = some datum
  | v => w.IsPlainString v.text

/-- A text that comes back is a string, unless it reads as something else. -/
theorem isPlainString_ofHost {text : String} (h : ¬ ReadsAsOther text) :
    (s.ofHost (.datum text)).1.IsPlainString text := by
  simp only [Store.ofHost]
  split
  · next datum hread =>
    cases hdatum : datum.isSymbol with
    | true => exact ⟨_, rfl⟩
    | false => exact absurd ⟨datum, hread, hdatum⟩ h
  · exact ⟨_, rfl⟩

theorem ofHost_readsAsOther {text : String} {datum : Datum} (hread : readAll 0 text = .ok [datum])
    (hother : datum.isSymbol = false) : s.ofHost (.datum text) = s.load datum := by
  simp [Store.ofHost, hread, hother]

theorem isPair_of_datum? {head tail : Datum} {span : Option Span}
    (h : w.datum? = some (.pair head tail span)) : w.isPair = true := by
  cases w <;> simp_all [datum?, isPair]

/-- **A readable pair returns as a pair of the same tree.** -/
theorem Readable.pair_ofHost {id : Nat} {head tail : Value} (h : (pair id head tail).Readable) :
    (s.ofHost (.datum (pair id head tail).text)).1.isPair = true ∧
      ∃ datum, (pair id head tail).datum? = some datum ∧
        (s.ofHost (.datum (pair id head tail).text)).1.datum? = some datum := by
  obtain ⟨form, hread, htree, hload⟩ := readAll_text 0 h
  obtain ⟨first, rest, hform⟩ : ∃ first rest, form.bare = .pair first rest none := by
    simp only [datum?] at htree
    split at htree
    · exact ⟨_, _, (Option.some.inj htree).symm⟩
    · cases htree
  have hother : form.isSymbol = false := by
    cases form <;> simp_all [Datum.bare, Datum.isSymbol]
  rw [ofHost_readsAsOther hread hother]
  have htree' := (hload s).trans htree
  exact ⟨isPair_of_datum? (htree'.trans (congrArg some hform)), _, htree, htree'⟩

end Value

/-- **What a trip through the host boundary preserves.**  The empty list, booleans, integers, floats
and strings return as they were, strings without backticks; what can be called returns as the string
of its text; a readable pair returns as a pair of the same tree.  A symbol returns as the string of
its name, unless that reads as one form which is no symbol; then it returns as that form.  No symbol
that the reader makes has such a name. -/
theorem returnsAs_ofHost :
    (∀ (s : Store) (v : Value), (s.ofHost (.ofValue v)).1.ReturnsAs v) ∧
      ∀ name, ReadableName name → ¬ ReadsAsOther name := by
  refine ⟨fun s v => ?_, fun name => ReadableName.not_readsAsOther⟩
  cases v with
  | nil => rfl
  | atom id value =>
    cases value with
    | boolean | integer | float | string => exact ⟨_, rfl⟩
    | symbol name =>
      have htext : (Value.atom id (.symbol name)).text = name := by
        rw [Value.text_atom, Atom.chars, String.ofList_toList]
      simp only [HostValue.ofValue, Value.ReturnsAs, htext]
      refine ⟨Value.isPlainString_ofHost, fun datum hread hother => ?_⟩
      rw [Value.ofHost_readsAsOther hread hother, load_datum?]
  | pair id head tail => exact Value.Readable.pair_ofHost
  | procedure | transformer | formMarker | hostMarker =>
    exact Value.isPlainString_ofHost (Value.not_readsAsOther_text_of_isApplicable rfl)

/-- A symbol made with the name `42` returns as the integer, and not as a string. -/
theorem symbol_returns_as_integer :
    (Store.empty.ofHost (.ofValue (.atom 0 (.symbol "42")))).1 = .atom 0 (.integer 42) ∧
      ¬ (Store.empty.ofHost (.ofValue (.atom 0 (.symbol "42")))).1.IsPlainString
        (Value.atom 0 (.symbol "42")).text := by
  have hreturned : (Store.empty.ofHost (.ofValue (.atom 0 (.symbol "42")))).1 =
      .atom 0 (.integer 42) := by decide +kernel
  refine ⟨hreturned, ?_⟩
  rintro ⟨id, hstring⟩
  rw [hreturned] at hstring
  cases hstring

end Lisp
