/-
# What `display` writes

There are two printers.  `Value.plainText` goes over a value; `HostValue.text`, by which `display`
writes, only sees what the host boundary lets through: numbers, booleans and strings as they are,
everything else as a text that was printed before.  The two agree (`HostValue.text_ofValue`) on all
values but one.  The empty list is passed to the host as no value at all, and no value is written as
nothing, while the printer of values writes `()`.

So a call of `display` writes the texts of its arguments one after the other, with every empty list
among them left out (`callHost_display`).  Inside of other lists it is printed as it always is.
-/
import Lisp.Evaluator
import Lisp.Proofs.Printing

namespace Lisp

variable {l : Language} {name : String}

namespace HostValue

/-- **Both printers agree**, but for the empty list. -/
theorem text_ofValue {v : Value} (h : v.isNil = false) : (ofValue v).text = v.plainText := by
  cases v with
  | nil => cases h
  | atom id value =>
    cases value with
    | string | symbol => rfl
    | boolean b => exact (Value.text_atom id (.boolean b)).symm
    | integer n => exact (Value.text_atom id (.integer n)).symm
    | float x => exact (Value.text_atom id (.float x)).symm
  | pair | procedure | transformer | formMarker | hostMarker => rfl

end HostValue

namespace Value

/-- **What `display` writes of a row of values.** -/
def displayed (values : List Value) : String :=
  String.join ((values.filter fun v => !v.isNil).map plainText)

/-- **The texts of the host values**, one after the other. -/
theorem join_text_ofValue (values : List Value) :
    String.join ((values.map HostValue.ofValue).map HostValue.text) = displayed values := by
  induction values with
  | nil => rfl
  | cons v values ih =>
    rw [List.map_cons, List.map_cons, String.join_cons, ih]
    cases hv : v.isNil with
    | true =>
      obtain rfl : v = .nil := by cases v <;> first | rfl | cases hv
      rw [displayed, displayed, List.filter_cons_of_neg (by simp [isNil])]
      exact String.empty_append
    | false =>
      rw [HostValue.text_ofValue hv, displayed, displayed, List.filter_cons_of_pos (by simp [hv]),
        List.map_cons, String.join_cons]

end Value

/-- **`display` writes what the language prints**, for arguments of every kind: the texts of all of
them but the empty lists, strings without quotes, and nothing else.  It gives the empty list and,
besides the report of the call, changes nothing. -/
theorem callHost_display (hname : l.function? name = some HostFunction.display) (args : Value)
    (s : Store) :
    callHost l name args s = .ok .nil
      ((s.record (.hostCalled name (args.elements.map HostValue.ofValue))).print
        (Value.displayed args.elements)) := by
  rw [← Value.join_text_ofValue]
  simp only [callHost, hname]
  rfl

/-- An empty list, a string and a list that holds both. -/
theorem callHost_display_mixed :
    Language.standard.function? "display" = some HostFunction.display ∧
      ∃ s, callHost .standard "display"
        (.pair 0 .nil (.pair 1 (.atom 2 (.string "a" false))
          (.pair 3 (.pair 4 (.atom 5 (.string "a" false)) (.pair 6 .nil .nil)) .nil))) .empty =
            .ok .nil s ∧ s.output = "a(\"a\" ())" :=
  ⟨rfl, _, callHost_display rfl _ _, by decide +kernel⟩

/-- Of the empty list `display` writes nothing, and not its text. -/
theorem display_omits_nil :
    ∃ s, callHost .standard "display" (.pair 0 .nil .nil) .empty = .ok .nil s ∧
      s.output ≠ String.join ((Value.pair 0 .nil .nil).elements.map Value.plainText) :=
  ⟨_, rfl, by decide +kernel⟩

end Lisp
