/-
# The store

All that evaluation changes: the table of objects, which says where each one was written, the
frames with their bindings, what was printed, and the journal.  Objects and frames are numbered in
the order they are made, so a new one never has a number in use.
-/
import Lisp.Reader
import Lisp.Event

namespace Lisp

/-! ## Bindings -/

/-- **The bindings of one frame.**  No name occurs twice. -/
abbrev Bindings := List (String × Value)

namespace Bindings

/-- **The value of a name**, if the frame binds it. -/
def find? (bindings : Bindings) (name : String) : Option Value :=
  bindings.lookup name

/-- **Binds a name**, in place of an earlier binding of it. -/
def insert (name : String) (value : Value) : Bindings → Bindings
  | [] => [(name, value)]
  | (other, old) :: rest =>
    if other = name then (name, value) :: rest else (other, old) :: insert name value rest

end Bindings

/-! ## The store -/

/-- **The state of all programs that run side by side.** -/
structure Store where
  /-- Where each object was written. -/
  spans : Array (Option Span)
  frames : Array Bindings
  output : String
  /-- What was reported, latest first. -/
  journal : List Event

namespace Store

/-- **Nothing made yet.** -/
def empty : Store := ⟨#[], #[], "", []⟩

/-- **Reports an event.** -/
def record (s : Store) (e : Event) : Store :=
  { s with journal := e :: s.journal }

/-- **Prints a text.** -/
def print (s : Store) (text : String) : Store :=
  { s with output := s.output ++ text }

/-! ### Objects -/

/-- **Makes a new object**, from its number, written at `span`. -/
def allocate (s : Store) (make : Nat → Value) (span : Option Span) : Value × Store :=
  (make s.spans.size, { s with spans := s.spans.push span })

/-- **Makes a new atom.** -/
def newAtom (s : Store) (value : Atom) : Value × Store :=
  s.allocate (.atom · value) none

/-- **Makes a new pair.** -/
def newPair (s : Store) (head tail : Value) : Value × Store :=
  s.allocate (.pair · head tail) none

/-- **Makes new pairs that hold `items`, continued by `tail`.** -/
def newListWithTail (s : Store) : List Value → Value → Value × Store
  | [], tail => (tail, s)
  | item :: items, tail =>
    let (rest, s) := s.newListWithTail items tail
    s.newPair item rest

/-- **Makes a new proper list.** -/
def newList (s : Store) (items : List Value) : Value × Store :=
  s.newListWithTail items .nil

/-- **Makes the list `(quote value)`.** -/
def newQuote (s : Store) (value : Value) : Value × Store :=
  let (quote, s) := s.newAtom (.symbol "quote")
  s.newList [quote, value]

/-- **Makes a list of quotes**, one for each value. -/
def newQuotes (s : Store) : List Value → List Value × Store
  | [] => ([], s)
  | value :: values =>
    let (quoted, s) := s.newQuote value
    let (rest, s) := s.newQuotes values
    (quoted :: rest, s)

/-- **Where an object was written.** -/
def span? (s : Store) (v : Value) : Option Span :=
  match v.id? with
  | none => none
  | some id => (s.spans[id]?).getD none

/-- **Says that an object was written at `span`**, or nowhere.  The empty list has no place. -/
def place (s : Store) (v : Value) (span : Option Span) : Store :=
  match v.id? with
  | none => s
  | some id => { s with spans := s.spans.setIfInBounds id span }

/-- **Makes the objects of a datum.** -/
def load (s : Store) : Datum → Value × Store
  | .nil => (.nil, s)
  | .atom value span => s.allocate (.atom · value) span
  | .pair head tail span =>
    let (head, s) := s.load head
    let (tail, s) := s.load tail
    s.allocate (.pair · head tail) span

/-- **Makes the objects of a row of data.** -/
def loadAll (s : Store) : List Datum → List Value × Store
  | [] => ([], s)
  | datum :: data =>
    let (value, s) := s.load datum
    let (values, s) := s.loadAll data
    (value :: values, s)

/-- **The value that a host value becomes.**  The text of a datum is read back; unless it is a
single datum, and no symbol, the text itself is the value. -/
def ofHost (s : Store) : HostValue → Value × Store
  | .undefined => (.nil, s)
  | .boolean b => s.newAtom (.boolean b)
  | .integer n => s.newAtom (.integer n)
  | .float x => s.newAtom (.float x)
  | .string text => s.newAtom (.string text false)
  | .datum text =>
    match readAll 0 text with
    | .ok [datum] => if datum.isSymbol then s.newAtom (.string text false) else s.load datum
    | _ => s.newAtom (.string text false)

/-! ### Frames -/

/-- **The bindings of a frame.**  A frame that was never made has none. -/
def bindings (s : Store) (frame : Nat) : Bindings :=
  (s.frames[frame]?).getD []

/-- **Makes a new empty frame.** -/
def newFrame (s : Store) : Nat × Store :=
  (s.frames.size, { s with frames := s.frames.push [] })

/-- **Makes a new global frame.** -/
def newRoot (s : Store) : Scope × Store :=
  let (frame, s) := s.newFrame
  (.ofRoot frame, s)

/-- **Makes a new frame inside a scope.** -/
def enter (s : Store) (scope : Scope) : Scope × Store :=
  let (frame, s) := s.newFrame
  (scope.enter frame, s)

/-- **Binds a name in a frame.** -/
def bind (s : Store) (frame : Nat) (name : String) (value : Value) : Store :=
  { s with frames := s.frames.modify frame (·.insert name value) }

/-- **Whether a frame binds a name.** -/
def binds (s : Store) (frame : Nat) (name : String) : Bool :=
  ((s.bindings frame).find? name).isSome

/-- **The value of a name in the first of several frames that binds it.** -/
def findIn? (s : Store) (frames : List Nat) (name : String) : Option Value :=
  frames.findSome? fun frame => (s.bindings frame).find? name

/-- **The value of a name in a scope.** -/
def lookup? (s : Store) (scope : Scope) (name : String) : Option Value :=
  s.findIn? scope.frames name

/-- **The value of a name in a scope**, its global frame left out. -/
def lookupLocal? (s : Store) (scope : Scope) (name : String) : Option Value :=
  s.findIn? scope.locals name

/-- **The nearest frame of a scope that binds a name.** -/
def holder? (s : Store) (scope : Scope) (name : String) : Option Nat :=
  scope.frames.find? fun frame => s.binds frame name

/-- **Assigns to a name where it is bound.**  A name that is bound nowhere becomes a global one,
with a warning. -/
def assign (s : Store) (scope : Scope) (name : String) (value : Value) : Store :=
  match s.holder? scope name with
  | some frame => s.bind frame name value
  | none => (s.record (.implicitGlobal name)).bind scope.root name value

end Store

end Lisp
