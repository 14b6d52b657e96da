/-
# Contexts

A context is a language, a global frame and the names of the files it has loaded.  It evaluates
texts in two ways: a batch (`Context.evaluateText`, `Context.evaluateFile`) is read as a whole
first and stops at its first failure; an interactive line (`Context.replLine`) is evaluated form by
form, failures included, and answers each form with a record.
-/
import Lisp.Evaluator
import Lisp.Files

namespace Lisp

/-- **An interpreter**: its language, its global frame and the files that spans refer to. -/
structure Context where
  language : Language
  root : Nat
  files : List String

/-- **The answer to one form of an interactive line.** -/
structure ReplRecord where
  text : String
  isError : Bool
deriving DecidableEq

/-- **The words for an evaluation without a value.** -/
def Stop.text : Stop → String
  | .failed failure => failure.fault.text
  | .tooDeep => "evaluation nested too deeply"

namespace Context

/-- **How many levels deep evaluation may be nested.** -/
def depthLimit : Nat := 1000000000000

/-- **The scope of the global frame.** -/
def globals (c : Context) : Scope := .ofRoot c.root

/-! ## Making contexts -/

/-- **Binds markers** in a frame, one for each name. -/
def bindMarkers (make : Nat → String → Value) (root : Nat) (s : Store) : List String → Store
  | [] => s
  | name :: names =>
    let (marker, s) := s.allocate (make · name) none
    bindMarkers make root (s.bind root name marker) names

/-- **A context over an existing global frame**, in which every special form and then every host
function is bound to its marker. -/
def ofParts (language : Language) (root : Nat) (s : Store) : Context × Store :=
  let s := bindMarkers .formMarker root s (language.forms.map (·.1))
  let s := bindMarkers .hostMarker root s (language.host.map (·.1))
  (⟨language, root, ["<eval>"]⟩, s)

/-- **A context with the standard language** and a global frame of its own. -/
def standard (s : Store) : Context × Store :=
  let (root, s) := s.newFrame
  ofParts .standard root s

/-- **Adds a host function** and binds its name to a marker. -/
def defineHost (c : Context) (name : String) (f : HostFunction) (s : Store) : Context × Store :=
  ({ c with language := c.language.addFunction name f },
    bindMarkers .hostMarker c.root s [name])

/-- **The name of a file** that a span refers to. -/
def fileName (c : Context) (file : Nat) : String :=
  (c.files[file]?).getD "<unknown>"

/-! ## Evaluating -/

/-- **Evaluates a value** in the global scope. -/
def evaluateValue (c : Context) (v : Value) : Effect Value :=
  evaluate c.language depthLimit v c.globals

/-- **Applies a value to arguments** from the global scope. -/
def applyValue (c : Context) (callable args : Value) : Effect Value :=
  apply c.language depthLimit callable args c.globals

/-- **Evaluates the forms of a body** in the global scope. -/
def evaluateSequence (c : Context) (body : Value) : Effect Value :=
  (belowAt c.language depthLimit).sequence body c.globals

/-- **Evaluates data in order** and gives the value of the last, `value` if there is none. -/
def evaluateData (c : Context) (value : Value) : List Datum → Effect Value
  | [] => pure value
  | datum :: rest => do
    let form ← modifyGet (·.load datum)
    let value ← c.evaluateValue form
    c.evaluateData value rest

/-- **Evaluates the text of a file**, which is read as a whole first. -/
def evaluateSource (c : Context) (file : Nat) (text : String) : Effect Value :=
  match readAll file text with
  | .error e => Effect.fail (.unreadable e)
  | .ok data => c.evaluateData .nil data

/-- **Evaluates a text that belongs to no file.** -/
def evaluateText (c : Context) (text : String) : Effect Value :=
  c.evaluateSource 0 text

/-- **Evaluates a text for what it does**; the value of its last form is left out. -/
def loadText (c : Context) (text : String) : Effect Unit := do
  let _ ← c.evaluateText text

/-- **Evaluates a file**, given what reading it gave.  A file that was read is remembered, whatever
its evaluation comes to. -/
def evaluateFile (c : Context) (name : String) (contents : Except FileFault String) :
    Context × Effect Value :=
  match contents with
  | .error fault => (c, Effect.fail (.fileUnreadable name fault.message))
  | .ok text =>
    let loaded : Context := { c with files := c.files ++ [name] }
    (loaded, do
      Effect.record (.loading name)
      loaded.evaluateSource c.files.length text)

/-- **Evaluates one form of an interactive line** and says what it came to. -/
def replForm (c : Context) (s : Store) (datum : Datum) : ReplRecord × Store :=
  let (form, s) := s.load datum
  match c.evaluateValue form s with
  | .ok value s => (⟨value.text, false⟩, s)
  | .error stop s => (⟨stop.text, true⟩, s)

/-- **Evaluates the forms of an interactive line.** -/
def replForms (c : Context) (s : Store) : List Datum → List ReplRecord × Store
  | [] => ([], s)
  | datum :: rest =>
    let (record, s) := c.replForm s datum
    let (records, s) := c.replForms s rest
    (record :: records, s)

/-- **Evaluates an interactive line**: one record for each form, and one for the syntax error that
ends it, if any. -/
def replLine (c : Context) (line : String) (s : Store) : List ReplRecord × Store :=
  let contents := Contents.ofChars 0 line.toList
  let (records, s) := c.replForms s contents.data
  match contents.error with
  | none => (records, s)
  | some e => (records ++ [⟨(Fault.unreadable e).text, true⟩], s)

end Context

end Lisp
