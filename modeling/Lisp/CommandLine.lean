/-
# The command line

What the program does with its arguments: load files, evaluate expressions and print their values,
then read lines interactively if asked to or if there is nothing else to do.  Each step yields the
text it writes, so that the outer layer only has to write it.
-/
import Lisp.Report

namespace Lisp

namespace CommandLine

/-- **What the program was asked to do.** -/
structure Options where
  expressions : List String
  interactive : Bool
  files : List String
deriving DecidableEq

/-- **The outcome of looking at the arguments.** -/
inductive Request where
  | help
  | refused (message : String)
  | run (options : Options)
deriving DecidableEq

/-- **The help text.** -/
def help : String :=
  "Usage: schemer [options] [files...]\n" ++
  "Options:\n" ++
  "  -h, --help: Print this help message\n" ++
  "  -e, --eval <expr>: Evaluate <expr> and print its value; may be repeated\n" ++
  "  -i, --interactive: Read lines from stdin after loading files\n" ++
  "\n" ++
  "Set RUST_LOG=debug or RUST_LOG=trace to see evaluation logs.\n"

/-- **Removes an option that takes a value, every time it occurs**, and collects the values.  The
value is the argument that follows, whatever it looks like. -/
def takeValues (key : String) : List String → Except String (List String × List String)
  | [] => .ok ([], [])
  | arg :: rest =>
    if arg = key then
      match rest with
      | [] => .error ("the '" ++ key ++ "' option doesn't have an associated value")
      | value :: rest => do
        let (values, others) ← takeValues key rest
        pure (value :: values, others)
    else do
      let (values, others) ← takeValues key rest
      pure (values, arg :: others)

/-- **Removes the first occurrence of a flag**, looked for by its short name first. -/
def takeFlag (short long : String) (args : List String) : Bool × List String :=
  if args.contains short then (true, args.erase short)
  else if args.contains long then (true, args.erase long)
  else (false, args)

/-- **What the arguments ask for.**  Values given by the short option come before those given by
the long one. -/
def request (args : List String) : Request :=
  if args.contains "-h" || args.contains "--help" then .help else
  match (do
    let (short, args) ← takeValues "-e" args
    let (long, args) ← takeValues "--eval" args
    pure (short ++ long, args) : Except String (List String × List String)) with
  | .error message => .refused message
  | .ok (expressions, args) =>
    let (interactive, files) := takeFlag "-i" "--interactive" args
    match files.find? (·.startsWith "-") with
    | some option => .refused ("unknown option: " ++ option)
    | none => .run ⟨expressions, interactive || files.isEmpty && expressions.isEmpty, files⟩

/-- **The program between two steps**: its context and store. -/
structure Session where
  context : Context
  store : Store

namespace Session

/-- **A fresh session.** -/
def initial : Session :=
  let (context, store) := Context.standard .empty
  ⟨context, store⟩

/-- **Takes the printed text out of the store.** -/
def takeOutput (s : Session) : String × Session :=
  (s.store.output, { s with store := { s.store with output := "", journal := [] } })

/-- **Loads a file**, given what reading it gave.  Yields what it printed, and the report of the
failure if it failed. -/
def load (s : Session) (name : String) (contents : Except FileFault String) :
    String × Option String × Session :=
  let (context, effect) := s.context.evaluateFile name contents
  match effect s.store with
  | .ok _ store =>
    let (output, s) := takeOutput ⟨context, store⟩
    (output, none, s)
  | .error stop store =>
    let (output, s) := takeOutput ⟨context, store⟩
    (output, some (stop.report context store), s)

/-- **Evaluates an expression.**  Yields what it printed, with its value on a line at the end, and
the report of the failure if it failed. -/
def eval (s : Session) (expression : String) : String × Option String × Session :=
  match s.context.evaluateText expression s.store with
  | .ok value store =>
    let (output, s) := takeOutput ⟨s.context, store⟩
    (output ++ value.text ++ "\n", none, s)
  | .error stop store =>
    let (output, s) := takeOutput ⟨s.context, store⟩
    (output, some (stop.report s.context store), s)

/-- **Records as they are written**, each on lines of its own. -/
def recordLines (records : List ReplRecord) : String :=
  String.join (records.map (·.text ++ "\n"))

/-- **Evaluates an interactive line.**  Yields what goes to the output, which is what the line
printed and then the values of its forms, and what goes to the errors. -/
def replLine (s : Session) (line : String) : String × String × Session :=
  let (records, store) := s.context.replLine line s.store
  let (output, s) := takeOutput ⟨s.context, store⟩
  let (errors, values) := records.partition (·.isError)
  (output ++ recordLines values, recordLines errors, s)

end Session

/-- **The prompt of the interactive mode.** -/
def prompt : String := "> "

/-- **All that a run wrote and its exit status.** -/
structure Transcript where
  stdout : String
  stderr : String
  status : Nat
deriving DecidableEq

namespace Transcript

/-- **A run that wrote this much and then went on like `rest`.** -/
def after (out err : String) (rest : Transcript) : Transcript :=
  ⟨out ++ rest.stdout, err ++ rest.stderr, rest.status⟩

end Transcript

/-- **The exit status after a failure.** -/
def failureStatus : Nat := 255

/-- **The exit status after arguments that make no sense.** -/
def usageStatus : Nat := 2

/-- **The lines of an input**, each with the newline that ends it.  `line` is what was read of the
current one, last byte first. -/
def inputLines (line : List UInt8) : List UInt8 → List (List UInt8)
  | [] => if line.isEmpty then [] else [line.reverse]
  | byte :: rest =>
    if byte = 10 then (byte :: line).reverse :: inputLines [] rest
    else inputLines (byte :: line) rest

/-- **A line without the newline, or the carriage return and newline, that ends it.** -/
def lineContents (line : List UInt8) : List UInt8 :=
  match line.reverse with
  | 10 :: 13 :: rest => rest.reverse
  | 10 :: rest => rest.reverse
  | _ => line

/-- **Evaluates a line of input**, if it is text. -/
def replInput (s : Session) (line : List UInt8) : Except FileFault (String × String × Session) := do
  let text ← decodeText ⟨(lineContents line).toArray⟩
  pure (s.replLine text)

/-- **The interactive mode** after the first prompt.  A line that is no text ends the program. -/
def repl (s : Session) : List (List UInt8) → Transcript
  | [] => ⟨"\n", "", 0⟩
  | line :: rest =>
    match replInput s line with
    | .error fault => ⟨"", fault.message ++ "\n", failureStatus⟩
    | .ok (out, err, s) => .after (out ++ prompt) err (repl s rest)

/-- **Evaluates the expressions**, then reads lines if asked to. -/
def runExpressions (interactive : Bool) (input : List UInt8) (s : Session) :
    List String → Transcript
  | [] => if interactive then .after prompt "" (repl s (inputLines [] input)) else ⟨"", "", 0⟩
  | expression :: rest =>
    match s.eval expression with
    | (out, some report, _) => ⟨out, report, failureStatus⟩
    | (out, none, s) => .after out "" (runExpressions interactive input s rest)

/-- **Loads the files**, then goes on as the options say. -/
def runFiles (options : Options) (tree : FileTree) (input : List UInt8) (s : Session) :
    List String → Transcript
  | [] => runExpressions options.interactive input s options.expressions
  | file :: rest =>
    match s.load file (tree.readText file) with
    | (out, some report, _) => ⟨out, report, failureStatus⟩
    | (out, none, s) => .after out "" (runFiles options tree input s rest)

/-- **A whole run of the program** with these arguments, files and input. -/
def run (args : List String) (tree : FileTree) (input : List UInt8) : Transcript :=
  match request args with
  | .help => ⟨help, "", 0⟩
  | .refused message => ⟨help, message ++ "\n", usageStatus⟩
  | .run options => runFiles options tree input .initial options.files

end CommandLine

end Lisp
