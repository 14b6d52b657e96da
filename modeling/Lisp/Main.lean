/-
# The program

Reads arguments, files and input, and writes what the command line yields.
-/
import Lisp.CommandLine

namespace Lisp.Program

open CommandLine (Session)

/-- **The words for a failed operation of the system**, with its error number.  The number may come
negated. -/
def systemFault (code : UInt32) (details : String) : FileFault :=
  .stated (details.capitalize ++ " (os error " ++ toString (min code (0 - code)) ++ ")")

/-- **Why an operation of the system failed.** -/
def faultOfError : IO.Error → FileFault
  | .noFileOrDirectory _ code details | .inappropriateType _ code details
  | .permissionDenied _ code details | .invalidArgument _ code details
  | .resourceExhausted _ code details | .noSuchThing _ code details
  | .otherError code details => systemFault code details
  | error => .stated (toString error)

/-- **The text of a file.** -/
def readText (name : String) : IO (Except FileFault String) := do
  match ← (IO.FS.readBinFile name).toBaseIO with
  | .ok bytes => pure (decodeText bytes)
  | .error error => pure (.error (faultOfError error))

/-- **The next line of the input**, with the newline that ends it; nothing at the end. -/
partial def readLine (input : IO.FS.Stream) (line : ByteArray) : IO ByteArray := do
  let bytes ← input.read 1
  if bytes.isEmpty then pure line
  else
    let line := line ++ bytes
    if bytes.toList = [10] then pure line else readLine input line

/-- **Writes a text at once.** -/
def write (stream : IO.FS.Stream) (text : String) : IO Unit := do
  stream.putStr text
  stream.flush

/-- **The exit status after a failure.** -/
def failure : UInt32 := CommandLine.failureStatus.toUInt32

/-- **Reads and evaluates lines** until the input ends. -/
partial def interact (input output errors : IO.FS.Stream) (s : Session) : IO UInt32 := do
  write output CommandLine.prompt
  let line ← readLine input .empty
  if line.isEmpty then
    write output "\n"
    pure 0
  else
    match CommandLine.replInput s line.toList with
    | .error fault =>
      write errors (fault.message ++ "\n")
      pure failure
    | .ok (out, err, s) =>
      write output out
      write errors err
      interact input output errors s

/-- **Does what the options say.** -/
def run (options : CommandLine.Options) : IO UInt32 := do
  let output ← IO.getStdout
  let errors ← IO.getStderr
  let mut session := Session.initial
  for file in options.files do
    let (out, report, next) := session.load file (← readText file)
    write output out
    session := next
    if let some report := report then
      write errors report
      return failure
  for expression in options.expressions do
    let (out, report, next) := session.eval expression
    write output out
    session := next
    if let some report := report then
      write errors report
      return failure
  if options.interactive then
    interact (← IO.getStdin) output errors session
  else
    pure 0

end Lisp.Program

/-- **The entry point of the program.** -/
def main (args : List String) : IO UInt32 := do
  match Lisp.CommandLine.request args with
  | .help =>
    IO.print Lisp.CommandLine.help
    pure 0
  | .refused message =>
    IO.eprintln message
    IO.print Lisp.CommandLine.help
    pure Lisp.CommandLine.usageStatus.toUInt32
  | .run options => Lisp.Program.run options
