/-
# Files

A small directory tree as programs see it from their working directory, and the ways in which
reading a file can fail.
-/

namespace Lisp

/-- **Why a file cannot be read as text.** -/
inductive FileFault where
  | missing
  | noDirectory
  | isDirectory
  | nameTooLong
  | nulInName
  | invalidText
  /-- A reason in the system's own words. -/
  | stated (message : String)
deriving DecidableEq

/-- **The reason in words**, with the system's error number where there is one. -/
def FileFault.message : FileFault → String
  | .missing => "No such file or directory (os error 2)"
  | .noDirectory => "Not a directory (os error 20)"
  | .isDirectory => "Is a directory (os error 21)"
  | .nameTooLong => "File name too long (os error 36)"
  | .nulInName => "file name contained an unexpected NUL byte"
  | .invalidText => "stream did not contain valid UTF-8"
  | .stated message => message

/-- **The text that bytes encode.** -/
def decodeText (bytes : ByteArray) : Except FileFault String :=
  match String.fromUTF8? bytes with
  | some text => .ok text
  | none => .error .invalidText

/-- **What stands under a path.** -/
inductive FileEntry where
  | directory
  | file (bytes : ByteArray)

/-- **A place that a path name leads to.** -/
inductive Place where
  /-- Below the working directory, by the parts of the path, the last part first. -/
  | inside (path : List String)
  /-- A directory that is not below the working directory. -/
  | outside
deriving DecidableEq

namespace Place

/-- **The directory that holds the place.** -/
def parent : Place → Place
  | .inside (_ :: path) => .inside path
  | .inside [] | .outside => .outside

/-- **The place of a name in a directory.**  Outside of the working directory no name is known. -/
def enter (part : String) : Place → Except FileFault Place
  | .inside path => .ok (.inside (part :: path))
  | .outside => .error .missing

end Place

/-- **The files below a working directory**, and directories that may be empty, by the parts of
their paths, the last part first. -/
structure FileTree where
  entries : List (List String × FileEntry)

namespace FileTree

/-- **The longest path name**, in bytes. -/
def pathLimit : Nat := 4095

/-- **The longest part of a path name**, in bytes. -/
def partLimit : Nat := 255

/-- **What stands at a place.**  The working directory is always there, and so is every directory
that something stands below. -/
def entry? (t : FileTree) : Place → Option FileEntry
  | .outside | .inside [] => some .directory
  | .inside path =>
    (t.entries.lookup path).or
      (if t.entries.any fun (other, _) => path.isSuffixOf other then some .directory else none)

/-- **Follows the parts of a path name** from a place. -/
def follow (t : FileTree) (place : Place) : List String → Except FileFault Place
  | [] => .ok place
  | part :: parts =>
    match t.entry? place with
    | none => .error .missing
    | some (.file _) => .error .noDirectory
    | some .directory =>
      if part.utf8ByteSize > partLimit then .error .nameTooLong
      else if part = "" ∨ part = "." then t.follow place parts
      else if part = ".." then t.follow place.parent parts
      else do
        let next ← place.enter part
        t.follow next parts

/-- **Where a path name starts from.** -/
def start (name : String) : Place :=
  if name.startsWith "/" then .outside else .inside []

/-- **The bytes of the file of that name.** -/
def read (t : FileTree) (name : String) : Except FileFault ByteArray :=
  if name.contains '\x00' then .error .nulInName
  else if name.isEmpty then .error .missing
  else if name.utf8ByteSize > pathLimit then .error .nameTooLong
  else
    match t.follow (start name) (name.splitOn "/") with
    | .error fault => .error fault
    | .ok place =>
      match t.entry? place with
      | none => .error .missing
      | some .directory => .error .isDirectory
      | some (.file bytes) => .ok bytes

/-- **The text of the file of that name.** -/
def readText (t : FileTree) (name : String) : Except FileFault String :=
  t.read name >>= decodeText

/-- **The path that the parts of a name stand for**, from the path before them. -/
def pathOfParts (path : List String) : List String → List String
  | [] => path
  | part :: parts =>
    if part = "" ∨ part = "." then pathOfParts path parts
    else if part = ".." then pathOfParts path.tail parts
    else pathOfParts (part :: path) parts

/-- **Puts a file into the tree**, in place of an earlier one of that name. -/
def write (t : FileTree) (name : String) (bytes : ByteArray) : FileTree :=
  let path := pathOfParts [] (name.splitOn "/")
  ⟨(path, .file bytes) :: t.entries.filter fun (other, _) => other ≠ path⟩

end FileTree

end Lisp
