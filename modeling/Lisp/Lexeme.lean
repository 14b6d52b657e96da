/-
# Lexemes

A text is cut into lexemes by a machine that takes one character at a time (`Scanner.step`) and is
told where the text ends (`Scanner.finish`).  Scanning is a left fold, so scanning `a ++ b` is
scanning `b` from where scanning `a` stopped (`Scanner.scan_append`).
-/
import Lisp.Source
import Lisp.Text.Blank

namespace Lisp

/-- **What a lexeme is**, apart from where it stands.  `unterminated` is a string whose closing
delimiter is missing; it can only be the last lexeme. -/
inductive Token where
  | opening
  | closing
  | quote
  | dot
  | atom (text : List Char)
  | string (text : List Char) (raw : Bool)
  | unterminated
deriving DecidableEq

/-- **A token and the stretch of text it was cut from.** -/
structure Lexeme where
  token : Token
  start : Position
  stop : Position
deriving DecidableEq

/-- **A character that ends an atom**: a blank, a parenthesis or the start of a comment. -/
def isDelimiter (c : Char) : Bool :=
  isBlank c || c == '(' || c == ')' || c == ';'

/-- **What a backslash and this character stand for in a string.** -/
def unescape : Char → Char
  | 'n' => '\n'
  | 't' => '\t'
  | 'r' => '\r'
  | c => c

/-- **What the scanner is inside of.**  Characters read so far are kept last first. -/
inductive ScanMode where
  | blank
  | comment
  | atom (start : Position) (read : List Char)
  | string (start : Position) (raw : Bool) (read : List Char)
  | escape (start : Position) (read : List Char)
deriving DecidableEq

/-- **The scanner between two characters**: where it stands, what it is inside of, and the lexemes
it has completed, last first. -/
structure Scanner where
  position : Position
  mode : ScanMode
  lexemes : List Lexeme
deriving DecidableEq

namespace Scanner

/-- **Before the first character.** -/
def initial : Scanner := ⟨.first, .blank, []⟩

/-- **A lone `.` is no atom.** -/
def atomToken (text : List Char) : Token :=
  if text = ['.'] then .dot else .atom text

/-- **Takes a character that stands outside every lexeme**; `lexemes` are the completed ones. -/
def begin (position : Position) (lexemes : List Lexeme) (c : Char) : Scanner :=
  let next := position.advance c
  let single (token : Token) : Scanner := ⟨next, .blank, ⟨token, position, next⟩ :: lexemes⟩
  if isBlank c then ⟨next, .blank, lexemes⟩
  else if c = ';' then ⟨next, .comment, lexemes⟩
  else if c = '(' then single .opening
  else if c = ')' then single .closing
  else if c = '\'' then single .quote
  else if c = '"' then ⟨next, .string position false [], lexemes⟩
  else if c = '`' then ⟨next, .string position true [], lexemes⟩
  else ⟨next, .atom position [c], lexemes⟩

/-- **Takes one character.** -/
def step (s : Scanner) (c : Char) : Scanner :=
  let next := s.position.advance c
  match s.mode with
  | .blank => begin s.position s.lexemes c
  | .comment => if c = '\n' then ⟨next, .blank, s.lexemes⟩ else ⟨next, .comment, s.lexemes⟩
  | .atom start read =>
    if isDelimiter c then
      begin s.position (⟨atomToken read.reverse, start, s.position⟩ :: s.lexemes) c
    else
      ⟨next, .atom start (c :: read), s.lexemes⟩
  | .string start raw read =>
    if c = (if raw then '`' else '"') then
      ⟨next, .blank, ⟨.string read.reverse raw, start, next⟩ :: s.lexemes⟩
    else if c = '\\' && !raw then
      ⟨next, .escape start read, s.lexemes⟩
    else
      ⟨next, .string start raw (c :: read), s.lexemes⟩
  | .escape start read => ⟨next, .string start false (unescape c :: read), s.lexemes⟩

/-- **The lexemes when the text ends here**, last first. -/
def finish (s : Scanner) : List Lexeme :=
  match s.mode with
  | .blank | .comment => s.lexemes
  | .atom start read => ⟨atomToken read.reverse, start, s.position⟩ :: s.lexemes
  | .string start _ _ | .escape start _ => ⟨.unterminated, start, s.position⟩ :: s.lexemes

/-- **Takes the characters of a text in turn.** -/
def scan (s : Scanner) (text : List Char) : Scanner :=
  text.foldl step s

theorem scan_append (s : Scanner) (a b : List Char) : s.scan (a ++ b) = (s.scan a).scan b :=
  List.foldl_append

end Scanner

/-- **The lexemes of a text**, in order. -/
def lexemes (text : List Char) : List Lexeme :=
  (Scanner.initial.scan text).finish.reverse

end Lisp
