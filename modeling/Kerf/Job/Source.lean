/-!
# Job sources

Jobs are written with comments behind semicolons, keywords behind colons and names with hyphens.
Before a job is read, comments get slashes, keywords become marked strings and the hyphens of names
become underscores. Literals are left alone, and so are line ends: a place in the result is on the
same line as in the source.

The scan goes character by character. What it has to remember is its `Scan`, which at the start of
every line outside literals is the same as at the start of the source.
-/

set_option autoImplicit false

namespace Kerf.Job

def isLetter (c : Char) : Bool := ('a' ≤ c && c ≤ 'z') || ('A' ≤ c && c ≤ 'Z')

/-- Whether a character can stand in a keyword. -/
def isKeywordChar (c : Char) : Bool := isLetter c || ('0' ≤ c && c ≤ '9') || c == '-' || c == '_'

/-- Whether a character can stand before the hyphen of a name. -/
def isNameChar (c : Char) : Bool := isLetter c || ('0' ≤ c && c ≤ '9') || c == '_'

/-- What marks a string as a keyword. -/
def keywordMark : String := "__kw_"

/-- What the scan of a source is in the middle of. -/
inductive Scan where
  /-- Code, directly after a character of a name or not. -/
  | code (afterName : Bool)
  /-- A colon that starts a keyword if a letter follows. -/
  | colon
  /-- A hyphen that belongs to a name if a letter follows. -/
  | hyphen
  | keyword
  /-- The semicolons at the start of a comment. -/
  | semicolons
  | comment
  | text
  /-- A backslash within a string. -/
  | escape
  /-- A literal between backquotes. -/
  | raw
  deriving DecidableEq, Repr

namespace Scan

def stepCode (afterName : Bool) (c : Char) : Scan × List Char :=
  if c = '"' then (.text, ['"'])
  else if c = '\x60' then (.raw, ['\x60'])
  else if c = ';' then (.semicolons, ['/', '/'])
  else if c = ':' then (.colon, [])
  else if c = '-' && afterName then (.hyphen, [])
  else (.code (isNameChar c), [c])

/-- Puts characters in front of what a step writes. -/
def writing (out : List Char) (step : Scan × List Char) : Scan × List Char :=
  (step.1, out ++ step.2)

/-- What one character leads to, and what is written for it. -/
def step (scan : Scan) (c : Char) : Scan × List Char :=
  match scan with
  | .code afterName => stepCode afterName c
  | .colon =>
      if isLetter c then (.keyword, '"' :: keywordMark.toList ++ [c])
      else writing [':'] (stepCode false c)
  | .hyphen =>
      if isLetter c then (.code true, ['_', c]) else writing ['-'] (stepCode false c)
  | .keyword =>
      if isKeywordChar c then (.keyword, [c]) else writing ['"'] (stepCode false c)
  | .semicolons =>
      if c = ';' then (.semicolons, [])
      else if c = '\n' then (.code false, ['\n'])
      else (.comment, [c])
  | .comment => if c = '\n' then (.code false, ['\n']) else (.comment, [c])
  | .text =>
      if c = '\\' then (.escape, ['\\'])
      else if c = '"' then (.code false, ['"'])
      else (.text, [c])
  | .escape => (.text, [c])
  | .raw => if c = '\x60' then (.code false, ['\x60']) else (.raw, [c])

/-- What is still to be written at the end of the source. -/
def rest : Scan → List Char
  | .colon => [':']
  | .hyphen => ['-']
  | .keyword => ['"']
  | _ => []

def inLiteral : Scan → Bool
  | .text | .escape | .raw => true
  | _ => false

def run (scan : Scan) : List Char → List Char
  | [] => scan.rest
  | c :: source =>
      let (next, out) := scan.step c
      out ++ run next source

end Scan

def readable (source : List Char) : List Char := Scan.run (.code false) source

end Kerf.Job
