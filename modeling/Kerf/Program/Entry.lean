import Kerf.Dialect.Basic
import Kerf.Text.Blank

/-!
# Entries of a program

What a program is made of, before it is text: blocks of foreign code, single lines, comments, and
moves made of words. Printing turns entries into lines and gives numbers to those that count.
-/

set_option autoImplicit false

namespace Kerf.Program

open Kerf.Text

/-- A letter with its value, such as `X` and `12.5`. -/
structure Word where
  letter : String
  value : String
  deriving DecidableEq, Repr

def Word.text (word : Word) : String := word.letter ++ word.value

inductive Entry where
  /-- Foreign code of any number of lines with any line ends. -/
  | block (text : String)
  /-- One line as it stands. -/
  | line (text : String)
  /-- A comment. -/
  | comment (text : String)
  /-- One move, and what follows its words when the speed changes. -/
  | move (words : List Word) (speedChange : String)
  deriving DecidableEq, Repr

/-- Makes every line end a line feed. A carriage return counts with a line feed after it. -/
def unifyLineEnds (kept : List Char) : List Char → List Char
  | '\r' :: '\n' :: rest => unifyLineEnds ('\n' :: kept) rest
  | '\r' :: rest => unifyLineEnds ('\n' :: kept) rest
  | c :: rest => unifyLineEnds (c :: kept) rest
  | [] => kept.reverse

/-- The lines of a block. One line end at its end belongs to its last line. -/
def blockLines (text : List Char) : List (List Char) :=
  let text := unifyLineEnds [] text
  splitAt '\n' (if text.getLast? == some '\n' then text.dropLast else text)

def Entry.lines (dialect : Dialect) : Entry → List (List Char)
  | .block text => blockLines text.toList
  | .line text => [text.toList]
  | .comment text =>
      let body := Dialect.commentBody dialect.commentStart.toList dialect.commentEnd.toList text.toList
      [(dialect.comment (String.ofList body)).toList]
  | .move words speedChange =>
      let texts := words.map Word.text ++ (if speedChange.isEmpty then [] else [speedChange])
      [(" ".intercalate texts).toList]

/-- Whether a line gets a number: not when it is blank, a percent sign or a comment. -/
def isNumbered (dialect : Dialect) (line : List Char) : Bool :=
  let inner := trimBlanks line
  !inner.isEmpty && inner != ['%'] && !startsWith dialect.commentStart.toList inner

/-- Prints one line after a line with some number, and returns the number reached. Blanks at the
end of the line are dropped. -/
def printLine (dialect : Dialect) (number : Int64) (line : List Char) : Int64 × List Char :=
  let line := trimEnd (fun c => c == ' ' || c == '\t') line
  if dialect.numberLines && isNumbered dialect line then
    let number := number + dialect.lineStep
    (number, 'N' :: (toString number.toInt).toList ++ ' ' :: line)
  else (number, line)

/-- Prints lines one after another, each with a line feed, after a line with some number. -/
def printLines (dialect : Dialect) (number : Int64) (lines : List (List Char)) :
    Int64 × List String :=
  lines.foldl
    (fun (number, printed) line =>
      let (number, text) := printLine dialect number line
      (number, String.ofList text :: printed))
    (number, [])

/-- Prints entries after a line with some number. -/
def print (dialect : Dialect) (number : Int64) (entries : List Entry) : Int64 × String :=
  let (number, printed) := printLines dialect number (entries.flatMap (Entry.lines dialect))
  (number, String.join (printed.reverse.map (· ++ "\n")))

end Kerf.Program
