import Kerf.Decimal.Numeral
import Kerf.Text.Blank
import Kerf.Text.Search

/-!
# Diagnostics

A message about a job with the line it is about. The line is taken from the text of the message,
if it names one.
-/

set_option autoImplicit false

namespace Kerf.Job

/-- A message about a job. Line zero means that no line is known. -/
structure Diagnostic where
  line : Nat
  message : String
  deriving DecidableEq, Repr

def Diagnostic.text (diagnostic : Diagnostic) : String :=
  if diagnostic.line > 0 then
    "line " ++ toString diagnostic.line ++ ": " ++ diagnostic.message
  else diagnostic.message

def maxLine : Nat := 9223372036854775807

/-- Reads the rest of a message behind a line number: the number, a colon, blanks and the text up
to the end of the line. -/
def afterLine (text : List Char) : Option Diagnostic :=
  let digits := text.takeWhile Char.isDigit
  match digits, text.drop digits.length with
  | _ :: _, ':' :: rest =>
      let rest := rest.dropWhile fun c => [' ', '\t', '\n', '\r', '\x0c'].contains c
      some {
        line := min (Decimal.ofDigits digits) maxLine
        message := String.ofList (Text.trimBlanks (rest.takeWhile (· != '\n'))) }
  | _, _ => none

/-- Splits lower-case words off the front of a text in any case. -/
def dropWords (words text : List Char) : Option (List Char) :=
  if words = (text.take words.length).map Char.toLower then some (text.drop words.length) else none

/-- Finds the first mention of a line, anywhere in a message. -/
def findLine : List Char → Option Diagnostic
  | [] => none
  | c :: rest =>
      match (dropWords "on line ".toList (c :: rest)).bind afterLine with
      | some diagnostic => some diagnostic
      | none => findLine rest

def Diagnostic.ofText (text : String) : Diagnostic :=
  match findLine text.toList with
  | some diagnostic => diagnostic
  | none =>
      match (dropWords "line ".toList text.toList).bind afterLine with
      | some diagnostic => diagnostic
      | none => { line := 0, message := Text.trimmed text }

end Kerf.Job
