import Kerf.Text.Printable

/-!
# Quoted text

A text between double quotes. A quote and a backslash get a backslash, control characters their
letter or code, and every other character that is not printable its code.
-/

set_option autoImplicit false

namespace Kerf.Text

/-- A code in hexadecimal with leading zeros to a width. -/
def hexText (width code : Nat) : List Char :=
  let text := Nat.toDigits 16 code
  List.replicate (width - text.length) '0' ++ text

/-- A character as an escape: its letter or its code. -/
def escapedChar (c : Char) : List Char :=
  match c.toNat with
  | 7 => ['\\', 'a']
  | 8 => ['\\', 'b']
  | 9 => ['\\', 't']
  | 10 => ['\\', 'n']
  | 11 => ['\\', 'v']
  | 12 => ['\\', 'f']
  | 13 => ['\\', 'r']
  | code =>
      if code < 0x80 then '\\' :: 'x' :: hexText 2 code
      else if code < 0x10000 then '\\' :: 'u' :: hexText 4 code
      else '\\' :: 'U' :: hexText 8 code

/-- How one character is written between quotes of a kind. -/
def charBetween (quote c : Char) : List Char :=
  if c == quote || c == '\\' then ['\\', c]
  else if isPrintable c then [c]
  else escapedChar c

def quotedChar (c : Char) : List Char := charBetween '"' c

def quoted (text : String) : String :=
  String.ofList ('"' :: (text.toList.flatMap quotedChar ++ ['"']))

end Kerf.Text
