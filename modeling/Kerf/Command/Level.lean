import Kerf.Decimal.Numeral
import Kerf.Decimal.Power
import Kerf.Text.Quoted

/-!
# Log levels

A level is one of four names, in any case of letters, with an optional offset behind a sign.
-/

set_option autoImplicit false

namespace Kerf.Command

inductive LevelError where
  | unknownName (text : String)
  /-- The offset is no whole number. -/
  | badOffset (text offset : String)
  /-- The offset does not fit into 64 bits. -/
  | offsetRange (text offset : String)
  deriving DecidableEq, Repr

def LevelError.message : LevelError → String
  | .unknownName text => "slog: level string " ++ Text.quoted text ++ ": unknown name"
  | .badOffset text offset =>
      "slog: level string " ++ Text.quoted text ++ ": strconv.Atoi: parsing " ++
        Text.quoted offset ++ ": invalid syntax"
  | .offsetRange text offset =>
      "slog: level string " ++ Text.quoted text ++ ": strconv.Atoi: parsing " ++
        Text.quoted offset ++ ": value out of range"

def checkLevel (text : String) : Except LevelError Unit :=
  let characters := text.toList
  let name := characters.takeWhile fun c => c != '+' && c != '-'
  let offset := characters.drop name.length
  let digits := offset.drop 1
  let size := Decimal.ofDigits digits
  let limit := if offset.head? = some '-' then twoTo 63 else twoTo 63 - 1
  if !offset.isEmpty && (digits.isEmpty || !digits.all Char.isDigit) then
    .error (.badOffset text (String.ofList offset))
  else if limit < size then .error (.offsetRange text (String.ofList offset))
  else if ["DEBUG", "INFO", "WARN", "ERROR"].contains
      (String.ofList (name.map fun c => if c = 'ı' then 'I' else c.toUpper)) then .ok ()
  else .error (.unknownName text)

end Kerf.Command
