/-!
# Timestamps

A scalar that looks like a date, or like a date with a time of day, is a timestamp. Only whether it
is one matters; as text it stands for itself.
-/

set_option autoImplicit false

namespace Kerf.Yaml.Timestamp

/-- Takes one or two digits. -/
def takeNumber : List Char → Option (Nat × List Char)
  | a :: rest =>
      if a.isDigit then
        match rest with
        | b :: rest =>
            if b.isDigit then some (10 * (a.toNat - 48) + (b.toNat - 48), rest)
            else some (a.toNat - 48, b :: rest)
        | [] => some (a.toNat - 48, [])
      else none
  | [] => none

def takeWithin (low high : Nat) (text : List Char) : Option (Nat × List Char) :=
  (takeNumber text).filter fun (number, _) => low ≤ number && number ≤ high

def takeChar (c : Char) : List Char → Option (List Char)
  | first :: rest => if first == c then some rest else none
  | [] => none

def daysIn (year month : Nat) : Nat :=
  if month = 2 then
    if year % 4 = 0 && (year % 100 ≠ 0 || year % 400 = 0) then 29 else 28
  else if month = 4 || month = 6 || month = 9 || month = 11 then 30
  else 31

def takeDate (text : List Char) : Option (List Char) := do
  let run := text.takeWhile Char.isDigit
  if run.length ≠ 4 then none
  let year := run.foldl (fun value c => 10 * value + (c.toNat - 48)) 0
  let text ← takeChar '-' (text.drop 4)
  let (month, text) ← takeWithin 1 12 text
  let text ← takeChar '-' text
  let (_, text) ← takeWithin 1 (daysIn year month) text
  return text

def takeFraction (text : List Char) : List Char :=
  match text with
  | mark :: c :: rest =>
      if (mark == '.' || mark == ',') && c.isDigit then rest.dropWhile Char.isDigit else text
  | _ => text

/-- Takes a time of day such as `15:4:5.25`. -/
def takeTime (text : List Char) : Option (List Char) := do
  let (_, text) ← takeWithin 0 23 text
  let text ← takeChar ':' text
  let (_, text) ← takeWithin 0 59 text
  let text ← takeChar ':' text
  let (_, text) ← takeWithin 0 59 text
  return takeFraction text

/-- Whether a text is a time zone: `Z`, or a sign with hours and minutes. -/
def isZone : List Char → Bool
  | ['Z'] => true
  | [sign, a, b, ':', c, d] =>
      (sign == '+' || sign == '-') && [a, b, c, d].all Char.isDigit &&
        10 * (a.toNat - 48) + (b.toNat - 48) ≤ 24 && 10 * (c.toNat - 48) + (d.toNat - 48) ≤ 60
  | _ => false

def isTimestamp (text : List Char) : Bool :=
  match takeDate text with
  | none => false
  | some [] => true
  | some (mark :: rest) =>
      if mark == 'T' || mark == 't' then (takeTime rest).any isZone
      else if mark == ' ' then (takeTime (rest.dropWhile (· == ' '))).any (·.isEmpty)
      else false

end Kerf.Yaml.Timestamp
