/-!
# Text from octets

Octets are read as UTF-8. One that does not belong to a character is replaced on its own.
-/

set_option autoImplicit false

namespace Kerf.Text

/-- The character that stands for an octet outside of any character. -/
def replacement : Char := '\ufffd'

/-- Whether an octet continues a character, within bounds. -/
def continues (low high : Nat) (octet : UInt8) : Bool :=
  low ≤ octet.toNat && octet.toNat ≤ high

/-- The character at the start of octets, and how many it takes. -/
def leadingChar (first : UInt8) (rest : List UInt8) : Char × Nat :=
  let a := first.toNat
  let tail (octet : UInt8) := octet.toNat % 64
  if a < 0x80 then (Char.ofNat a, 1)
  else if 0xc2 ≤ a && a ≤ 0xdf then
    match rest with
    | b :: _ =>
        if continues 0x80 0xbf b then (Char.ofNat (a % 32 * 64 + tail b), 2) else (replacement, 1)
    | _ => (replacement, 1)
  else if 0xe0 ≤ a && a ≤ 0xef then
    match rest with
    | b :: c :: _ =>
        let low := if a = 0xe0 then 0xa0 else 0x80
        let high := if a = 0xed then 0x9f else 0xbf
        if continues low high b && continues 0x80 0xbf c then
          (Char.ofNat ((a % 16 * 64 + tail b) * 64 + tail c), 3)
        else (replacement, 1)
    | _ => (replacement, 1)
  else if 0xf0 ≤ a && a ≤ 0xf4 then
    match rest with
    | b :: c :: d :: _ =>
        let low := if a = 0xf0 then 0x90 else 0x80
        let high := if a = 0xf4 then 0x8f else 0xbf
        if continues low high b && continues 0x80 0xbf c && continues 0x80 0xbf d then
          (Char.ofNat (((a % 8 * 64 + tail b) * 64 + tail c) * 64 + tail d), 4)
        else (replacement, 1)
    | _ => (replacement, 1)
  else (replacement, 1)

def charsOfOctets : Nat → List UInt8 → List Char
  | _, [] => []
  | 0, _ => []
  | count + 1, first :: rest =>
      let (c, taken) := leadingChar first rest
      c :: charsOfOctets count (rest.drop (taken - 1))

def ofOctets (octets : List UInt8) : String :=
  String.ofList (charsOfOctets octets.length octets)

def takeOctets (text : String) (count : Nat) : String :=
  ofOctets (text.toUTF8.toList.take count)

end Kerf.Text
