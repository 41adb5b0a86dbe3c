/-!
# Blanks

White space at the ends of a text.
-/

set_option autoImplicit false

namespace Kerf.Text

/-- Whether a character is white space: the ASCII blanks and line ends, the next-line control, the
no-break space and the separators of other scripts. -/
def isBlank (c : Char) : Bool :=
  let code := c.toNat
  (9 ≤ code && code ≤ 13) || code == 0x20 || code == 0x85 || code == 0xa0 || code == 0x1680 ||
    (0x2000 ≤ code && code ≤ 0x200a) || code == 0x2028 || code == 0x2029 || code == 0x202f ||
    code == 0x205f || code == 0x3000

def trimEnd (drop : Char → Bool) (text : List Char) : List Char :=
  (text.reverse.dropWhile drop).reverse

def trimBlanks (text : List Char) : List Char := trimEnd isBlank (text.dropWhile isBlank)

def isAllBlank (text : List Char) : Bool := text.all isBlank

def trimmed (text : String) : String := String.ofList (trimBlanks text.toList)

end Kerf.Text
