/-!
# Powers of two and ten

The scales of binary and decimal digits.
-/

set_option autoImplicit false

namespace Kerf

def twoTo (n : Nat) : Nat := Nat.pow 2 n

def tenTo (n : Nat) : Nat := Nat.pow 10 n

end Kerf
