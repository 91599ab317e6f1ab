/-!
# Machine words

Sizes and addresses are natural numbers; a machine word holds those below
2^64. Signed quantities are integers; a long holds those from -2^63 to
2^63 - 1. Arithmetic that may leave the range says so by answering nothing.
-/

set_option autoImplicit false

namespace Freestanding

abbrev wordLimit : Nat := 18446744073709551616

def wordAdd? (a b : Nat) : Option Nat :=
  if a + b < wordLimit then some (a + b) else none

def wordMul? (a b : Nat) : Option Nat :=
  if a * b < wordLimit then some (a * b) else none

abbrev longMin : Int := -9223372036854775808

abbrev longMax : Int := 9223372036854775807

def long? (i : Int) : Option Int :=
  if longMin ≤ i ∧ i ≤ longMax then some i else none

end Freestanding
