/-!
# Decimal words

Numbers as they are given on a command line: an optional sign and ASCII
digits, nothing around them, within the bounds of a type.
-/

set_option autoImplicit false

namespace Freestanding.Text

def digits? (cs : List Char) : Option Nat :=
  if !cs.isEmpty && cs.all Char.isDigit then
    some (cs.foldl (fun v c => v * 10 + (c.toNat - '0'.toNat)) 0)
  else none

def natural? (bound : Nat) (cs : List Char) : Option Nat :=
  let value := match cs with
    | '+' :: ds => digits? ds
    | ds => digits? ds
  value.filter (· < bound)

def integer? (low high : Int) (cs : List Char) : Option Int :=
  let value : Option Int := match cs with
    | '-' :: ds => (digits? ds).map fun n => -(n : Int)
    | '+' :: ds => (digits? ds).map Int.ofNat
    | ds => (digits? ds).map Int.ofNat
  value.filter fun i => decide (low ≤ i ∧ i ≤ high)

end Freestanding.Text
