import Freestanding.Bytes.Basic

/-!
# Comparing byte strings

A comparison is the difference of the first bytes that differ, bytes counting
as unsigned and the end of a text as NUL. Its sign orders the two.
-/

set_option autoImplicit false

namespace Freestanding.Bytes

def difference (x y : UInt8) : Int := (x.toNat : Int) - y.toNat

def compareAll : Bytes → Bytes → Int
  | [], [] => 0
  | [], y :: _ => difference 0 y
  | x :: _, [] => difference x 0
  | x :: a, y :: b => if x = y then compareAll a b else difference x y

def compareText (a b : Bytes) : Int := compareAll (text a) (text b)

/-- Compare at most `n` places of two NUL-free strings, reading NUL past an
end and stopping there. -/
def compareFirst : Nat → Bytes → Bytes → Int
  | 0, _, _ => 0
  | n + 1, a, b =>
    let x := a.headD 0
    let y := b.headD 0
    if x ≠ y ∨ x = 0 then difference x y else compareFirst n a.tail b.tail

def compareTextUpTo (n : Nat) (a b : Bytes) : Int := compareFirst n (text a) (text b)

def order (a b : Bytes) : Ordering := compare (compareText a b) 0

/-- Compare the first `n` bytes, fewer when a string is shorter. NULs count
as bytes like others. -/
def compareRaw : Nat → Bytes → Bytes → Int
  | n + 1, x :: a, y :: b => if x = y then compareRaw n a b else difference x y
  | _, _, _ => 0

end Freestanding.Bytes
