/-!
# Doubles as exact numbers

A finite double is a sign and a natural number times a power of two. The
exact views here are what printing and remainder work on; the arithmetic of
doubles itself rounds and is that of the machine.
-/

set_option autoImplicit false

namespace Freestanding.Binary64

def infinity : Float := 1.0 / 0.0

def nan : Float := 0.0 / 0.0

def isNegative (x : Float) : Bool := x.toBits.toNat / 9223372036854775808 == 1

def exponentField (x : Float) : Nat := x.toBits.toNat / 4503599627370496 % 2048

def fractionField (x : Float) : Nat := x.toBits.toNat % 4503599627370496

/-- The natural number whose product with `2 ^ exponent` is the magnitude. -/
def significand (x : Float) : Nat :=
  if exponentField x = 0 then fractionField x else fractionField x + 4503599627370496

def exponent (x : Float) : Int :=
  if exponentField x = 0 then -1074 else (exponentField x : Int) - 1075

def ratio (x : Float) : Nat × Nat :=
  if exponent x < 0 then (significand x, 1 <<< (exponent x).natAbs)
  else (significand x <<< (exponent x).natAbs, 1)

def wholeMagnitude (x : Float) : Nat := (ratio x).1 / (ratio x).2

def wholePart (x : Float) : Int :=
  if isNegative x then -(wholeMagnitude x : Int) else wholeMagnitude x

def ofNat (n : Nat) : Float := n.toUInt64.toFloat

end Freestanding.Binary64
