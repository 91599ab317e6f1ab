import Freestanding.Binary64.Basic

/-!
# The nearest double

A positive ratio is cut to the bits of a double and rounded to the nearest,
a tie going to the even one. The bits of doubles are in the order of their
values, so a rounding that carries into the next power of two, or into the
infinite, carries the same way in the bits.
-/

set_option autoImplicit false

namespace Freestanding.Binary64

def roundRatio (numerator denominator : Nat) : Nat :=
  let whole := numerator / denominator
  let twice := 2 * (numerator % denominator)
  if denominator < twice ∨ (denominator = twice ∧ whole % 2 = 1) then whole + 1 else whole

/-- The exponent of the unit in which a positive ratio is rounded: fifty-two
below that of the ratio, but none below that of the least double. -/
def unitExponent (numerator denominator : Nat) : Int :=
  let size : Int := (numerator.log2 : Int) - denominator.log2
  let reached :=
    if size < 0 then decide (denominator ≤ numerator <<< size.natAbs)
    else decide (denominator <<< size.natAbs ≤ numerator)
  max ((if reached then size else size - 1) - 52) (-1074)

def infinityBits : Nat := 0x7FF0000000000000

/-- The double nearest to a ratio. -/
def ofRatio (numerator denominator : Nat) : Float :=
  if numerator = 0 then 0.0
  else
    let unit := unitExponent numerator denominator
    let units :=
      if unit < 0 then roundRatio (numerator <<< unit.natAbs) denominator
      else roundRatio numerator (denominator <<< unit.natAbs)
    let bits := (unit + 1074).toNat * 4503599627370496 + units
    Float.ofBits (min bits infinityBits).toUInt64

end Freestanding.Binary64
