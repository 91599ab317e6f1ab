import Freestanding.Binary64.Basic

/-!
# Rounding to whole numbers

Doubles from 2^52 on are whole, so only smaller ones pass through a machine
integer. A result that is zero is positive zero.
-/

set_option autoImplicit false

namespace Freestanding.Elementary

def magnitude (x : Float) : Float := Float.ofBits (x.toBits &&& 0x7FFFFFFFFFFFFFFF)

/-- 2^52; every double at least this large is whole. -/
def wholeFrom : Float := 4503599627370496.0

def truncate (x : Float) : Float :=
  if !x.isFinite || magnitude x ≥ wholeFrom then x else x.toInt64.toFloat

def floor (x : Float) : Float :=
  let t := truncate x
  if t > x then t - 1.0 else t

def ceiling (x : Float) : Float :=
  let t := truncate x
  if t < x then t + 1.0 else t

def nearest (x : Float) : Float :=
  let t := truncate x
  let fraction := x - t
  if fraction ≥ 0.5 then t + 1.0
  else if fraction ≤ -0.5 then t - 1.0
  else t

end Freestanding.Elementary
