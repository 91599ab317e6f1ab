import Freestanding.Elementary.Rounding

/-!
# Logarithm, exponential and power

Powers of two are split off first, so that the series sees small arguments
only; every series has the same number of terms. Arguments outside a
function's domain give no number, and limits that are infinite are infinity.
-/

set_option autoImplicit false

namespace Freestanding.Elementary

def terms : List Nat := (List.range 20).map (· + 1)

def lnTwo : Float := 0.6931471805599453

def sqrtTwo : Float := 1.4142135623730951

def leastNormal : Float := Float.ofBits 0x0010000000000000

/-- A positive finite double as a number from one up to two and the power of
two it is multiplied by. Doubles below the normal range are lifted into it. -/
def splitExponent (x : Float) : Float × Int :=
  let small := decide (x < leastNormal)
  let lifted := if small then x * 18014398509481984.0 else x
  let lift : Int := if small then 54 else 0
  let mantissa := Float.ofBits ((lifted.toBits &&& 0xFFFFFFFFFFFFF) ||| 0x3FF0000000000000)
  (mantissa, (Binary64.exponentField lifted : Int) - 1023 - lift)

def powerOfTwo (k : Int) : Float := Float.ofBits ((k + 1023).toNat.toUInt64 <<< 52)

def atanhSeries (y : Float) : Float :=
  let square := y * y
  (terms.foldl (fun (term, sum) i =>
    let term := term * square
    (term, sum + term / Binary64.ofNat (2 * i + 1))) (y, y)).2

def log (x : Float) : Float :=
  if x.isNaN || x < 0.0 then Binary64.nan
  else if x == 0.0 then -Binary64.infinity
  else if x.isInf then x
  else
    let (m, e) := splitExponent x
    let (m, e) := if m > sqrtTwo then (m * 0.5, e + 1) else (m, e)
    Float.ofInt e * lnTwo + 2.0 * atanhSeries ((m - 1.0) / (m + 1.0))

def expOverflow : Float := 709.782712893384

def expUnderflow : Float := -745.1332191019411

/-- The base of the natural logarithm raised to `x`. The power of two is
applied in two halves, each in the normal range. -/
def exp (x : Float) : Float :=
  if x.isNaN then x
  else if x > expOverflow then Binary64.infinity
  else if x < expUnderflow then 0.0
  else
    let k := nearest (x / lnTwo)
    let r := x - k * lnTwo
    let sum := (terms.foldl (fun (term, sum) i =>
      let term := term * (r / Binary64.ofNat i)
      (term, sum + term)) ((1.0 : Float), (1.0 : Float))).2
    let k := Binary64.wholePart k
    let half := k.tdiv 2
    sum * powerOfTwo half * powerOfTwo (k - half)

def squareAndMultiply : Nat → Nat → Float → Float → Float
  | 0, _, _, result => result
  | places + 1, n, factor, result =>
    if n = 0 then result
    else squareAndMultiply places (n / 2) (factor * factor)
      (if n % 2 = 1 then result * factor else result)

def powerWhole (base : Float) (n : Int) : Float :=
  let result := squareAndMultiply 64 n.natAbs base 1.0
  if n < 0 then 1.0 / result else result

/-- A base raised to an exponent. Whole exponents go by repeated squaring and
so admit negative bases; others go through the logarithm and do not. -/
def pow (base exponent : Float) : Float :=
  if exponent == 0.0 || base == 1.0 then 1.0
  else if base.isNaN || exponent.isNaN then Binary64.nan
  else if magnitude exponent < wholeFrom && exponent == truncate exponent then
    powerWhole base (Binary64.wholePart exponent)
  else if base < 0.0 then Binary64.nan
  else if base == 0.0 then (if exponent > 0.0 then 0.0 else Binary64.infinity)
  else exp (exponent * log base)

end Freestanding.Elementary
