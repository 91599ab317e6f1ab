import Freestanding.Elementary.Exponential

/-!
# Sine, cosine and tangent

Quarter turns are split off first, with a quarter turn in two parts so that
small multiples of the larger part are exact. Which quarter an angle lies in
says which series to sum and with what sign.
-/

set_option autoImplicit false

namespace Freestanding.Elementary

def turnsPerRadian : Float := 0.6366197723675814

def quarterHigh : Float := 1.5707963267341256

def quarterLow : Float := 6.077100506506192e-11

def quarterTurns (x : Float) : Int × Float :=
  let n := nearest (x * turnsPerRadian)
  (Binary64.wholePart n % 4, (x - n * quarterHigh) - n * quarterLow)

def sinSeries (x : Float) : Float :=
  let square := x * x
  (terms.foldl (fun (term, sum) i =>
    let term := term * (-square / Binary64.ofNat ((2 * i) * (2 * i + 1)))
    (term, sum + term)) (x, x)).2

def cosSeries (x : Float) : Float :=
  let square := x * x
  (terms.foldl (fun (term, sum) i =>
    let term := term * (-square / Binary64.ofNat ((2 * i - 1) * (2 * i)))
    (term, sum + term)) ((1.0 : Float), (1.0 : Float))).2

def sin (x : Float) : Float :=
  if !x.isFinite then Binary64.nan
  else match quarterTurns x with
    | (0, r) => sinSeries r
    | (1, r) => cosSeries r
    | (2, r) => -sinSeries r
    | (_, r) => -cosSeries r

def cos (x : Float) : Float :=
  if !x.isFinite then Binary64.nan
  else match quarterTurns x with
    | (0, r) => cosSeries r
    | (1, r) => -sinSeries r
    | (2, r) => -cosSeries r
    | (_, r) => sinSeries r

def tan (x : Float) : Float := sin x / cos x

end Freestanding.Elementary
