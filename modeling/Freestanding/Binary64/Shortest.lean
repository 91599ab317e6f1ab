import Freestanding.Binary64.Basic

/-!
# Shortest digits

The shortest decimal of a double is the one with the fewest digits among
those that read back as the same double, and of two such the nearer. Reading
rounds to nearest, so the decimals that read back are those in an interval
around the double, its ends included when the significand is even.

A positive decimal is a list of digits behind the point and a power of ten.
-/

set_option autoImplicit false

namespace Freestanding.Binary64

structure Decimal where
  digits : Nat
  count : Nat
  exponent : Int
  deriving DecidableEq, Repr

structure Interval where
  value : Nat
  low : Nat
  high : Nat
  denominator : Nat
  closed : Bool
  deriving DecidableEq, Repr

/-- The interval of decimals that read back as a positive finite double. Just
above a power of two the gap below is half the gap above. -/
def interval (x : Float) : Interval :=
  let m := significand x
  let (up, denominator) :=
    if exponent x < 0 then (1, 1 <<< (exponent x).natAbs) else (1 <<< (exponent x).natAbs, 1)
  let below := if fractionField x = 0 ∧ 1 < exponentField x then 1 else 2
  { value := 4 * m * up
    low := (4 * m - below) * up
    high := (4 * m + 2) * up
    denominator := 4 * denominator
    closed := m % 2 == 0 }

def leadPlaces : Nat := 330

def tenExponent (value denominator : Nat) : Int :=
  ((Nat.toDigits 10 (value * Nat.pow 10 leadPlaces / denominator)).length : Int) - leadPlaces

def Interval.holds (i : Interval) (n : Nat) (unit : Nat × Nat) : Bool :=
  let point := n * unit.1 * i.denominator
  if i.closed then i.low * unit.2 ≤ point && point ≤ i.high * unit.2
  else i.low * unit.2 < point && point < i.high * unit.2

/-- Of the two neighbours of the value on the grid of `count` digits, the
nearest that lies in the interval; the upper one when both are as near. -/
def Interval.onGrid? (i : Interval) (exponent : Int) (count : Nat) : Option Decimal :=
  let places := exponent - count
  let unit : Nat × Nat :=
    if places < 0 then (1, Nat.pow 10 places.natAbs) else (Nat.pow 10 places.natAbs, 1)
  let scaled := i.value * unit.2
  let step := i.denominator * unit.1
  let lower := scaled / step
  let nearerUpper := decide (step ≤ 2 * (scaled % step))
  let (near, far) := if nearerUpper then (lower + 1, lower) else (lower, lower + 1)
  if i.holds near unit then some ⟨near, count, exponent⟩
  else if i.holds far unit then some ⟨far, count, exponent⟩
  else none

/-- The shortest decimal of a positive finite double. Seventeen digits always
suffice. -/
def shortest (x : Float) : Decimal :=
  let i := interval x
  let e := tenExponent i.value i.denominator
  ((List.range 17).findSome? fun k => i.onGrid? e (k + 1)).getD ⟨i.value, 17, e⟩

def Decimal.positional (d : Decimal) : String :=
  let ds := Nat.toDigits 10 d.digits
  let point := d.exponent + ((ds.length : Int) - d.count)
  let zeros := fun n => List.replicate n '0'
  let kept := ds.reverse.dropWhile (· == '0') |>.reverse
  if point ≤ 0 then String.ofList ('0' :: '.' :: zeros point.natAbs ++ kept)
  else if kept.length ≤ point.toNat then
    String.ofList (kept ++ zeros (point.toNat - kept.length))
  else String.ofList (kept.take point.toNat ++ '.' :: kept.drop point.toNat)

def plain (x : Float) : String :=
  if x.isNaN then "NaN"
  else
    let sign := if isNegative x then "-" else ""
    if x.isInf then sign ++ "inf"
    else if significand x = 0 then sign ++ "0"
    else sign ++ (shortest x).positional

end Freestanding.Binary64
