import Freestanding.Numeral.Integer

/-!
# Reading and writing reals

Reading takes blanks, a sign, digits with an optional point and an optional
power of ten, as far as they form a numeral; the value is built by machine
arithmetic, a digit or a factor of ten at a time. Writing peels digits off
the same way and cuts the fraction where the places end, without rounding.
-/

set_option autoImplicit false

namespace Freestanding.Numeral

def isSettled (x : Float) : Bool := x == 0.0 || x.isInf || x.isNaN

def scaleSteps (down : Bool) : Nat → Float → Float
  | 0, x => x
  | n + 1, x => if isSettled x then x else scaleSteps down n (if down then x / 10.0 else x * 10.0)

def scaleByTen (x : Float) (exponent : Int) : Float :=
  scaleSteps (exponent < 0) exponent.natAbs x

def wholeValue (ds : Bytes) : Float :=
  ds.foldl (fun v d => v * 10.0 + Float.ofNat (decimalValue d)) 0.0

/-- The value of the digits behind a point. Digits whose place is past
10^300 no longer count. -/
def fractionValue (ds : Bytes) : Float :=
  let (fraction, scale) := ds.foldl (fun (fraction, scale) d =>
    if scale < 1e300 then (fraction * 10.0 + Float.ofNat (decimalValue d), scale * 10.0)
    else (fraction, scale)) ((0.0 : Float), (1.0 : Float))
  fraction / scale

/-- The largest power of ten that is applied; beyond it every result is zero
or infinite already. -/
def exponentCap : Nat := 1000

def cappedExponent (ds : Bytes) : Nat :=
  ds.foldl (fun e d => min (e * 10 + decimalValue d) exponentCap) 0

def readExponent : Bytes → Int × Nat
  | e :: s =>
    let (negative, signed) := sign s
    let ds := (s.drop signed).takeWhile isDecimal
    if (e = 101 ∨ e = 69) ∧ ds ≠ [] then
      let n := cappedExponent ds
      (if negative then -(n : Int) else n, 1 + signed + ds.length)
    else (0, 0)
  | [] => (0, 0)

def readFraction : Bytes → Bytes × Nat
  | 46 :: s => (s.takeWhile isDecimal, 1 + (s.takeWhile isDecimal).length)
  | _ => ([], 0)

def parseReal (s : Bytes) : Parsed Float :=
  let blank := Bytes.blanks s
  let (negative, signed) := sign (s.drop blank)
  let s := s.drop (blank + signed)
  let whole := s.takeWhile isDecimal
  let s := s.drop whole.length
  let (fraction, fractional) := readFraction s
  if whole = [] ∧ fraction = [] then ⟨0.0, 0, false⟩
  else
    let value := wholeValue whole
    let value := if fractional = 0 then value else value + fractionValue fraction
    let (exponent, exponential) := readExponent (s.drop fractional)
    let value := if exponential = 0 then value else scaleByTen value exponent
    ⟨if negative then -value else value,
      blank + signed + whole.length + fractional + exponential, value.isInf⟩

end Freestanding.Numeral
