import Freestanding.Numeral.Digit
import Freestanding.Elementary.Rounding

/-!
# Writing reals

Digits are peeled off by machine arithmetic and the fraction is cut where the
places end, without rounding. The scientific form brings the magnitude
between one and ten first and has at least two digits of exponent.
-/

set_option autoImplicit false

namespace Freestanding.Numeral

def nonFinite? (upper : Bool) (x : Float) : Option Bytes :=
  if x.isFinite then none
  else
    let word := if x.isNaN then "nan" else if Binary64.isNegative x then "-inf" else "inf"
    some ((Bytes.ofAscii word).map fun c => if upper then Bytes.toUpper c else c)

def isBelowZero (x : Float) : Bool := Binary64.isNegative x && x != 0.0

def wordEnd : Float := 18446744073709551616.0

/-- More digits than the whole part of any double has. -/
def wholeSteps : Nat := 400

def lastDigit (x : Float) : UInt8 := digitByte false (Binary64.wholeMagnitude x % 10)

def dropFraction (x : Float) : Float :=
  if x ≥ Elementary.wholeFrom then x else x.toUInt64.toFloat

def peelWhole : Nat → Float → Bytes → Bytes
  | 0, _, tail => tail
  | n + 1, x, tail =>
    if x ≥ 1.0 then peelWhole n (dropFraction (x / 10.0)) (lastDigit x :: tail)
    else tail

def wholeText (x : Float) : Bytes :=
  if x < wordEnd then natural 10 false x.toUInt64.toNat
  else peelWhole wholeSteps (dropFraction (x / 10.0)) [lastDigit x]

def fractionDigit (x : Float) : UInt8 :=
  if 9 < (x * 10.0).toUInt8 then 9 else (x * 10.0).toUInt8

def fractionText : Nat → Float → Bytes
  | 0, _ => []
  | n + 1, x =>
    let d := fractionDigit x
    (48 + d) :: fractionText n (x * 10.0 - d.toFloat)

def fixedMagnitude (x : Float) (places : Nat) : Bytes :=
  let whole := dropFraction x
  wholeText whole ++ if places = 0 then [] else 46 :: fractionText places (x - whole)

def fixedText (x : Float) (places : Nat) : Bytes :=
  (nonFinite? false x).getD
    ((if isBelowZero x then [45] else []) ++ fixedMagnitude (Elementary.magnitude x) places)

def scalingSteps : Nat := 700

def scaleDown : Nat → Float → Int → Float × Int
  | 0, x, e => (x, e)
  | n + 1, x, e => if x ≥ 10.0 then scaleDown n (x / 10.0) (e + 1) else (x, e)

def scaleUp : Nat → Float → Int → Float × Int
  | 0, x, e => (x, e)
  | n + 1, x, e => if x < 1.0 then scaleUp n (x * 10.0) (e - 1) else (x, e)

/-- A positive finite real as a number from one up to ten and a power of ten;
zero stays zero. -/
def normalise (x : Float) : Float × Int :=
  if x == 0.0 then (x, 0)
  else
    let (x, e) := scaleDown scalingSteps x 0
    scaleUp scalingSteps x e

def exponentText (upper : Bool) (e : Int) : Bytes :=
  [if upper then 69 else 101, if e < 0 then 45 else 43] ++
    (if e.natAbs < 10 then [48] else []) ++ natural 10 false e.natAbs

def scientificText (x : Float) (places : Nat) (upper : Bool) : Bytes :=
  (nonFinite? upper x).getD
    (let (mantissa, e) := normalise (Elementary.magnitude x)
    (if isBelowZero x then [45] else []) ++ fixedMagnitude mantissa places ++ exponentText upper e)

end Freestanding.Numeral
