import Freestanding.Binary64.Nearest

/-!
# Reading decimals exactly

A decimal word is a sign, digits with an optional point, and an optional
power of ten; or a name for infinity or for no number. The result is the
double nearest to the number written.
-/

set_option autoImplicit false

namespace Freestanding.Binary64

def digitsValue (cs : List Char) : Nat :=
  cs.foldl (fun v c => v * 10 + (c.toNat - '0'.toNat)) 0

/-- Beyond this power of ten every double is infinite, and below its negative
zero. -/
def exponentReach : Int := 400

def ofDecimal (digits : Nat) (exponent : Int) : Float :=
  if digits = 0 then 0.0
  else
    let size := exponent + (Nat.toDigits 10 digits).length
    if exponentReach < size then infinity
    else if size < -exponentReach then 0.0
    else if exponent < 0 then ofRatio digits (Nat.pow 10 exponent.natAbs)
    else ofRatio (digits * Nat.pow 10 exponent.natAbs) 1

def readExponent? : List Char → Option Int
  | [] => some 0
  | e :: cs =>
    if e = 'e' ∨ e = 'E' then
      let (negative, ds) := match cs with
        | '-' :: ds => (true, ds)
        | '+' :: ds => (false, ds)
        | ds => (false, ds)
      if !ds.isEmpty && ds.all Char.isDigit then
        some (if negative then -(digitsValue ds : Int) else digitsValue ds)
      else none
    else none

def readMagnitude? (cs : List Char) : Option Float :=
  let word := cs.map Char.toLower
  if word = "inf".toList ∨ word = "infinity".toList then some infinity
  else if word = "nan".toList then some nan
  else
    let whole := cs.takeWhile Char.isDigit
    let rest := cs.dropWhile Char.isDigit
    let (fraction, rest) := match rest with
      | '.' :: ds => (ds.takeWhile Char.isDigit, ds.dropWhile Char.isDigit)
      | _ => ([], rest)
    if whole.isEmpty && fraction.isEmpty then none
    else (readExponent? rest).map fun e =>
      ofDecimal (digitsValue (whole ++ fraction)) (e - fraction.length)

def read? (word : String) : Option Float :=
  match word.toList with
  | '-' :: cs => (readMagnitude? cs).map (- ·)
  | '+' :: cs => readMagnitude? cs
  | cs => readMagnitude? cs

end Freestanding.Binary64
