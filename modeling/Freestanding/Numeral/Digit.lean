import Freestanding.Bytes.Basic

/-!
# Digits

Digits go from 0 to 9 and on through the letters, in either case, up to base
thirty-six. Numbers are written with the most significant digit first and no
zero in front, zero itself being one digit.
-/

set_option autoImplicit false

namespace Freestanding.Numeral

def digitValue? (c : UInt8) : Option Nat :=
  if 48 ≤ c ∧ c ≤ 57 then some (c.toNat - 48)
  else if 97 ≤ c ∧ c ≤ 122 then some (c.toNat - 97 + 10)
  else if 65 ≤ c ∧ c ≤ 90 then some (c.toNat - 65 + 10)
  else none

def digitIn? (base : Nat) (c : UInt8) : Option Nat :=
  (digitValue? c).filter (· < base)

def isDecimal (c : UInt8) : Bool := 48 ≤ c && c ≤ 57

def decimalValue (c : UInt8) : Nat := c.toNat - 48

def digitByte (upper : Bool) (d : Nat) : UInt8 :=
  if d < 10 then (48 + d).toUInt8
  else if upper then (65 + (d - 10)).toUInt8
  else (97 + (d - 10)).toUInt8

def clampBase (base : Nat) : Nat := max 2 (min base 16)

/-- The digits of a number in a base of at least two, most significant first. -/
def digits (base n : Nat) : List Nat :=
  if _h : 2 ≤ base ∧ base ≤ n then digits base (n / base) ++ [n % base] else [n % base]
termination_by n
decreasing_by exact Nat.div_lt_self (by omega) (by omega)

def natural (base : Nat) (upper : Bool) (n : Nat) : Bytes :=
  (digits (clampBase base) n).map (digitByte upper)

def integer (base : Nat) (i : Int) : Bytes :=
  if i < 0 then 45 :: natural base false i.natAbs else natural base false i.natAbs

end Freestanding.Numeral
