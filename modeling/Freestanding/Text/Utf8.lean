import Freestanding.Bytes.Basic

/-!
# Reading UTF-8

A decoder takes one byte at a time. It stands between characters, or inside
one with continuation bytes owed and a range for the next of them. Where a
byte cannot continue a character, the bytes read of it give one replacement
character and the byte starts anew.
-/

set_option autoImplicit false

namespace Freestanding.Utf8

def replacement : Char := '\uFFFD'

inductive State
  | between
  | inside (owed : Nat) (low high : UInt8) (code : Nat)
  deriving DecidableEq, Repr

def first (b : UInt8) : Option Char × State :=
  if b < 0x80 then (some (Char.ofNat b.toNat), .between)
  else if 0xC2 ≤ b && b ≤ 0xDF then (none, .inside 0 0x80 0xBF (b.toNat - 0xC0))
  else if b = 0xE0 then (none, .inside 1 0xA0 0xBF 0)
  else if b = 0xED then (none, .inside 1 0x80 0x9F 0xD)
  else if 0xE1 ≤ b && b ≤ 0xEF then (none, .inside 1 0x80 0xBF (b.toNat - 0xE0))
  else if b = 0xF0 then (none, .inside 2 0x90 0xBF 0)
  else if b = 0xF4 then (none, .inside 2 0x80 0x8F 4)
  else if 0xF1 ≤ b && b ≤ 0xF3 then (none, .inside 2 0x80 0xBF (b.toNat - 0xF0))
  else (some replacement, .between)

def step : State → UInt8 → List Char × State
  | .between, b => ((first b).1.toList, (first b).2)
  | .inside owed low high code, b =>
    if low ≤ b && b ≤ high then
      let code := code * 64 + (b.toNat - 0x80)
      match owed with
      | 0 => ([Char.ofNat code], .between)
      | owed + 1 => ([], .inside owed 0x80 0xBF code)
    else (replacement :: (first b).1.toList, (first b).2)

def decodeFrom : State → Bytes → List Char
  | .between, [] => []
  | .inside .., [] => [replacement]
  | q, b :: s => (step q b).1 ++ decodeFrom (step q b).2 s

/-- The characters of a byte string, replacements included. -/
def decode (s : Bytes) : List Char := decodeFrom .between s

def decodeString (s : Bytes) : String := String.ofList (decode s)

end Freestanding.Utf8
