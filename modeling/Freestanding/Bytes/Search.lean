import Freestanding.Bytes.Basic

/-!
# Searching byte strings

Positions count from zero. Searching the text of a byte string for NUL finds
its end, which is a position even when no NUL is stored there.
-/

set_option autoImplicit false

namespace Freestanding.Bytes

def indexIn? (c : UInt8) (n : Nat) (s : Bytes) : Option Nat :=
  (s.take n).findIdx? (· == c)

def index? (c : UInt8) (s : Bytes) : Option Nat :=
  if c = 0 then some (textLength s) else (text s).findIdx? (· == c)

def lastIndex? (c : UInt8) (s : Bytes) : Option Nat :=
  if c = 0 then some (textLength s)
  else ((text s).reverse.findIdx? (· == c)).map (textLength s - 1 - ·)

/-- First position at which `needle` stands, NULs being bytes like others. -/
def find? (needle : Bytes) : Bytes → Option Nat
  | [] => if needle.isEmpty then some 0 else none
  | c :: s => if needle.isPrefixOf (c :: s) then some 0 else (find? needle s).map (· + 1)

def findText? (needle s : Bytes) : Option Nat := find? (text needle) (text s)

def spanOf (accept s : Bytes) : Nat :=
  ((text s).takeWhile (text accept).contains).length

def spanOutside (reject s : Bytes) : Nat :=
  ((text s).takeWhile fun c => !(text reject).contains c).length

def firstOf? (accept s : Bytes) : Option Nat :=
  if spanOutside accept s < textLength s then some (spanOutside accept s) else none

end Freestanding.Bytes
