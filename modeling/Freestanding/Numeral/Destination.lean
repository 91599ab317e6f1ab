import Freestanding.Numeral.Digit

/-!
# Numerals at the end of a destination

A numeral can be written straight to a destination that holds bytes already.
The digits come off a machine word with the least significant one first, each
put at the end; then the run of them is turned around in its place.
-/

set_option autoImplicit false

namespace Freestanding.Numeral

def pushDigits (upper : Bool) (base : UInt64) (dest : Bytes) (value : UInt64) : Bytes :=
  let dest := dest ++ [digitByte upper (value % base).toNat]
  if _h : 2 ≤ base ∧ value / base ≠ 0 then pushDigits upper base dest (value / base) else dest
termination_by value.toNat
decreasing_by
  have hb : 2 ≤ base.toNat := UInt64.le_iff_toNat_le.mp _h.1
  have hv : value.toNat ≠ 0 := fun hz => _h.2 (UInt64.toNat_inj.mp (by simp [hz]))
  rw [UInt64.toNat_div]
  exact Nat.div_lt_self (Nat.pos_of_ne_zero hv) hb

def reverseFrom (start : Nat) (s : Bytes) : Bytes := s.take start ++ (s.drop start).reverse

def appendNatural (dest : Bytes) (base : Nat) (upper : Bool) (value : UInt64) : Nat × Bytes :=
  let written := reverseFrom dest.length
    (pushDigits upper (clampBase base).toUInt64 dest value)
  (written.length - dest.length, written)

/-- Write a signed word at the end of a destination. The magnitude is taken as
an unsigned word, so that the least one has it too. -/
def appendInteger (dest : Bytes) (base : Nat) (value : Int64) : Nat × Bytes :=
  let signed := if value < 0 then dest ++ [45] else dest
  let written := (appendNatural signed base false value.abs.toUInt64).2
  (written.length - dest.length, written)

end Freestanding.Numeral
