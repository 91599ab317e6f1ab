import Freestanding.Heap.Layout
import Freestanding.Heap.Store

/-!
# Metered stores

A platform gives out memory and keeps no account of it. A metered store draws
on a platform: it counts the bytes handed out, stays within an optional limit
on their total, and passes on only sizes that a region can have. What it
refuses leaves its count as it was.
-/

set_option autoImplicit false

namespace Freestanding.Heap

class Platform (π : Type) where
  reserve : Nat → π → Option Region × π
  contents : π → Memory

structure Metered (π : Type) where
  platform : π
  limit : Option Nat
  acquired : Nat := 0
  deriving DecidableEq, Repr

namespace Metered

variable {π : Type}

def passedLimit? (s : Metered π) (bytes : Nat) : Option Nat :=
  s.limit.filter fun limit => limit < s.acquired + bytes

def greatestSize : Nat := 9223372036854775800

def acquire [Platform π] (bytes : Nat) (s : Metered π) : Except StoreError Region × Metered π :=
  match s.passedLimit? bytes with
  | some limit => (.error (.limitExceeded limit bytes), s)
  | none =>
    if bytes = 0 ∨ bytes % alignment ≠ 0 ∨ greatestSize < bytes then (.error .badSize, s)
    else match Platform.reserve bytes s.platform with
      | (some r, platform) => (.ok r, { s with platform, acquired := s.acquired + bytes })
      | (none, platform) => (.error .exhausted, { s with platform })

instance [Platform π] : Store (Metered π) where
  acquire := acquire
  acquired := Metered.acquired
  limit := Metered.limit
  contents := fun s => Platform.contents s.platform

end Metered

end Freestanding.Heap
