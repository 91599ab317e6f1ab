import Freestanding.Bytes.Basic
import Freestanding.Heap.Region

/-!
# Memory

The contents of memory, a byte for every address. Stores change a range of
addresses and no other.
-/

set_option autoImplicit false

namespace Freestanding.Heap

structure Memory where
  byte : Nat → UInt8

namespace Memory

def blank : Memory := ⟨fun _ => 0⟩

def read (m : Memory) (start n : Nat) : Bytes := (List.range n).map fun i => m.byte (start + i)

def fill (m : Memory) (start n : Nat) (c : UInt8) : Memory :=
  ⟨fun a => if start ≤ a ∧ a < start + n then c else m.byte a⟩

def write (m : Memory) (start : Nat) (s : Bytes) : Memory :=
  ⟨fun a => if start ≤ a then (s[a - start]?).getD (m.byte a) else m.byte a⟩

/-- Let the addresses of a region hold what other memory holds there. -/
def overlay (m : Memory) (r : Region) (other : Memory) : Memory :=
  ⟨fun a => if r.contains a then other.byte a else m.byte a⟩

def copy (m : Memory) (dest src n : Nat) : Memory :=
  ⟨fun a => if dest ≤ a ∧ a < dest + n then m.byte (src + (a - dest)) else m.byte a⟩

end Memory

end Freestanding.Heap
