/-!
# Regions

A region is a range of addresses that a store has handed out. A heap keeps its
regions in the order of their addresses.
-/

set_option autoImplicit false

namespace Freestanding.Heap

structure Region where
  start : Nat
  size : Nat
  deriving DecidableEq, Repr

namespace Region

def finish (r : Region) : Nat := r.start + r.size

def contains (r : Region) (address : Nat) : Bool := r.start ≤ address && address < r.finish

def offset? (r : Region) (address : Nat) : Option Nat :=
  if r.contains address then some (address - r.start) else none

end Region

/-- Halve the indices from `low` up to `high` until none is left: an index where
a test fails sends the search below it, one where it holds above. -/
@[semireducible] def bisect (test : Nat → Bool) (low high : Nat) : Nat :=
  if low < high then
    let middle := (low + high) / 2
    if test middle then bisect test (middle + 1) high else bisect test low middle
  else low
termination_by high - low

def partitionPoint (test : Region → Bool) (rs : List Region) : Nat :=
  bisect (fun i => (rs[i]?).any test) 0 rs.length

def insertRegion (r : Region) (rs : List Region) : List Region :=
  let i := partitionPoint (fun s => s.start < r.start) rs
  rs.take i ++ r :: rs.drop i

/-- The index of the region that holds an address, and the region. Of the
regions that start at the address or below, only the last can hold it. -/
def locate? (address : Nat) (rs : List Region) : Option (Nat × Region) :=
  match partitionPoint (fun r => r.start ≤ address) rs with
  | 0 => none
  | i + 1 => ((rs[i]?).filter (·.contains address)).map fun r => (i, r)

def startsRegion (address : Nat) (rs : List Region) : Bool :=
  (rs[partitionPoint (fun r => r.start < address) rs]?).any (·.start == address)

end Freestanding.Heap
