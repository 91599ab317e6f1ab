import Freestanding.Heap.Metered

/-!
# Arenas

A span is a platform that takes its regions from one range of addresses, by a
fixed rule of placement. An arena is a metered store over a span.
-/

set_option autoImplicit false

namespace Freestanding.Heap

/-- Where the next region goes. -/
inductive Placement
  | ascending
  | spaced
  | descending
  | alternating
  deriving DecidableEq, Repr

structure Span where
  placement : Placement
  low : Nat
  high : Nat
  largest : Nat
  granted : Nat := 0
  above : Nat
  below : Nat
  deriving DecidableEq, Repr

abbrev Arena := Metered Span

def Arena.base : Nat := 35184372088832

namespace Span

def extent : Nat := 16777216

def gap : Nat := 64

def bounded (placement : Placement) : Span :=
  let middle := match placement with
    | .alternating => Arena.base + extent / 2
    | _ => Arena.base
  let top := match placement with
    | .alternating => Arena.base + extent / 2
    | _ => Arena.base + extent
  { placement, low := Arena.base, high := Arena.base + extent, largest := extent,
    above := middle, below := top }

def unbounded : Span :=
  { placement := .ascending, low := Arena.base, high := wordLimit, largest := extent,
    above := Arena.base, below := wordLimit }

def goesUp (a : Span) : Bool :=
  match a.placement with
  | .descending => false
  | .alternating => a.granted % 2 == 0
  | _ => true

def place? (a : Span) (bytes : Nat) : Option (Region × Span) :=
  let a' := { a with granted := a.granted + 1 }
  if a.goesUp then
    let unused := if a.placement = .spaced then gap else 0
    if a.above + bytes ≤ a.high then
      some (⟨a.above, bytes⟩, { a' with above := a.above + bytes + unused })
    else none
  else if a.low + bytes ≤ a.below then
    some (⟨a.below - bytes, bytes⟩, { a' with below := a.below - bytes })
  else none

def reserve (bytes : Nat) (a : Span) : Option Region × Span :=
  if a.largest < bytes then (none, a)
  else match a.place? bytes with
    | some (r, a) => (some r, a)
    | none => (none, a)

instance : Platform Span := ⟨reserve, fun _ => .blank⟩

end Span

namespace Arena

def bounded (placement : Placement) (limit : Option Nat) : Arena :=
  { platform := .bounded placement, limit }

def unbounded (limit : Option Nat) : Arena := { platform := .unbounded, limit }

end Arena

end Freestanding.Heap
