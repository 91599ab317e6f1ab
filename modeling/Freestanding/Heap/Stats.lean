import Freestanding.Heap.Basic

/-!
# Occupancy

A snapshot of a heap: how its bytes are divided among blocks, and what it has
done so far.
-/

set_option autoImplicit false

namespace Freestanding.Heap

structure Stats where
  regions : Nat
  backingBytes : Nat
  blocks : Nat
  freeBlocks : Nat
  usedBytes : Nat
  freeBytes : Nat
  largestFree : Nat
  counters : Counters
  deriving DecidableEq, Repr

namespace Stats

def utilisation (s : Stats) : Float :=
  if s.backingBytes = 0 then 0.0
  else (Binary64.ofNat s.usedBytes / Binary64.ofNat s.backingBytes) * 100.0

def text (s : Stats) : String :=
  let c := s.counters
  let cell := Text.right 10
  let line := fun (label rest : String) => Text.padRight 15 label ++ ": " ++ rest ++ "\n"
  String.join [
    line "Heap Regions" (cell s.regions),
    line "Heap Bytes" (cell s.backingBytes),
    line "Heap Blocks" (cell s.blocks ++ s!" ({s.freeBlocks} free)"),
    line "Used / Free" (cell s.usedBytes ++ s!" / {s.freeBytes}"),
    line "Largest Free" (cell s.largestFree),
    line "Utilisation" (Text.padLeft ' ' 9 (Binary64.fixed 1 s.utilisation) ++ "%"),
    line "Allocations" (cell c.allocations),
    line "Frees" (cell c.frees),
    line "Resizes" (cell c.resizes ++ s!" ({c.resizedInPlace} in place)"),
    line "Growths" (cell c.growths),
    line "Merges" (cell c.merges),
    line "Failures" (cell c.failures)]

end Stats

def regionBytes : List Region → Nat
  | [] => 0
  | r :: rs => r.size + regionBytes rs

def largestSize (blocks : List Block) : Nat := blocks.foldl (fun n b => max n b.size) 0

variable {σ : Type}

def stats (h : Heap σ) : Stats :=
  let free := h.blocks.filter (·.free)
  let used := h.blocks.filter (!·.free)
  { regions := h.regions.length
    backingBytes := regionBytes h.regions
    blocks := h.blocks.length
    freeBlocks := free.length
    usedBytes := totalSize used
    freeBytes := totalSize free
    largestFree := largestSize free
    counters := h.counters }

structure Location where
  region : Option Nat
  offset : Nat
  deriving DecidableEq, Repr

def location (h : Heap σ) (b : Block) : Location :=
  match locate? b.address h.regions with
  | some (i, r) => ⟨some i, b.address - r.start⟩
  | none => ⟨none, 0⟩

/-- A line of the block map. A block outside every region shows the greatest
word as its region. -/
def mapLine (h : Heap σ) (b : Block) : String :=
  let place := h.location b
  let region := place.region.getD (wordLimit - 1)
  Text.hexWide b.address ++ s!" r{region}+" ++ Text.padRight 8 (toString place.offset) ++ " "
    ++ Text.right 8 b.size ++ (if b.free then " free\n" else " used\n")

def mapText (h : Heap σ) : String := String.join (h.blocks.map h.mapLine)

end Freestanding.Heap
