import Freestanding.Heap.Layout
import Freestanding.Heap.Region

/-!
# Blocks

All blocks of a heap, free or used, form one list in the order of their
addresses. Allocation carves a used block off a free one; freeing joins free
neighbours, but never across the start of a region.
-/

set_option autoImplicit false

namespace Freestanding.Heap

structure Block where
  address : Nat
  size : Nat
  free : Bool
  deriving DecidableEq, Repr

namespace Block

def payload (b : Block) : Nat := b.address + headerSize

def finish (b : Block) : Nat := b.address + b.size

def capacity (b : Block) : Nat := b.size - headerSize

/-- The block in use, cut to `total` bytes when the remainder is worth a block
of its own. -/
def carve (b : Block) (total : Nat) : List Block :=
  if minSplit ≤ b.size - total then
    [⟨b.address, total, false⟩, ⟨b.address + total, b.size - total, true⟩]
  else [⟨b.address, b.size, false⟩]

end Block

def firstFit? (total : Nat) (blocks : List Block) : Option Block :=
  blocks.find? fun b => b.free && total ≤ b.size

def carveAt (address total : Nat) : List Block → List Block
  | [] => []
  | b :: bs => if b.address = address then b.carve total ++ bs else b :: carveAt address total bs

def releaseAt (address : Nat) : List Block → List Block
  | [] => []
  | b :: bs =>
    if b.address = address then { b with free := true } :: bs else b :: releaseAt address bs

def insertBlock (b : Block) : List Block → List Block
  | [] => [b]
  | c :: cs => if b.address < c.address then b :: c :: cs else c :: insertBlock b cs

/-- Whether a block takes in its neighbour: both free, contiguous, and the
neighbour not the start of a region. -/
def takesIn (regions : List Region) (b c : Block) : Bool :=
  b.free && c.free && b.finish == c.address && !startsRegion c.address regions

/-- Join neighbours in one pass from `b` on, wherever a block takes in the next.
The answer counts the blocks taken in. -/
def mergeFrom (takes : Block → Block → Bool) (b : Block) : List Block → List Block × Nat
  | [] => ([b], 0)
  | c :: cs =>
    if takes b c then
      let (bs, n) := mergeFrom takes ⟨b.address, b.size + c.size, true⟩ cs
      (bs, n + 1)
    else
      let (bs, n) := mergeFrom takes c cs
      (b :: bs, n)

def merge (takes : Block → Block → Bool) : List Block → List Block × Nat
  | [] => ([], 0)
  | b :: bs => mergeFrom takes b bs

def blockAt? (address : Nat) : List Block → Option Block
  | [] => none
  | b :: bs =>
    if b.payload = address then some b
    else if address < b.payload then none
    else blockAt? address bs

def totalSize : List Block → Nat
  | [] => 0
  | b :: bs => b.size + totalSize bs

end Freestanding.Heap
