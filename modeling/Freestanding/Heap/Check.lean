import Freestanding.Heap.Basic

/-!
# Checking a heap

The check walks the blocks once with a count of the bytes covered in every
region, and stops at the first defect. At the end every region must be
covered to its last byte.
-/

set_option autoImplicit false

namespace Freestanding.Heap

def checkBlock (regions : List Region) (covered : List Nat) (b : Block) : Except Defect Nat :=
  match locate? b.address regions with
  | none => .error (.outsideRegions b.address)
  | some (i, r) =>
    if b.size < headerSize ∨ b.size % alignment ≠ 0 then .error (.badSize b.address b.size)
    else if b.address - r.start ≠ covered.getD i 0 then .error (.misplaced b.address)
    else .ok i

def checkPair (regions : List Region) (i : Nat) (b c : Block) : Except Defect Unit :=
  if c.address ≤ b.address then .error (.outOfOrder b.address)
  else if b.free ∧ c.free ∧ (locate? c.address regions).map Prod.fst = some i then
    .error (.adjacentFree b.address c.address)
  else .ok ()

def checkBlocks (regions : List Region) (covered : List Nat) :
    List Block → Except Defect (List Nat)
  | [] => .ok covered
  | b :: bs =>
    match checkBlock regions covered b with
    | .error d => .error d
    | .ok i =>
      match bs.head?.elim (.ok ()) (checkPair regions i b) with
      | .error d => .error d
      | .ok () => checkBlocks regions (covered.modify i (· + b.size)) bs

def checkCover : List Region → List Nat → Except Defect Unit
  | r :: rs, n :: ns => if r.size = n then checkCover rs ns else .error (.uncovered r.start n r.size)
  | _, _ => .ok ()

/-- The first defect of blocks in regions. -/
def findDefect (regions : List Region) (blocks : List Block) : Except Defect Unit :=
  match checkBlocks regions (List.replicate regions.length 0) blocks with
  | .error d => .error d
  | .ok covered => checkCover regions covered

def check {σ : Type} (h : Heap σ) : Except HeapError Unit :=
  match findDefect h.regions h.blocks with
  | .error d => .error (.corrupt d)
  | .ok () => .ok ()

end Freestanding.Heap
