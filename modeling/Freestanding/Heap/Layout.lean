import Freestanding.Word

/-!
# Block layout

Every block starts with a header and every size is a multiple of the
alignment. A request is rounded up and given a header; growth is rounded up
to a multiple of the increment. Each computation answers nothing when it
would leave the machine word.
-/

set_option autoImplicit false

namespace Freestanding.Heap

def alignment : Nat := 8

def headerSize : Nat := 24

/-- The smallest block worth splitting off: a header and one unit. -/
def minSplit : Nat := 32

def alignUp? (size : Nat) : Option Nat :=
  (wordAdd? size (alignment - 1)).map fun s => s / alignment * alignment

def blockSize? (size : Nat) : Option Nat :=
  (alignUp? size).bind (wordAdd? · headerSize)

def growth? (increment total : Nat) : Option Nat :=
  (wordAdd? total (increment - 1)).map fun t => t / increment * increment

end Freestanding.Heap
