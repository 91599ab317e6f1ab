import Freestanding.Heap.Block
import Freestanding.Heap.Memory

/-!
# Headers in memory

A block starts with its header: its size, the address of the next block, or
zero behind the last one, and a byte that says whether it is free. Both numbers
are machine words with the low byte first, and the seven bytes at the end of a
header are never written. What the operations on a list of blocks write in
memory follows the list: single fields of the headers that change, and a whole
header where a new block starts. A block that was taken in leaves its header
behind as plain bytes.
-/

set_option autoImplicit false

namespace Freestanding.Heap

structure Header where
  size : Nat
  free : Bool
  next : Option Nat
  deriving DecidableEq, Repr

def lowBytes : Nat → Nat → Bytes
  | 0, _ => []
  | k + 1, n => (n % 256).toUInt8 :: lowBytes k (n / 256)

def ofLowBytes : Bytes → Nat
  | [] => 0
  | c :: s => c.toNat + 256 * ofLowBytes s

namespace Memory

def word (m : Memory) (address : Nat) : Nat := ofLowBytes (m.read address 8)

def setSize (m : Memory) (address size : Nat) : Memory := m.write address (lowBytes 8 size)

def setNext (m : Memory) (address : Nat) (next : Option Nat) : Memory :=
  m.write (address + 8) (lowBytes 8 (next.getD 0))

def setFree (m : Memory) (address : Nat) (free : Bool) : Memory :=
  m.write (address + 16) [if free then 1 else 0]

def setHeader (m : Memory) (address : Nat) (h : Header) : Memory :=
  ((m.setSize address h.size).setNext address h.next).setFree address h.free

/-- The header that lies at an address. -/
def header (m : Memory) (address : Nat) : Header where
  size := m.word address
  free := m.byte (address + 16) != 0
  next := if m.word (address + 8) = 0 then none else some (m.word (address + 8))

def carve (m : Memory) (b : Block) (total : Nat) (next : Option Nat) : Memory :=
  let m := m.setFree b.address false
  if minSplit ≤ b.size - total then
    let m := m.setHeader (b.address + total) ⟨b.size - total, true, next⟩
    (m.setSize b.address total).setNext b.address (some (b.address + total))
  else m

end Memory

/-- The blocks met by following at most `n` links, whatever the headers are. -/
def walk (header : Nat → Header) : Nat → Option Nat → List Block
  | n + 1, some address =>
    ⟨address, (header address).size, (header address).free⟩ :: walk header n (header address).next
  | _, _ => []

def firstAddress? (bs : List Block) : Option Nat := bs.head?.map (·.address)

def carveHeaders (address total : Nat) : List Block → Memory → Memory
  | [], m => m
  | b :: bs, m =>
    if b.address = address then m.carve b total (firstAddress? bs)
    else carveHeaders address total bs m

def linkBehind (address : Nat) (b : Block) : List Block → Memory → Memory
  | [], m => (m.setNext address none).setNext b.address (some address)
  | c :: cs, m =>
    if address < c.address then
      (m.setNext address (some c.address)).setNext b.address (some address)
    else linkBehind address c cs m

def linkHeader (address : Nat) : List Block → Memory → Memory
  | [], m => m.setNext address none
  | b :: bs, m =>
    if address < b.address then m.setNext address (some b.address)
    else linkBehind address b bs m

def mergeHeadersFrom (takes : Block → Block → Bool) (b : Block) : List Block → Memory → Memory
  | [], m => m
  | c :: cs, m =>
    if takes b c then
      mergeHeadersFrom takes ⟨b.address, b.size + c.size, true⟩ cs
        ((m.setSize b.address (b.size + c.size)).setNext b.address (firstAddress? cs))
    else mergeHeadersFrom takes c cs m

def mergeHeaders (takes : Block → Block → Bool) : List Block → Memory → Memory
  | [], m => m
  | b :: bs, m => mergeHeadersFrom takes b bs m

end Freestanding.Heap
