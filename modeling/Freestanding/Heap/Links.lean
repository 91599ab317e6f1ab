import Freestanding.Heap.Basic
import Freestanding.Heap.Header

/-!
# Linked headers

The list of blocks as it lies in memory: headers by address, each with the
address of the next. Damage to single headers is described here; following
the links from the first header gives the blocks that a walk would see. Where
no header lies, memory reads as an empty used block and the end of the list.
-/

set_option autoImplicit false

namespace Freestanding.Heap

structure Links where
  first : Option Nat
  headers : List (Nat × Header)
  deriving DecidableEq, Repr

namespace Links

def headersOf : List Block → List (Nat × Header)
  | [] => []
  | b :: bs => (b.address, ⟨b.size, b.free, firstAddress? bs⟩) :: headersOf bs

def ofBlocks (blocks : List Block) : Links :=
  ⟨firstAddress? blocks, headersOf blocks⟩

def get (l : Links) (address : Nat) : Header :=
  (l.headers.lookup address).getD ⟨0, false, none⟩

def set (l : Links) (address : Nat) (h : Header) : Links :=
  { l with headers := (address, h) :: l.headers }

/-- The blocks met from the first header on. A walk that meets no header twice
has at most one block more than there are headers. -/
def blocks (l : Links) : List Block := walk l.get (l.headers.length + 1) l.first

end Links

inductive Damage
  | size (n : Nat)
  | free (isFree : Bool)
  | next (address : Option Nat)
  deriving DecidableEq, Repr

def Damage.apply (h : Header) : Damage → Header
  | size n => { h with size := n }
  | free isFree => { h with free := isFree }
  | next address => { h with next := address }

def Links.damage (l : Links) (address : Nat) (d : Damage) : Links :=
  l.set address (d.apply (l.get address))

end Freestanding.Heap
