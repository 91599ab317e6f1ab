import Freestanding.Heap.Header
import Freestanding.Heap.Stats

/-!
# Allocating, resizing and freeing

An operation answers a value or an error, and the heap afterwards. Addresses
that are handed in are checked against the blocks before anything is changed,
so a foreign or stale address is an error and does no harm.
-/

set_option autoImplicit false

namespace Freestanding.Heap

variable {σ : Type}

/-- The answer of an operation and the heap after it. -/
abbrev Outcome (σ α : Type) := Except HeapError α × Heap σ

variable [Store σ]

def shortage (h : Heap σ) (requested : Nat) : Shortage :=
  let s := h.stats
  { requested, regions := s.regions, backingBytes := s.backingBytes, freeBytes := s.freeBytes
    largestFree := s.largestFree, limit := Store.limit h.store }

def outOfMemory (h : Heap σ) (requested : Nat) : HeapError := .outOfMemory (h.shortage requested)

def addRegion (h : Heap σ) (r : Region) (bytes : Nat) : Heap σ :=
  { h with
    regions := insertRegion r h.regions
    blocks := insertBlock ⟨r.start, bytes, true⟩ h.blocks
    memory := linkHeader r.start h.blocks
      ((h.memory.overlay r (Store.contents h.store)).setHeader r.start ⟨bytes, true, none⟩)
    counters := { h.counters with growths := h.counters.growths + 1 } }

/-- Draw a region from the store that can hold a block of `total` bytes. The
answer is the address of its block. -/
def grow (h : Heap σ) (size total : Nat) : Outcome σ Nat :=
  match growth? h.config.increment total with
  | none => (.error (h.outOfMemory size), h)
  | some bytes =>
    match Store.acquire bytes h.store with
    | (.error e, store) =>
      let h := { h with store }
      (.error (h.outOfMemory size), h.note (.refused bytes e))
    | (.ok r, store) =>
      let h := { h with store }.addRegion r bytes
      (.ok r.start, h.note (.grew bytes total h.regions.length (Store.acquired h.store)))

def sizeAt (address : Nat) (blocks : List Block) : Nat :=
  match blocks.find? (·.address == address) with
  | some b => b.size
  | none => 0

def occupy (h : Heap σ) (address size total : Nat) : Outcome σ Nat :=
  let blocks := carveAt address total h.blocks
  let memory := carveHeaders address total h.blocks h.memory
  let held := sizeAt address blocks
  let payload := address + headerSize
  let h := { h with
    blocks
    memory := h.config.fill.elim memory (memory.fill payload (held - headerSize))
    counters := { h.counters with allocations := h.counters.allocations + 1 } }
  (.ok payload, h.note (.allocated size payload held))

def countFailure (h : Heap σ) : Heap σ :=
  { h with counters := { h.counters with failures := h.counters.failures + 1 } }

/-- Allocate at least `size` bytes: the first free block that is large enough,
or else a new region. -/
def allocate (h : Heap σ) (size : Nat) : Outcome σ Nat :=
  if size = 0 then (.error .zeroSize, h)
  else
    match blockSize? size with
    | none => (.error (h.outOfMemory size), h.countFailure.note (.sizeOverflowed size))
    | some total =>
      match firstFit? total h.blocks with
      | some b => h.occupy b.address size total
      | none =>
        match h.grow size total with
        | (.error e, h) => (.error e, h.countFailure.note (.failed size e))
        | (.ok address, h) => h.occupy address size total

def allocateZeroed (h : Heap σ) (count size : Nat) : Outcome σ Nat :=
  match wordMul? count size with
  | none => (.error (.sizeOverflow count size), h)
  | some total =>
    match h.allocate total with
    | (.error e, h) => (.error e, h)
    | (.ok p, h) => (.ok p, { h with memory := h.memory.fill p total 0 })

def findBlock (h : Heap σ) (address : Nat) : Except HeapError Block :=
  if (locate? address h.regions).isSome then
    match blockAt? address h.blocks with
    | some b => .ok b
    | none => .error (.invalidPointer address)
  else .error (.invalidPointer address)

def findLive (h : Heap σ) (address : Nat) : Except HeapError Block :=
  match h.findBlock address with
  | .error e => .error e
  | .ok b => if b.free then .error (.invalidPointer address) else .ok b

def freeAt (h : Heap σ) (address : Nat) : Outcome σ Unit :=
  match h.findBlock address with
  | .error e => (.error e, h)
  | .ok b =>
    if b.free then (.error (.doubleFree address), h)
    else
      let released := releaseAt b.address h.blocks
      let (blocks, merges) := merge (takesIn h.regions) released
      let h := { h with
        blocks
        memory := mergeHeaders (takesIn h.regions) released (h.memory.setFree b.address true)
        counters := { h.counters with
          frees := h.counters.frees + 1
          merges := h.counters.merges + merges } }
      (.ok (), h.note (.freed address merges))

def free (h : Heap σ) : Option Nat → Outcome σ Unit
  | none => (.ok (), h)
  | some address => h.freeAt address

def relocate (h : Heap σ) (address kept size : Nat) : Outcome σ (Option Nat) :=
  match h.allocate size with
  | (.error e, h) => (.error e, h)
  | (.ok p, h) =>
    match { h with memory := h.memory.copy p address (min kept size) }.freeAt address with
    | (.error e, h) => (.error e, h)
    | (.ok (), h) => (.ok (some p), h.note (.moved address size p))

/-- Resize an allocation of nonzero size. It stays where it is as long as its
block is large enough. -/
def resizeAt (h : Heap σ) (address size : Nat) : Outcome σ (Option Nat) :=
  match h.findLive address with
  | .error e => (.error e, h)
  | .ok b =>
    let h := { h with counters := { h.counters with resizes := h.counters.resizes + 1 } }
    if size ≤ b.capacity then
      let h := { h with counters :=
        { h.counters with resizedInPlace := h.counters.resizedInPlace + 1 } }
      (.ok (some address), h.note (.kept address size))
    else h.relocate address b.capacity size

def resize (h : Heap σ) (address : Option Nat) (size : Nat) : Outcome σ (Option Nat) :=
  match address with
  | none =>
    match h.allocate size with
    | (.error e, h) => (.error e, h)
    | (.ok p, h) => (.ok (some p), h)
  | some address =>
    if size = 0 then
      match h.freeAt address with
      | (.error e, h) => (.error e, h)
      | (.ok (), h) => (.ok none, h)
    else h.resizeAt address size

def capacity (h : Heap σ) (address : Nat) : Except HeapError Nat :=
  match h.findLive address with
  | .error e => .error e
  | .ok b => .ok b.capacity

def payload (h : Heap σ) (address : Nat) : Except HeapError Bytes :=
  match h.capacity address with
  | .error e => .error e
  | .ok n => .ok (h.memory.read address n)

def readAt (h : Heap σ) (address place n : Nat) : Except HeapError (Option Bytes) :=
  match h.capacity address with
  | .error e => .error e
  | .ok room => .ok (if place + n ≤ room then some (h.memory.read (address + place) n) else none)

def writeAt (h : Heap σ) (address place : Nat) (s : Bytes) : Outcome σ Bool :=
  match h.capacity address with
  | .error e => (.error e, h)
  | .ok room =>
    if place + s.length ≤ room then
      (.ok true, { h with memory := h.memory.write (address + place) s })
    else (.ok false, h)

def duplicateUpTo (h : Heap σ) (s : Bytes) (n : Nat) : Outcome σ Nat :=
  let s := (Bytes.text s).take n
  match h.allocate (s.length + 1) with
  | (.error e, h) => (.error e, h)
  | (.ok p, h) =>
    match h.capacity p with
    | .error e => (.error e, h)
    | .ok _ => (.ok p, { h with memory := h.memory.write p (s ++ [0]) })

def duplicate (h : Heap σ) (s : Bytes) : Outcome σ Nat := h.duplicateUpTo s (Bytes.textLength s)

end Freestanding.Heap
