import Freestanding.Binary64.Fixed
import Freestanding.Heap.Block
import Freestanding.Heap.Memory
import Freestanding.Heap.Store
import Freestanding.Log
import Freestanding.SystemError

/-!
# Heaps

A heap draws regions from a store and keeps the blocks that tile them. It
counts what it does and keeps a journal of it. Errors carry what is needed to
explain them.
-/

set_option autoImplicit false

namespace Freestanding.Heap

structure Config where
  increment : Nat := 4096
  limit : Option Nat := none
  fill : Option UInt8 := none
  deriving DecidableEq, Repr

/-- The configuration with its increment rounded up to a multiple of the
alignment; an increment that cannot be rounded gives way to the usual one. -/
def Config.normalise (c : Config) : Config :=
  { c with increment := (alignUp? (max c.increment alignment)).getD 4096 }

structure Counters where
  allocations : Nat := 0
  frees : Nat := 0
  resizes : Nat := 0
  resizedInPlace : Nat := 0
  growths : Nat := 0
  merges : Nat := 0
  failures : Nat := 0
  deriving DecidableEq, Repr

def Counters.toList (c : Counters) : List Nat :=
  [c.allocations, c.frees, c.resizes, c.resizedInPlace, c.growths, c.merges, c.failures]

structure Shortage where
  requested : Nat
  regions : Nat
  backingBytes : Nat
  freeBytes : Nat
  largestFree : Nat
  limit : Option Nat
  deriving DecidableEq, Repr

namespace Shortage

def fragmentation (s : Shortage) : Float :=
  if s.freeBytes = 0 then 0.0
  else (1.0 - Binary64.ofNat s.largestFree / Binary64.ofNat s.freeBytes) * 100.0

def message (s : Shortage) : String :=
  s!"failed to allocate {s.requested} bytes | heap: {s.backingBytes} bytes in {s.regions} regions, "
    ++ s!"{s.freeBytes} free (largest {s.largestFree}), "
    ++ Binary64.fixed 1 s.fragmentation ++ "% fragmented"
    ++ match s.limit with
      | some limit => s!" | limit: {limit} bytes"
      | none => " | no limit"

end Shortage

inductive Defect
  | outsideRegions (address : Nat)
  | badSize (address size : Nat)
  | misplaced (address : Nat)
  | outOfOrder (address : Nat)
  | adjacentFree (first second : Nat)
  | uncovered (start covered size : Nat)
  deriving DecidableEq, Repr

def Defect.message : Defect → String
  | outsideRegions address => "block " ++ Text.hex address ++ " lies outside every region"
  | badSize address size => "block " ++ Text.hex address ++ s!" has bad size {size}"
  | misplaced address => "block " ++ Text.hex address ++ " does not follow its predecessor"
  | outOfOrder address => "chain out of address order at " ++ Text.hex address
  | adjacentFree first second =>
    "adjacent free blocks at " ++ Text.hex first ++ " and " ++ Text.hex second
  | uncovered start covered size =>
    "region " ++ Text.hex start ++ s!" covers {covered} of {size} bytes"

inductive HeapError
  | outOfMemory (shortage : Shortage)
  | zeroSize
  | sizeOverflow (count size : Nat)
  | invalidPointer (address : Nat)
  | doubleFree (address : Nat)
  | corrupt (defect : Defect)
  deriving DecidableEq, Repr

namespace HeapError

def message : HeapError → String
  | outOfMemory shortage => "out of memory: " ++ shortage.message
  | zeroSize => "zero-sized allocation requested"
  | sizeOverflow count size => s!"allocation of {count} x {size} bytes overflows"
  | invalidPointer address =>
    "pointer " ++ Text.hex address ++ " was not allocated by this heap"
  | doubleFree address => "pointer " ++ Text.hex address ++ " freed twice"
  | corrupt defect => "heap corrupt: " ++ defect.message

def errno : HeapError → Nat
  | outOfMemory _ | sizeOverflow .. => SystemError.noMemory
  | zeroSize | corrupt _ => SystemError.invalid
  | invalidPointer _ | doubleFree _ => SystemError.badAddress

end HeapError

inductive Event
  | allocated (size address blockSize : Nat)
  | sizeOverflowed (size : Nat)
  | failed (size : Nat) (cause : HeapError)
  | refused (bytes : Nat) (cause : StoreError)
  | grew (bytes total regions acquired : Nat)
  | kept (address size : Nat)
  | moved (address size target : Nat)
  | freed (address merges : Nat)
  deriving DecidableEq, Repr

namespace Event

def severity : Event → Severity
  | allocated .. | kept .. | moved .. | freed .. => .trace
  | sizeOverflowed .. | failed .. | refused .. | grew .. => .debug

def message : Event → String
  | allocated size address blockSize =>
    s!"allocate {size} -> " ++ Text.hex address ++ s!" ({blockSize} byte block)"
  | sizeOverflowed size => s!"allocation of {size} bytes failed: size overflows"
  | failed size cause => s!"allocation of {size} bytes failed: " ++ cause.message
  | refused bytes cause => s!"backing store refused {bytes} bytes: " ++ cause.message
  | grew bytes total regions acquired =>
    s!"heap grew by {bytes} bytes for a {total} byte block "
      ++ s!"({regions} regions, {acquired} bytes)"
  | kept address size => "resize " ++ Text.hex address ++ s!" to {size} in place"
  | moved address size target =>
    "resize " ++ Text.hex address ++ s!" to {size} moved to " ++ Text.hex target
  | freed address merges => "free " ++ Text.hex address ++ s!" ({merges} merges)"

def entry (e : Event) : LogEntry := ⟨e.severity, e.message⟩

end Event

end Freestanding.Heap

namespace Freestanding

open Heap in
/-- A heap over a store. The journal has the latest event first. -/
structure Heap (σ : Type) where
  store : σ
  config : Config
  regions : List Region := []
  blocks : List Block := []
  memory : Memory := .blank
  counters : Counters := {}
  journal : List Event := []

namespace Heap

variable {σ : Type}

def empty (config : Config) (store : σ) : Heap σ := { store, config := config.normalise }

def note (h : Heap σ) (e : Event) : Heap σ := { h with journal := e :: h.journal }

def log (h : Heap σ) : List LogEntry := h.journal.reverse.map Event.entry

end Heap

end Freestanding
