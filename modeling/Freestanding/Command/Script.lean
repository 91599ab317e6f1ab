import Freestanding.Command.Basic
import Freestanding.Heap.Arena
import Freestanding.Heap.Check
import Freestanding.Heap.Operations
import Freestanding.Text.DecimalDigit
import Freestanding.Text.Number

/-!
# Heap scripts

A script is a sequence of heap operations. Each allocation gets the next
handle. A handle keeps its address when it is freed, so that using it again
reaches the heap, which refuses an address that stands for no allocation.
-/

set_option autoImplicit false

namespace Freestanding.Script

inductive Shape
  | allocate (size : List Char)
  | zeroed (count size : List Char)
  | resize (index size : List Char)
  | free (index : List Char)
  deriving DecidableEq, Repr

def isDigits (cs : List Char) : Bool := !cs.isEmpty && cs.all Text.isDecimalDigit

def splitDigits? (separator : Char) (cs : List Char) : Option (List Char × List Char) :=
  let first := cs.takeWhile Text.isDecimalDigit
  match cs.drop first.length with
  | c :: second =>
    if c = separator ∧ isDigits first ∧ isDigits second then some (first, second) else none
  | [] => none

/-- Read an operation: `aN`, `zCxS`, `rI:N` or `fI`. Assumed of the pattern
`^(?:a(\d+)|z(\d+)x(\d+)|r(\d+):(\d+)|f(\d+))$`: it is met exactly by the texts
read here, `\d` being any decimal digit, and it captures these numbers. -/
def Shape.read? : List Char → Option Shape
  | 'a' :: cs => if isDigits cs then some (allocate cs) else none
  | 'z' :: cs => (splitDigits? 'x' cs).map fun p => zeroed p.1 p.2
  | 'r' :: cs => (splitDigits? ':' cs).map fun p => resize p.1 p.2
  | 'f' :: cs => if isDigits cs then some (free cs) else none
  | _ => none

inductive Op
  | allocate (size : Nat)
  | zeroed (count size : Nat)
  | resize (index address size : Nat)
  | free (index address : Nat)
  deriving DecidableEq, Repr

/-- A heap over some store, and the handles given out so far. -/
structure Session (σ : Type) where
  heap : Heap σ
  handles : List Nat := []

def number (cs : List Char) : Except CommandError Nat :=
  match Text.natural? wordLimit cs with
  | some n => .ok n
  | none => .error (.badArgument (String.ofList cs))

variable {σ : Type}

def Session.handle (s : Session σ) (op : String) (index : Nat) : Except CommandError Nat :=
  match s.handles[index]? with
  | some address => .ok address
  | none => .error (.badArgument (op ++ s!": no allocation [{index}]"))

def Session.resolve (s : Session σ) (op : String) : Except CommandError Op :=
  match Shape.read? op.toList with
  | none => .error (.badArgument op)
  | some (.allocate size) => do return .allocate (← number size)
  | some (.zeroed count size) => do
    let count ← number count
    let size ← number size
    return .zeroed count size
  | some (.resize index size) => do
    let index ← number index
    let address ← s.handle op index
    let size ← number size
    return .resize index address size
  | some (.free index) => do
    let index ← number index
    let address ← s.handle op index
    return .free index address

inductive Done
  | allocated (index capacity : Nat)
  | resized (index capacity : Nat) (moved : Bool)
  | freed (index : Nat)
  deriving DecidableEq, Repr

def Done.text : Done → String
  | allocated index capacity => s!"[{index}] {capacity} bytes"
  | resized index capacity moved =>
    s!"[{index}] {capacity} bytes " ++ if moved then "moved" else "in place"
  | freed index => s!"[{index}] freed"

def Session.adopt (s : Session σ) (out : Heap.Outcome σ Nat) :
    Except Heap.HeapError Done × Session σ :=
  match out with
  | (.error e, heap) => (.error e, { s with heap })
  | (.ok address, heap) =>
    let s' : Session σ := ⟨heap, s.handles ++ [address]⟩
    match heap.capacity address with
    | .error e => (.error e, s')
    | .ok capacity => (.ok (.allocated s.handles.length capacity), s')

variable [Heap.Store σ]

def Session.apply (s : Session σ) : Op → Except Heap.HeapError Done × Session σ
  | .allocate size => s.adopt (s.heap.allocate size)
  | .zeroed count size => s.adopt (s.heap.allocateZeroed count size)
  | .resize index address size =>
    match s.heap.resize (some address) size with
    | (.error e, heap) => (.error e, { s with heap })
    | (.ok none, heap) => (.ok (.freed index), { s with heap })
    | (.ok (some target), heap) =>
      let s' : Session σ := ⟨heap, s.handles.set index target⟩
      match heap.capacity target with
      | .error e => (.error e, s')
      | .ok capacity => (.ok (.resized index capacity (target != address)), s')
  | .free index address =>
    match s.heap.free (some address) with
    | (.error e, heap) => (.error e, { s with heap })
    | (.ok (), heap) => (.ok (.freed index), { s with heap })

def Session.perform (s : Session σ) (op : String) : Except CommandError Done × Session σ :=
  match s.resolve op with
  | .error e => (.error e, s)
  | .ok o =>
    match s.apply o with
    | (.error e, s) => (.error (.heap e), s)
    | (.ok done, s) => (.ok done, s)

open Command

def run (s : Session σ) : List String → List Entry × Except CommandError Unit × Session σ
  | [] => ([], .ok (), s)
  | op :: ops =>
    let (answer, s) := { s with heap := { s.heap with journal := [] } }.perform op
    let logs := s.heap.log.map Entry.log
    match answer with
    | .error e => (logs, .error e, s)
    | .ok done =>
      let (entries, result) := run s ops
      (logs ++ .line (op ++ " -> " ++ done.text) :: entries, result)

def transcript (config : Heap.Config) (ops : List String) : Transcript :=
  let (entries, result, s) := run ⟨.empty config (Heap.Arena.unbounded config.limit), []⟩ ops
  match result with
  | .error e => .failure entries e
  | .ok () =>
    match s.heap.check with
    | .error e => .failure entries (.heap e)
    | .ok () =>
      { entries := entries ++ [.write (Bytes.ofString s.heap.mapText)]
        stats := some s.heap.stats }

end Freestanding.Script
