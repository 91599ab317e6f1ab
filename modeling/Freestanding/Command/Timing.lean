import Freestanding.Heap.Stats

/-!
# Run statistics

The time each command took, in the order they were first recorded, and the
state of the heap if one was used.
-/

set_option autoImplicit false

namespace Freestanding

structure Timings where
  entries : List (String × Nat) := []
  deriving DecidableEq, Repr

namespace Timings

def record (t : Timings) (name : String) (nanoseconds : Nat) : Timings :=
  if t.entries.any (·.1 == name) then
    ⟨t.entries.map fun e => if e.1 == name then (name, nanoseconds) else e⟩
  else ⟨t.entries ++ [(name, nanoseconds)]⟩

def get? (t : Timings) (name : String) : Option Nat := t.entries.lookup name

def isEmpty (t : Timings) : Bool := t.entries.isEmpty

def seconds (nanoseconds : Nat) : Float :=
  Binary64.ofNat (nanoseconds / 1000000000)
    + Binary64.ofNat (nanoseconds % 1000000000) / 1000000000.0

def nameWidth (t : Timings) : Nat := t.entries.foldl (fun w e => max w e.1.utf8ByteSize) 0 + 1

def text (t : Timings) : String :=
  String.join (t.entries.map fun e =>
    Text.padRight t.nameWidth e.1 ++ ": "
      ++ Text.padLeft ' ' 14 (Binary64.fixed 9 (seconds e.2)) ++ "s\n")

end Timings

structure RunStatistics where
  heap : Option Heap.Stats := none
  timings : Timings := {}
  deriving DecidableEq, Repr

def RunStatistics.text (s : RunStatistics) : String :=
  s.heap.elim "" (fun h => h.text ++ "\n") ++ s.timings.text ++ "\n"

end Freestanding
