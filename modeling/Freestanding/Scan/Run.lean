import Freestanding.Scan.Item
import Freestanding.Scan.Field
import Freestanding.Log

/-!
# Scanning

The items of a specification are matched against the text from left to right.
Blanks match any run of blanks, literals match themselves, and every
conversion but that of characters skips blanks first. The first mismatch or
failed conversion ends the scan with the values found so far.
-/

set_option autoImplicit false

namespace Freestanding.Scan

inductive Event
  | expected (offset : Nat) (c : UInt8)
  | nothingConverted (offset : Nat) (letter : UInt8)
  | unknownLetter (letter : UInt8)
  deriving DecidableEq, Repr

namespace Event

def message : Event → String
  | expected offset c =>
    s!"scan stopped at offset {offset}: expected " ++ Text.quotedChar (Bytes.toChar c)
  | nothingConverted offset letter =>
    s!"scan stopped at offset {offset}: %{Bytes.toChar letter} converted nothing"
  | unknownLetter letter => s!"scan skipped unknown directive %{Bytes.toChar letter}"

def entry (e : Event) : LogEntry := ⟨.trace, e.message⟩

end Event

/-- What an item does: use up bytes of the text, perhaps with a value or a
report, or end the scan. -/
inductive Step
  | go (used : Nat) (value : Option Value) (note : Option Event)
  | stop (note : Event)

def literalStep (c : UInt8) (offset skipped : Nat) (rest : Bytes) : Step :=
  if (rest.drop skipped).head? = some c then .go (skipped + 1) none none
  else .stop (.expected (offset + skipped) c)

def charLetter : UInt8 := 99

/-- How far a field may reach. Without a width a character field has one byte
and any other the whole rest. -/
def reach (width : Nat) (letter : UInt8) (rest : Bytes) : Nat :=
  if width = 0 then (if letter = charLetter then 1 else rest.length) else width

def fieldStep (suppress : Bool) (width : Nat) (letter : UInt8) (offset : Nat) (rest : Bytes) :
    Step :=
  let skipped := if letter = charLetter then 0 else Bytes.blanks rest
  let rest := rest.drop skipped
  let width := reach width letter rest
  match convert? letter width (rest.take width) with
  | none => .go skipped none (some (.unknownLetter letter))
  | some none => .stop (.nothingConverted (offset + skipped) letter)
  | some (some (value, used)) =>
    .go (skipped + used) (if suppress then none else some value) none

def Item.step (offset : Nat) (rest : Bytes) : Item → Step
  | blank => .go (Bytes.blanks rest) none none
  | literal c => literalStep c offset 0 rest
  | percent => literalStep 37 offset (Bytes.blanks rest) rest
  | field suppress width letter => fieldStep suppress width letter offset rest

structure Result where
  values : List Value
  events : List Event

def scanItems (offset : Nat) (rest : Bytes) : List Item → Result
  | [] => ⟨[], []⟩
  | i :: is =>
    match i.step offset rest with
    | .stop note => ⟨[], [note]⟩
    | .go used value note =>
      let r := scanItems (offset + used) (rest.drop used) is
      ⟨value.toList ++ r.values, note.toList ++ r.events⟩

def run (text spec : Bytes) : Result :=
  scanItems 0 (Bytes.text text) (items (Bytes.text spec))

def scan (text spec : Bytes) : List Value := (run text spec).values

end Freestanding.Scan
