import Freestanding.Format.Directive

/-!
# Scan specifications

A specification is read into items: a blank, a literal byte, or a directive
with an optional star, width and length and a conversion letter. A directive
without its letter ends the specification there.
-/

set_option autoImplicit false

namespace Freestanding.Scan

inductive Item
  | blank
  | literal (c : UInt8)
  | percent
  /-- A field to convert; with `suppress` its value is dropped. Width zero
  means none was given. -/
  | field (suppress : Bool) (width : Nat) (letter : UInt8)
  deriving DecidableEq, Repr

def readStar : Bytes → Bool × Bytes
  | 42 :: s => (true, s)
  | s => (false, s)

def readOpening (s : Bytes) : (Bool × Nat) × Bytes :=
  let star := readStar s
  let width := Format.readWidth star.2
  ((star.1, width.1), (Format.readLength width.2).2)

def readItem? (s : Bytes) : Option (Item × Bytes) :=
  match (readOpening s).2 with
  | [] => none
  | c :: rest =>
    some (if c = 37 then .percent else .field (readOpening s).1.1 (readOpening s).1.2 c, rest)

theorem readStar_length (s : Bytes) : (readStar s).2.length ≤ s.length := by
  rw [readStar.eq_def]
  split <;> simp

theorem readOpening_length (s : Bytes) : (readOpening s).2.length ≤ s.length :=
  Nat.le_trans (Format.readLength_length _) <|
    Nat.le_trans (Format.readNumberFrom_length _ _) (readStar_length _)

theorem readItem?_length {s rest : Bytes} {i : Item} (h : readItem? s = some (i, rest)) :
    rest.length < s.length := by
  have ho := readOpening_length s
  unfold readItem? at h
  split at h
  · simp at h
  · rename_i heq
    simp only [Option.some.injEq, Prod.mk.injEq] at h
    rw [heq, h.2] at ho
    exact ho

def items : Bytes → List Item
  | [] => []
  | c :: s =>
    if Bytes.isBlank c then .blank :: items s
    else if c = 37 then
      match _h : readItem? s with
      | some (item, rest) => item :: items rest
      | none => []
    else .literal c :: items s
termination_by s => s.length
decreasing_by
  · simp only [List.length_cons]; omega
  · have := readItem?_length _h
    simp only [List.length_cons]; omega
  · simp only [List.length_cons]; omega

end Freestanding.Scan
