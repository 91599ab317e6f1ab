import Freestanding.Numeral.Digit
import Freestanding.Word

/-!
# Directives

A directive follows a percent sign: flags, a width, a precision behind a
point, a length and a conversion letter, all but the letter optional. Widths
and precisions too large for a machine word stay at its greatest value.
-/

set_option autoImplicit false

namespace Freestanding.Format

structure Flags where
  left : Bool := false
  plus : Bool := false
  space : Bool := false
  zero : Bool := false
  grouped : Bool := false
  alternate : Bool := false
  deriving DecidableEq, Repr

inductive Length
  | int | char | short | long | longLong | size | difference
  deriving DecidableEq, Repr

/-- The form of a real. The general form is the fixed one. -/
inductive RealStyle
  | fixed | scientific | general
  deriving DecidableEq, Repr

inductive Conversion
  | signed
  | unsigned
  | octal
  | hex (upper : Bool)
  | real (style : RealStyle) (upper : Bool)
  | text
  | char
  | pointer
  | percent
  deriving DecidableEq, Repr

structure Modifiers where
  flags : Flags := {}
  width : Nat := 0
  precision : Option Nat := none
  length : Length := .int
  deriving DecidableEq, Repr

structure Directive extends Modifiers where
  conversion : Conversion
  letter : UInt8
  deriving DecidableEq, Repr

def Flags.insert? (f : Flags) (c : UInt8) : Option Flags :=
  if c = 45 then some { f with left := true }
  else if c = 43 then some { f with plus := true }
  else if c = 32 then some { f with space := true }
  else if c = 48 then some { f with zero := true }
  else if c = 39 then some { f with grouped := true }
  else if c = 35 then some { f with alternate := true }
  else none

def readFlagsFrom (f : Flags) : Bytes → Flags × Bytes
  | [] => (f, [])
  | c :: s =>
    match f.insert? c with
    | some f => readFlagsFrom f s
    | none => (f, c :: s)

def readFlags (s : Bytes) : Flags × Bytes := readFlagsFrom {} s

def readNumberFrom (value : Nat) : Bytes → Nat × Bytes
  | [] => (value, [])
  | c :: s =>
    if Numeral.isDecimal c then
      readNumberFrom (min (value * 10 + Numeral.decimalValue c) (wordLimit - 1)) s
    else (value, c :: s)

def readWidth (s : Bytes) : Nat × Bytes := readNumberFrom 0 s

def readPrecision : Bytes → Option Nat × Bytes
  | 46 :: s => (some (readWidth s).1, (readWidth s).2)
  | s => (none, s)

def readLength : Bytes → Length × Bytes
  | 104 :: 104 :: s => (.char, s)
  | 104 :: s => (.short, s)
  | 108 :: 108 :: s => (.longLong, s)
  | 108 :: s => (.long, s)
  | 122 :: s => (.size, s)
  | 116 :: s => (.difference, s)
  | s => (.int, s)

def conversions : List (Char × Conversion) := [
  ('d', .signed), ('i', .signed), ('u', .unsigned), ('o', .octal),
  ('x', .hex false), ('X', .hex true),
  ('f', .real .fixed false), ('F', .real .fixed true),
  ('e', .real .scientific false), ('E', .real .scientific true),
  ('g', .real .general false), ('G', .real .general true),
  ('s', .text), ('c', .char), ('p', .pointer), ('%', .percent)]

def conversion? (c : UInt8) : Option Conversion :=
  (conversions.find? fun p => p.1.toUInt8 == c).map Prod.snd

def readModifiers (s : Bytes) : Modifiers × Bytes :=
  let f := readFlags s
  let w := readWidth f.2
  let p := readPrecision w.2
  let l := readLength p.2
  (⟨f.1, w.1, p.1, l.1⟩, l.2)

/-- Read the directive behind a percent sign; nothing when its letter is
missing or unknown. -/
def readDirective? (s : Bytes) : Option (Directive × Bytes) :=
  match (readModifiers s).2 with
  | [] => none
  | c :: rest =>
    (conversion? c).map fun k => (⟨(readModifiers s).1, k, c⟩, rest)

theorem readFlagsFrom_length (f : Flags) (s : Bytes) : (readFlagsFrom f s).2.length ≤ s.length := by
  induction s generalizing f with
  | nil => simp [readFlagsFrom]
  | cons c s ih =>
    rw [readFlagsFrom]
    split
    · exact Nat.le_succ_of_le (ih _)
    · exact Nat.le_refl _

theorem readNumberFrom_length (v : Nat) (s : Bytes) :
    (readNumberFrom v s).2.length ≤ s.length := by
  induction s generalizing v with
  | nil => simp [readNumberFrom]
  | cons c s ih =>
    rw [readNumberFrom]
    split
    · exact Nat.le_succ_of_le (ih _)
    · exact Nat.le_refl _

theorem readPrecision_length (s : Bytes) : (readPrecision s).2.length ≤ s.length := by
  rw [readPrecision.eq_def]
  split
  · exact Nat.le_succ_of_le (readNumberFrom_length _ _)
  · exact Nat.le_refl _

theorem readLength_length (s : Bytes) : (readLength s).2.length ≤ s.length := by
  rw [readLength.eq_def]
  split <;> simp [Nat.le_succ_of_le]

theorem readModifiers_length (s : Bytes) : (readModifiers s).2.length ≤ s.length :=
  Nat.le_trans (readLength_length _) <| Nat.le_trans (readPrecision_length _) <|
    Nat.le_trans (readNumberFrom_length _ _) (readFlagsFrom_length _ _)

theorem readDirective?_length {s rest : Bytes} {d : Directive}
    (h : readDirective? s = some (d, rest)) : rest.length < s.length := by
  have hm := readModifiers_length s
  unfold readDirective? at h
  split at h
  · simp at h
  · rename_i heq
    obtain ⟨k, -, hk⟩ := Option.map_eq_some_iff.1 h
    simp only [Prod.mk.injEq] at hk
    rw [heq, hk.2] at hm
    exact hm

end Freestanding.Format
