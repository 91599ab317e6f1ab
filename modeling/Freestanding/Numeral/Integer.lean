import Freestanding.Numeral.Digit
import Freestanding.SystemError

/-!
# Reading integers

A numeral is blanks, a sign, an optional mark of base sixteen and digits. The
value is exact while it fits its type. The digit that would leave the type
stops the reading: the value is then the bound on that side and the digit is
the first byte not consumed.
-/

set_option autoImplicit false

namespace Freestanding.Numeral

/-- The outcome of reading a number: its value, how many bytes were consumed
(none when nothing was a number) and whether the value was clamped. -/
structure Parsed (α : Type) where
  value : α
  rest : Nat
  overflowed : Bool
  deriving DecidableEq, Repr

namespace Parsed

variable {α : Type}

def errno (p : Parsed α) : Nat := if p.overflowed then SystemError.outOfRange else 0

def converted (p : Parsed α) : Bool := 0 < p.rest

end Parsed

inductive ConversionError
  | invalidBase (base : Nat)
  deriving DecidableEq, Repr

namespace ConversionError

def message : ConversionError → String
  | invalidBase base => s!"invalid base {base} (expected 0 or 2 to 36)"

def errno : ConversionError → Nat
  | invalidBase _ => SystemError.invalid

end ConversionError

inductive Width
  | bits8 | bits16 | bits32 | bits64
  deriving DecidableEq, Repr

namespace Width

def count : Width → Nat
  | bits8 => 256
  | bits16 => 65536
  | bits32 => 4294967296
  | bits64 => 18446744073709551616

def signedBound (w : Width) (negative : Bool) : Nat :=
  if negative then w.count / 2 else w.count / 2 - 1

def unsignedBound (w : Width) : Nat := w.count - 1

end Width

structure Opening where
  negative : Bool
  base : Nat
  offset : Nat
  deriving DecidableEq, Repr

def sign : Bytes → Bool × Nat
  | 45 :: _ => (true, 1)
  | 43 :: _ => (false, 1)
  | _ => (false, 0)

def marksSixteen : Bytes → Bool
  | 48 :: x :: d :: _ => (x == 120 || x == 88) && (digitIn? 16 d).isSome
  | _ => false

def opening (base : Nat) (s : Bytes) : Opening :=
  let blank := Bytes.blanks s
  let (negative, signed) := sign (s.drop blank)
  let start := blank + signed
  let rest := s.drop start
  if (base = 0 ∨ base = 16) ∧ marksSixteen rest then ⟨negative, 16, start + 2⟩
  else if base = 0 then ⟨negative, if rest.head? = some 48 then 8 else 10, start⟩
  else ⟨negative, base, start⟩

/-- Whether the digit `d` behind `value` would take it past `limit`, told by a
quotient so that nothing larger than the limit is computed. -/
def Exceeds (base limit value d : Nat) : Prop := (limit - min d limit) / base < value ∨ limit < d

instance (base limit value d : Nat) : Decidable (Exceeds base limit value d) :=
  inferInstanceAs (Decidable (_ ∨ _))

/-- Digits read onto `value` while the result stays within `limit`: the value,
the number of digits read and whether a digit was refused. -/
def accumulate (base limit : Nat) (value : Nat) : Bytes → Nat × Nat × Bool
  | [] => (value, 0, false)
  | c :: s =>
    match digitIn? base c with
    | none => (value, 0, false)
    | some d =>
      if Exceeds base limit value d then (limit, 0, true)
      else
        let (v, n, refused) := accumulate base limit (value * base + d) s
        (v, n + 1, refused)

structure Magnitude where
  negative : Bool
  value : Nat
  rest : Nat
  overflowed : Bool
  deriving DecidableEq, Repr

def magnitude (base : Nat) (limit : Bool → Nat) (s : Bytes) :
    Except ConversionError Magnitude :=
  if base = 1 ∨ 36 < base then .error (.invalidBase base)
  else
    let o := opening base s
    let (value, n, overflowed) := accumulate o.base (limit o.negative) 0 (s.drop o.offset)
    if n = 0 ∧ overflowed = false then .ok ⟨false, 0, 0, false⟩
    else .ok ⟨o.negative, value, o.offset + n, overflowed⟩

def parseSigned (w : Width) (base : Nat) (s : Bytes) : Except ConversionError (Parsed Int) :=
  (magnitude base w.signedBound s).map fun m =>
    ⟨if m.negative then -(m.value : Int) else m.value, m.rest, m.overflowed⟩

/-- Read an unsigned integer. A minus negates modulo the width, unless the
value was clamped. -/
def parseUnsigned (w : Width) (base : Nat) (s : Bytes) : Except ConversionError (Parsed Nat) :=
  (magnitude base (fun _ => w.unsignedBound) s).map fun m =>
    ⟨if m.negative && !m.overflowed then (w.count - m.value) % w.count else m.value,
      m.rest, m.overflowed⟩

def leadingInteger (w : Width) (s : Bytes) : Int :=
  match parseSigned w 10 s with
  | .ok p => p.value
  | .error _ => 0

end Freestanding.Numeral
