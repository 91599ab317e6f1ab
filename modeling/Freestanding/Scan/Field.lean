import Freestanding.Numeral.Real
import Freestanding.Scan.Value

/-!
# Fields of scanned text

A field is the part of the text that a directive may look at. Converting it
gives a value and the number of bytes used, or nothing. Letters that name no
conversion are told apart from conversions that fail.
-/

set_option autoImplicit false

namespace Freestanding.Scan

abbrev Converted := Option (Value × Nat)

def signedField (base : Nat) (s : Bytes) : Converted :=
  match Numeral.parseSigned .bits64 base s with
  | .ok p => if p.converted then some (.int (Int64.ofInt p.value), p.rest) else none
  | .error _ => none

def unsignedField (base : Nat) (s : Bytes) : Converted :=
  match Numeral.parseUnsigned .bits64 base s with
  | .ok p => if p.converted then some (.uint (UInt64.ofNat p.value), p.rest) else none
  | .error _ => none

def realField (s : Bytes) : Converted :=
  let p := Numeral.parseReal s
  if p.converted then some (.real p.value, p.rest) else none

def wordField (s : Bytes) : Converted :=
  let word := s.takeWhile fun c => !Bytes.isBlank c
  if word = [] then none else some (.text word, word.length)

def charField (width : Nat) (s : Bytes) : Converted :=
  if s.length < width then none
  else match s with
    | [] => none
    | [c] => some (.char c, 1)
    | s => some (.text s, s.length)

def convert? (letter : UInt8) (width : Nat) (s : Bytes) : Option Converted :=
  if letter = 100 then some (signedField 10 s)
  else if letter = 105 then some (signedField 0 s)
  else if letter = 117 then some (unsignedField 10 s)
  else if letter = 111 then some (unsignedField 8 s)
  else if letter = 120 ∨ letter = 88 then some (unsignedField 16 s)
  else if (Bytes.ofAscii "fFeEgG").contains letter then some (realField s)
  else if letter = 115 then some (wordField s)
  else if letter = 99 then some (charField width s)
  else none

end Freestanding.Scan
