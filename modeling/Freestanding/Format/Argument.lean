import Freestanding.Format.Directive
import Freestanding.SystemError

/-!
# Arguments

Arguments carry their kind. A directive takes the kinds that suit its
conversion and reduces integers to its length; any other kind, or no argument
at all, is an error that names the argument and the directive.
-/

set_option autoImplicit false

namespace Freestanding.Format

inductive Argument
  | int (value : Int64)
  | uint (value : UInt64)
  | real (value : Float)
  | char (value : UInt8)
  | text (value : Option Bytes)
  | pointer (value : UInt64)

def Argument.kind : Argument → String
  | int _ => "integer"
  | uint _ => "unsigned"
  | real _ => "float"
  | char _ => "char"
  | text _ => "string"
  | pointer _ => "pointer"

inductive FormatError
  | missingArgument (index : Nat) (letter : UInt8)
  | argumentMismatch (index : Nat) (letter : UInt8) (found : String)
  | fieldTooWide (letter : UInt8) (requested : Nat)
  deriving DecidableEq, Repr

namespace FormatError

def message : FormatError → String
  | missingArgument index letter =>
    s!"no argument {index} for directive %{Bytes.toChar letter}"
  | argumentMismatch index letter found =>
    s!"argument {index} is a {found}, which does not suit %{Bytes.toChar letter}"
  | fieldTooWide letter requested =>
    s!"width or precision {requested} of %{Bytes.toChar letter} is too large"

def errno : FormatError → Nat
  | fieldTooWide .. => SystemError.overflow
  | _ => SystemError.invalid

end FormatError

def Length.signed (l : Length) (i : Int) : Int :=
  match l with
  | int => i.bmod 4294967296
  | char => i.bmod 256
  | short => i.bmod 65536
  | _ => i

def Length.unsigned (l : Length) (n : Nat) : Nat :=
  match l with
  | int => n % 4294967296
  | char => n % 256
  | short => n % 65536
  | _ => n

namespace Argument

def signed? : Argument → Option Int
  | int i => some i.toInt
  | uint u => some u.toInt64.toInt
  | char c => some c.toNat
  | _ => none

def unsigned? : Argument → Option Nat
  | uint u => some u.toNat
  | int i => some i.toUInt64.toNat
  | char c => some c.toNat
  | pointer p => some p.toNat
  | _ => none

def real? : Argument → Option Float
  | real x => some x
  | _ => none

def char? : Argument → Option UInt8
  | char c => some c
  | int i => some i.toUInt64.toUInt8
  | uint u => some u.toUInt8
  | _ => none

def text? : Argument → Option (Option Bytes)
  | text s => some s
  | _ => none

def pointer? : Argument → Option Nat
  | pointer p => some p.toNat
  | uint u => some u.toNat
  | _ => none

end Argument

end Freestanding.Format
