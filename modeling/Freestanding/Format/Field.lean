import Freestanding.Format.Argument
import Freestanding.Numeral.RealText

/-!
# Fields

A field is what one directive writes for its argument: a sign or mark of base
in front, the digits or text, and padding up to the width. Zeros pad between
the two, blanks around both.
-/

set_option autoImplicit false

namespace Freestanding.Format

def maxField : Nat := 65536

def padded (f : Flags) (width : Nat) (zeros : Bool) (front body : Bytes) : Bytes :=
  let fill := width - (front.length + body.length)
  if f.left then front ++ body ++ List.replicate fill 32
  else if zeros then front ++ List.replicate fill 48 ++ body
  else List.replicate fill 32 ++ front ++ body

def signText (f : Flags) (negative : Bool) : Bytes :=
  if negative then [45] else if f.plus then [43] else if f.space then [32] else []

def groupThousands : Bytes → Bytes
  | [] => []
  | d :: ds =>
    d :: if ds ≠ [] ∧ ds.length % 3 = 0 then 44 :: groupThousands ds else groupThousands ds

def Conversion.base : Conversion → Nat
  | octal => 8
  | hex _ => 16
  | _ => 10

def Conversion.isUpper : Conversion → Bool
  | hex upper => upper
  | real _ upper => upper
  | _ => false

/-- The digits of an integer field. Precision zero leaves none for zero;
otherwise zeros in front bring them up to the precision. -/
def integerDigits (d : Directive) (magnitude : Nat) : Bytes :=
  let digits :=
    if d.precision = some 0 ∧ magnitude = 0 then []
    else Numeral.natural d.conversion.base d.conversion.isUpper magnitude
  let digits :=
    if d.conversion.base = 10 ∧ d.flags.grouped then groupThousands digits else digits
  List.replicate (d.precision.getD 0 - digits.length) 48 ++ digits

def integerFront (d : Directive) (negative : Bool) (magnitude : Nat) (digits : Bytes) : Bytes :=
  match d.conversion with
  | .signed => signText d.flags negative
  | .octal => if d.flags.alternate ∧ digits.head? ≠ some 48 then [48] else []
  | .hex upper =>
    if d.flags.alternate ∧ magnitude ≠ 0 then [48, if upper then 88 else 120] else []
  | _ => []

def integerField (d : Directive) (negative : Bool) (magnitude : Nat) : Bytes :=
  let digits := integerDigits d magnitude
  padded d.flags d.width (d.flags.zero && d.precision.isNone)
    (integerFront d negative magnitude digits) digits

def insertPoint (body : Bytes) : Bytes :=
  let mantissa := body.takeWhile fun c => c != 101 && c != 69
  mantissa ++ 46 :: body.drop mantissa.length

def realBody (style : RealStyle) (upper : Bool) (places : Nat) (x : Float) : Bytes :=
  match style with
  | .scientific => Numeral.scientificText (Elementary.magnitude x) places upper
  | _ =>
    let body := Numeral.fixedText (Elementary.magnitude x) places
    if upper then body.map Bytes.toUpper else body

def realField (d : Directive) (style : RealStyle) (upper : Bool) (x : Float) : Bytes :=
  let places := d.precision.getD 6
  let negative := Numeral.isBelowZero x && !x.isNaN
  let body := realBody style upper places x
  let body := if x.isFinite ∧ places = 0 ∧ d.flags.alternate then insertPoint body else body
  padded d.flags d.width (x.isFinite && d.flags.zero) (signText d.flags negative) body

def charField (d : Directive) (c : UInt8) : Bytes := padded d.flags d.width false [] [c]

def textField (d : Directive) (s : Option Bytes) : Bytes :=
  let s := Bytes.text (s.getD (Bytes.ofAscii "(null)"))
  padded d.flags d.width false [] (d.precision.elim s s.take)

def pointerField (d : Directive) (address : Nat) : Bytes :=
  let digits := Numeral.natural 16 false address
  padded d.flags d.width false [48, 120] (List.replicate (16 - digits.length) 48 ++ digits)

def Directive.requested (d : Directive) : Nat := max d.width (d.precision.getD 0)

def Directive.takesArgument (d : Directive) : Bool := d.conversion != .percent

def Directive.field? (d : Directive) (a : Argument) : Option Bytes :=
  match d.conversion with
  | .signed => a.signed?.map fun i =>
      let i := d.length.signed i
      integerField d (i < 0) i.natAbs
  | .unsigned | .octal | .hex _ => a.unsigned?.map fun n =>
      integerField d false (d.length.unsigned n)
  | .real style upper => a.real?.map (realField d style upper)
  | .char => a.char?.map (charField d)
  | .text => a.text?.map (textField d)
  | .pointer => a.pointer?.map (pointerField d)
  | .percent => some [37]

end Freestanding.Format
