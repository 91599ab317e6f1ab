/-!
# Columns of text

Numbers stand at the right of their column and words at the left; widths
count characters. Hexadecimal numbers use small letters.
-/

set_option autoImplicit false

namespace Freestanding.Text

def padLeft (c : Char) (width : Nat) (s : String) : String :=
  String.ofList (List.replicate (width - s.length) c ++ s.toList)

def padRight (width : Nat) (s : String) : String :=
  String.ofList (s.toList ++ List.replicate (width - s.length) ' ')

def right (width n : Nat) : String := padLeft ' ' width (toString n)

def hexDigits (n : Nat) : String := String.ofList (Nat.toDigits 16 n)

def hex (n : Nat) : String := "0x" ++ hexDigits n

def hexWide (n : Nat) : String := "0x" ++ padLeft '0' 16 (hexDigits n)

end Freestanding.Text
