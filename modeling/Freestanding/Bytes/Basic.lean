/-!
# Byte strings

A byte string is a list of bytes. Its text is what stands before the first
NUL, or all of it when there is none; routines on text never look further.
-/

set_option autoImplicit false

namespace Freestanding

abbrev Bytes := List UInt8

namespace Bytes

def ofAscii (s : String) : Bytes := s.toList.map Char.toUInt8

def ofString (s : String) : Bytes := s.toUTF8.data.toList

def toChar (c : UInt8) : Char := Char.ofNat c.toNat

/-- What stands before the first NUL. -/
def text (s : Bytes) : Bytes := s.takeWhile (· != 0)

theorem ne_zero_of_mem_text {s : Bytes} {c : UInt8} (h : c ∈ text s) : c ≠ 0 := by
  simpa using List.all_eq_true.mp List.all_takeWhile c h

theorem text_append {s : Bytes} (h : ∀ c ∈ s, c ≠ 0) (t : Bytes) :
    text (s ++ t) = s ++ text t :=
  List.takeWhile_append_of_pos fun c hc => by simpa using h c hc

theorem text_eq_self {s : Bytes} (h : ∀ c ∈ s, c ≠ 0) : text s = s := by
  simpa [text] using text_append h []

def textLength (s : Bytes) : Nat := (text s).length

def isBlank (c : UInt8) : Bool := c == 32 || (9 ≤ c && c ≤ 13)

def blanks (s : Bytes) : Nat := (s.takeWhile isBlank).length

def isUpper (c : UInt8) : Bool := 65 ≤ c && c ≤ 90

def isLower (c : UInt8) : Bool := 97 ≤ c && c ≤ 122

def toLower (c : UInt8) : UInt8 := if isUpper c then c + 32 else c

def toUpper (c : UInt8) : UInt8 := if isLower c then c - 32 else c

end Bytes

end Freestanding
