import Freestanding.Text.Printable
import Freestanding.Text.Column

/-!
# Quoted text

Text is shown between quotes with a backslash before what would not be read
back: the quote in use, the backslash, the usual blanks, and by its number
any character without a shape.
-/

set_option autoImplicit false

namespace Freestanding.Text

def escape (quote c : Char) : String :=
  if c = '\x00' then "\\0"
  else if c = '\t' then "\\t"
  else if c = '\r' then "\\r"
  else if c = '\n' then "\\n"
  else if c = '\\' ∨ c = quote then String.ofList ['\\', c]
  else if isPrintable c then String.singleton c
  else "\\u\x7b" ++ hexDigits c.toNat ++ "\x7d"

def quoted (cs : List Char) : String := "\"" ++ String.join (cs.map (escape '"')) ++ "\""

def quotedChar (c : Char) : String := "'" ++ escape '\'' c ++ "'"

end Freestanding.Text
