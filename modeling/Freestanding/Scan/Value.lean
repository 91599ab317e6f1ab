import Freestanding.Binary64.Shortest
import Freestanding.Text.Quoted
import Freestanding.Text.Utf8

/-!
# Scanned values

What a field of scanned text converts to, and how it is shown: numbers plain,
characters and texts quoted.
-/

set_option autoImplicit false

namespace Freestanding.Scan

inductive Value
  | int (value : Int64)
  | uint (value : UInt64)
  | real (value : Float)
  | char (value : UInt8)
  | text (value : Bytes)

def Value.show : Value → String
  | int i => toString i.toInt
  | uint u => toString u.toNat
  | real x => Binary64.plain x
  | char c => Text.quotedChar (Bytes.toChar c)
  | text s => Text.quoted (Utf8.decode s)

end Freestanding.Scan
