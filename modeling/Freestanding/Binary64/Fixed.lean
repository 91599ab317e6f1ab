import Freestanding.Binary64.Nearest
import Freestanding.Text.Column

/-!
# Fixed places

A finite double with a given number of places behind the point. The exact
value is rounded to the nearest such decimal, a tie going to the even one.
-/

set_option autoImplicit false

namespace Freestanding.Binary64

def fixed (places : Nat) (x : Float) : String :=
  let scaled := roundRatio ((ratio x).1 * Nat.pow 10 places) (ratio x).2
  let digits := Text.padLeft '0' (places + 1) (toString scaled) |>.toList
  let whole := digits.length - places
  let sign := if isNegative x then "-" else ""
  sign ++ String.ofList (digits.take whole ++ '.' :: digits.drop whole)

end Freestanding.Binary64
