import Freestanding.Binary64.Basic

/-!
# Square root

Newton's iteration from a start at or above the root. The estimates fall until
a step no longer lowers them. A step at least nearly halves an estimate far
above the root and doubles the right digits of one close to it, so the number
of steps is below the number of binary orders a double spans.
-/

set_option autoImplicit false

namespace Freestanding.Elementary

/-- More steps than any start needs. -/
def rootSteps : Nat := 2200

def improveRoot (x : Float) : Nat → Float → Float
  | 0, guess => guess
  | n + 1, guess =>
    let next := 0.5 * (guess + x / guess)
    if next ≥ guess then guess else improveRoot x n next

def sqrt (x : Float) : Float :=
  if x.isNaN || x < 0.0 then Binary64.nan
  else if x == 0.0 || x.isInf then x
  else improveRoot x rootSteps (if x > 1.0 then x else 1.0)

end Freestanding.Elementary
