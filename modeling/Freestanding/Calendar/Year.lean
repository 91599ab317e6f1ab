import Freestanding.SystemError

/-!
# Years and months

The Gregorian calendar, extended without end in both directions. Four hundred
years in a row always have the same number of days.
-/

set_option autoImplicit false

namespace Freestanding.Calendar

inductive TimeError
  | invalidMonth (month : Nat)
  | outOfRange
  deriving DecidableEq, Repr

namespace TimeError

def message : TimeError → String
  | invalidMonth month => s!"month {month} is outside 1 to 12"
  | outOfRange => "time is outside the representable range"

def errno : TimeError → Nat
  | invalidMonth _ => SystemError.invalid
  | outOfRange => SystemError.overflow

end TimeError

def isLeap (year : Int) : Bool := (year % 4 == 0 && year % 100 != 0) || year % 400 == 0

def daysInYear (year : Int) : Nat := if isLeap year then 366 else 365

def monthLengths (year : Int) : List Nat :=
  [31, if isLeap year then 29 else 28, 31, 30, 31, 30, 31, 31, 30, 31, 30, 31]

def daysInMonth (year : Int) (month : Nat) : Except TimeError Nat :=
  if month = 0 then .error (.invalidMonth month)
  else match (monthLengths year)[month - 1]? with
    | some days => .ok days
    | none => .error (.invalidMonth month)

def daysBeforeMonth (year : Int) (month : Nat) : Nat :=
  ((monthLengths year).take (month - 1)).foldl (· + ·) 0

def daysInCycle : Nat := 146097

def findYear (year : Int) (days : Nat) : Int × Nat :=
  if days < daysInYear year then (year, days) else findYear (year + 1) (days - daysInYear year)
termination_by days
decreasing_by
  have : 0 < daysInYear year := by unfold daysInYear; split <;> decide
  omega

/-- The month a day falls in, among the months of the given lengths numbered
from `month`, and its place in that month. The last month takes what is left. -/
def findMonth (month : Nat) : List Nat → Nat → Nat × Nat
  | length :: next :: lengths, days =>
    if days < length then (month, days) else findMonth (month + 1) (next :: lengths) (days - length)
  | _, days => (month, days)

end Freestanding.Calendar
