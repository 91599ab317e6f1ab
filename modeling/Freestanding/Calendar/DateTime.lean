import Freestanding.Calendar.Year
import Freestanding.Text.Column
import Freestanding.Word

/-!
# Dates and times

A date and time is broken into fields. Seconds are counted from the start of
1970; every count has its fields, and fields give back a count when it fits a
long. Days and times beyond their month or day are carried over linearly.
-/

set_option autoImplicit false

namespace Freestanding.Calendar

structure DateTime where
  year : Int
  /-- From one. -/
  month : Nat
  /-- From one. -/
  day : Nat
  hour : Nat
  minute : Nat
  second : Nat
  /-- From Sunday, which is zero. -/
  weekday : Nat := 0
  /-- From the first of January, which is zero. -/
  yearday : Nat := 0
  /-- Daylight saving, which adds an hour to the count. -/
  dst : Bool := false
  deriving DecidableEq, Repr

namespace DateTime

/-- The fields of a count of seconds. Whole cycles of four hundred years are
split off first. -/
def ofEpoch (seconds : Int) : DateTime :=
  let days := seconds / 86400
  let time := (seconds % 86400).toNat
  let cycles := days / daysInCycle
  let (year, yearday) := findYear (1970 + cycles * 400) (days % daysInCycle).toNat
  let (month, day) := findMonth 1 (monthLengths year) yearday
  { year := year
    month := month
    day := day + 1
    hour := time / 3600
    minute := time % 3600 / 60
    second := time % 60
    weekday := ((days + 4) % 7).toNat
    yearday := yearday }

def addYears? (year : Int) : Nat → Int → Option Int
  | 0, days => some days
  | n + 1, days => (long? (days + daysInYear year)).bind (addYears? (year + 1) n)

def dayNumber? (t : DateTime) : Option Int := do
  let years ← long? (t.year - 1970)
  let cycles := years / 400
  let days ← long? (cycles * daysInCycle)
  let days ← addYears? (1970 + cycles * 400) (years % 400).toNat days
  let days ← long? (days + daysBeforeMonth t.year t.month)
  long? (days + ((t.day : Int) - 1))

def timeOfDay (t : DateTime) : Int :=
  t.hour * 3600 + t.minute * 60 + t.second + if t.dst then 3600 else 0

/-- The count of seconds for fields. Weekday and day of the year play no part. -/
def toEpoch (t : DateTime) : Except TimeError Int :=
  if 1 ≤ t.month ∧ t.month ≤ 12 then
    match (t.dayNumber?.bind fun days => long? (days * 86400)).bind fun seconds =>
        long? (seconds + t.timeOfDay) with
    | some seconds => .ok seconds
    | none => .error .outOfRange
  else .error (.invalidMonth t.month)

def ofParts (year : Int) (month day hour minute second : Nat) : Except TimeError DateTime :=
  (toEpoch { year, month, day, hour, minute, second }).map ofEpoch

def zeroed (width : Nat) (i : Int) : List Char :=
  let digits := Nat.toDigits 10 i.natAbs
  if i < 0 then '-' :: List.replicate (width - 1 - digits.length) '0' ++ digits
  else List.replicate (width - digits.length) '0' ++ digits

def chars (t : DateTime) : List Char :=
  zeroed 4 t.year ++ '-' :: zeroed 2 t.month ++ '-' :: zeroed 2 t.day ++
    'T' :: zeroed 2 t.hour ++ ':' :: zeroed 2 t.minute ++ ':' :: zeroed 2 t.second

def text (t : DateTime) : String := String.ofList t.chars

def weekdayNames : List String :=
  ["Sunday", "Monday", "Tuesday", "Wednesday", "Thursday", "Friday", "Saturday"]

def monthNames : List String :=
  ["January", "February", "March", "April", "May", "June", "July", "August", "September",
    "October", "November", "December"]

def weekdayName (t : DateTime) : String := weekdayNames.getD (t.weekday % 7) ""

def monthName (t : DateTime) : String := monthNames.getD ((t.month + 11) % 12) ""

def abbreviation (name : String) : String := String.ofList (name.toList.take 3)

def weekdayShort (t : DateTime) : String := abbreviation t.weekdayName

def monthShort (t : DateTime) : String := abbreviation t.monthName

end DateTime

end Freestanding.Calendar
