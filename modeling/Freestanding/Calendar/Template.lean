import Freestanding.Calendar.DateTime
import Freestanding.Format.Template

/-!
# Dates and times by template

A percent sign and a letter stand for fields of a date and time, which are
handed to the formatter with a template of its own; other letters stand for
themselves. Fields are words of thirty-two bits, and sums and differences of
them wrap around.
-/

set_option autoImplicit false

namespace Freestanding.Calendar

open Format (Argument FormatError)

def number (n : UInt32) : Argument := .uint n.toUInt64

def long (i : Int) : Argument := .int (Int64.ofInt i)

def name (s : String) : Argument := .text (some (Bytes.ofAscii s))

def twelveHour (hour : UInt32) : UInt32 := if hour % 12 = 0 then 12 else hour % 12

/-- Weeks begun since the start of the year, for weeks that start on the day
`since` days ago. -/
def weekNumber (yearday since : UInt32) : UInt32 := (yearday + 7 - since) / 7

namespace DateTime

def clock (t : DateTime) : List Argument :=
  [number t.hour.toUInt32, number t.minute.toUInt32, number t.second.toUInt32]

def shortDate (t : DateTime) : List Argument :=
  [number t.month.toUInt32, number t.day.toUInt32, long t.year]

def fullDate (t : DateTime) : List Argument :=
  [name t.weekdayShort, name t.monthShort, number t.day.toUInt32] ++ t.clock ++ [long t.year]

end DateTime

def put (template : String) (args : List Argument) : Except FormatError Bytes :=
  Format.format (Bytes.ofAscii template) args

def expand (t : DateTime) (letter : UInt8) : Except FormatError Bytes :=
  let weekday := t.weekday.toUInt32
  let yearday := t.yearday.toUInt32
  match Bytes.toChar letter with
  | 'a' => put "%s" [name t.weekdayShort]
  | 'A' => put "%s" [name t.weekdayName]
  | 'b' => put "%s" [name t.monthShort]
  | 'B' => put "%s" [name t.monthName]
  | 'c' => put "%s %s %2d %02d:%02d:%02d %ld" t.fullDate
  | 'd' => put "%02d" [number t.day.toUInt32]
  | 'H' => put "%02d" [number t.hour.toUInt32]
  | 'I' => put "%02d" [number (twelveHour t.hour.toUInt32)]
  | 'j' => put "%03d" [number (yearday + 1)]
  | 'm' => put "%02d" [number t.month.toUInt32]
  | 'M' => put "%02d" [number t.minute.toUInt32]
  | 'p' => put "%s" [name (if t.hour < 12 then "AM" else "PM")]
  | 'S' => put "%02d" [number t.second.toUInt32]
  | 'U' => put "%02d" [number (weekNumber yearday weekday)]
  | 'w' => put "%d" [number weekday]
  | 'W' => put "%02d" [number (weekNumber yearday ((weekday + 6) % 7))]
  | 'x' => put "%02d/%02d/%04ld" t.shortDate
  | 'X' => put "%02d:%02d:%02d" t.clock
  | 'y' => put "%02ld" [long (t.year % 100)]
  | 'Y' => put "%04ld" [long t.year]
  | '%' => put "%%" []
  | _ => .ok [37, letter]

def expandAll (t : DateTime) : Bytes → Except FormatError Bytes
  | [] => .ok []
  | [c] => .ok [c]
  | c :: d :: s =>
    if c = 37 then do
      let field ← expand t d
      return field ++ (← expandAll t s)
    else return c :: (← expandAll t (d :: s))

namespace DateTime

def render (t : DateTime) (template : Bytes) : Except FormatError String :=
  (expandAll t (Bytes.text template)).map Utf8.decodeString

/-- A date and time by template into a buffer, cut to leave room for a NUL: the
number of bytes stored in front of the NUL, and the buffer. -/
def renderInto (t : DateTime) (buf template : Bytes) : Except FormatError (Nat × Bytes) :=
  (t.render template).map fun text =>
    let out := Bytes.ofString text
    (min (buf.length - 1) out.length, Buffer.storeBounded buf out)

def line (t : DateTime) : Except FormatError String :=
  Format.formatString (Bytes.ofAscii "%s %s %2d %02d:%02d:%02d %ld\n") t.fullDate

end DateTime

end Freestanding.Calendar
