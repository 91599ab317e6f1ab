import Freestanding.Binary64.Shortest
import Freestanding.Calendar.Template
import Freestanding.Command.Script
import Freestanding.Digest
import Freestanding.Elementary.Circular
import Freestanding.Elementary.Root
import Freestanding.Format.Template
import Freestanding.Generator
import Freestanding.Numeral.Real
import Freestanding.Scan.Run

/-!
# Running commands

Every command is a function from its arguments to a transcript. The clock is
an argument too: times that are not given are taken from it.
-/

set_option autoImplicit false

namespace Freestanding.Command

open Numeral (Parsed)

/-- The argument a directive takes from a word of the command line, and a
warning when its value was clamped. The whole word must be a number. -/
def wholeNumber {α : Type} (d : Format.Directive) (word : String) (p : Parsed α) :
    Except CommandError (α × List LogEntry) :=
  if p.converted && p.rest == word.utf8ByteSize then
    .ok (p.value, if p.overflowed then
      [⟨.warn, word ++ s!" saturated for %{Bytes.toChar d.letter}"⟩] else [])
  else .error (.badArgument (Text.quoted word.toList ++ s!" for %{Bytes.toChar d.letter}"))

def argument (d : Format.Directive) (word : String) :
    Except CommandError (Format.Argument × List LogEntry) :=
  let bytes := Bytes.ofString word
  let wrap := fun {α : Type} (f : α → Format.Argument)
      (r : Except Numeral.ConversionError (Parsed α)) =>
    match r with
    | .error e => Except.error (CommandError.conversion e)
    | .ok p => (wholeNumber d word p).map fun (v, log) => (f v, log)
  match d.conversion with
  | .signed => wrap (.int ∘ Int64.ofInt) (Numeral.parseSigned .bits64 0 bytes)
  | .unsigned | .octal | .hex _ => wrap (.uint ∘ UInt64.ofNat) (Numeral.parseUnsigned .bits64 0 bytes)
  | .pointer => wrap (.pointer ∘ UInt64.ofNat) (Numeral.parseUnsigned .bits64 0 bytes)
  | .real .. => wrap .real (.ok (Numeral.parseReal bytes))
  | .char =>
    match bytes with
    | [c] => .ok (.char c, [])
    | _ => .error (.badArgument (Text.quoted word.toList ++ " for %c (expected a single byte)"))
  | .text | .percent => .ok (.text (some bytes), [])

def arguments : List Format.Directive → List String →
    List LogEntry × Except CommandError (List Format.Argument)
  | d :: ds, w :: ws =>
    match argument d w with
    | .error e => ([], .error e)
    | .ok (a, log) =>
      let (logs, rest) := arguments ds ws
      (log ++ logs, rest.map (a :: ·))
  | _, _ => ([], .ok [])

def formatWords (spec : String) (words : List String) : Transcript :=
  let template := Bytes.ofString spec
  let directives := Format.argumentDirectives template
  let surplus : List LogEntry :=
    if directives.length < words.length then
      [⟨.warn, s!"{words.length} arguments supplied, spec uses {directives.length}"⟩] else []
  let (warnings, args) := arguments directives words
  let logs := (surplus ++ warnings).map Entry.log
  match args with
  | .error e => .failure logs e
  | .ok args =>
    match Format.format template args with
    | .error e => .failure logs (.format e)
    | .ok out => .output (logs ++ [.write out])

def scanText (spec text : String) : Transcript :=
  let values := Scan.scan (Bytes.ofString text) (Bytes.ofString spec)
  .output [.line (s!"{values.length}: " ++ " ".intercalate (values.map Scan.Value.show))]

def reportParsed {α : Type} (name text : String) (p : Parsed α) (value : String) : Transcript :=
  let rest := Utf8.decode ((Bytes.ofString text).drop p.rest)
  .output ([.line value, .line ("rest: " ++ Text.quoted rest)] ++
    if p.overflowed then [.line (SystemError.describe name p.errno)] else [])

def readInteger (text : String) (base : Nat) : Transcript :=
  match Numeral.parseSigned .bits64 base (Bytes.ofString text) with
  | .error e => .failure [] (.conversion e)
  | .ok p => reportParsed "strtol" text p (toString p.value)

def readReal (text : String) : Transcript :=
  let p := Numeral.parseReal (Bytes.ofString text)
  reportParsed "strtod" text p (Binary64.plain p.value)

def showTime (seconds : Int) : Transcript :=
  let t := Calendar.DateTime.ofEpoch seconds
  match t.line with
  | .error e => .failure [.line t.text] (.format e)
  | .ok line => .output [.line t.text, .write (Bytes.ofString line),
      .line (s!"weekday {t.weekday} ({t.weekdayName}), yearday {t.yearday}")]

structure DateWords where
  year : List Char
  month : List Char
  day : List Char
  hour : List Char
  minute : List Char
  second : List Char
  deriving DecidableEq, Repr

def shortField? (cs : List Char) : Option (List Char × List Char) :=
  let ds := cs.takeWhile Text.isDecimalDigit
  if ds.length = 1 ∨ ds.length = 2 then some (ds, cs.drop ds.length) else none

def markedField? (mark : Char) : List Char → Option (List Char × List Char)
  | c :: cs => if c = mark then shortField? cs else none
  | [] => none

def yearField? (cs : List Char) : Option (List Char × List Char) :=
  let minus := cs.takeWhile (· == '-') |>.take 1
  let ds := (cs.drop minus.length).takeWhile Text.isDecimalDigit
  if ds.isEmpty then none else some (minus ++ ds, cs.drop (minus.length + ds.length))

/-- The fields of a text of the form `YYYY-MM-DDThh:mm:ss`, with any number of
digits in the year and one or two in the others. Assumed of the pattern
`^(-?\d+)-(\d{1,2})-(\d{1,2})T(\d{1,2}):(\d{1,2}):(\d{1,2})$`: it is met
exactly by the texts read here, `\d` being any decimal digit, and it captures
these fields. -/
def DateWords.read? (cs : List Char) : Option DateWords := do
  let (year, cs) ← yearField? cs
  let (month, cs) ← markedField? '-' cs
  let (day, cs) ← markedField? '-' cs
  let (hour, cs) ← markedField? 'T' cs
  let (minute, cs) ← markedField? ':' cs
  let (second, cs) ← markedField? ':' cs
  if cs.isEmpty then some { year, month, day, hour, minute, second } else none

def DateWords.toDateTime? (w : DateWords) (dst : Bool) : Option Calendar.DateTime := do
  let small := Text.natural? 4294967296
  let year ← Text.integer? longMin longMax w.year
  let month ← small w.month
  let day ← small w.day
  let hour ← small w.hour
  let minute ← small w.minute
  let second ← small w.second
  return { year, month, day, hour, minute, second, dst }

def countTime (datetime : String) (dst : Bool) : Transcript :=
  match (DateWords.read? datetime.toList).bind (·.toDateTime? dst) with
  | none => .failure [] (.badDateTime datetime)
  | some t =>
    match t.toEpoch with
    | .error e => .failure [] (.time e)
    | .ok seconds => .output [.line (toString seconds)]

def renderTime (spec : String) (seconds : Int) : Transcript :=
  match (Calendar.DateTime.ofEpoch seconds).render (Bytes.ofString spec) with
  | .error e => .failure [] (.format e)
  | .ok text => .output [.line text]

def evaluate (f : MathFunction) (operands : List Float) : Except CommandError Float :=
  let apply : MathFunction → List Float → Option Float
    | .pow, [x, y] => some (Elementary.pow x y)
    | .fabs, [x] => some (Elementary.magnitude x)
    | .sqrt, [x] => some (Elementary.sqrt x)
    | .log, [x] => some (Elementary.log x)
    | .exp, [x] => some (Elementary.exp x)
    | .sin, [x] => some (Elementary.sin x)
    | .cos, [x] => some (Elementary.cos x)
    | .tan, [x] => some (Elementary.tan x)
    | .floor, [x] => some (Elementary.floor x)
    | .ceil, [x] => some (Elementary.ceiling x)
    | .round, [x] => some (Elementary.nearest x)
    | _, _ => none
  match apply f operands with
  | some y => .ok y
  | none => .error (.badArgument
      (f.title ++ s!" takes {f.arity} operand(s), got {operands.length}"))

def evaluateText (f : MathFunction) (operands : List Float) : Transcript :=
  match evaluate f operands with
  | .error e => .failure [] e
  | .ok y => .output [.line (Binary64.plain y)]

def drawNumbers (seed : UInt32) (count : Nat) : Transcript :=
  let xs := (Generator.drawMany ⟨seed⟩ count).1
  .output [.line (" ".intercalate (xs.map fun x => toString x.toNat))]

def digestText (text : String) : Transcript :=
  let bytes := Bytes.ofString text
  .output [
    .line ("crc32 " ++ Text.padLeft '0' 8 (Text.hexDigits (Digest.crc bytes).toNat)),
    .line s!"hash {(Digest.textHash bytes).toNat}"]

def run (now : Int) (config : Heap.Config) : Command → Transcript
  | .printf spec args => formatWords spec args
  | .scanf spec text => scanText spec text
  | .strtol text base => readInteger text base
  | .strtod text => readReal text
  | .gmtime seconds => showTime (seconds.getD now)
  | .mktime datetime dst => countTime datetime dst
  | .strftime spec seconds => renderTime spec (seconds.getD now)
  | .heap ops => Script.transcript config ops
  | .strerror code => .output [.line (SystemError.message code)]
  | .math f operands => evaluateText f operands
  | .rand seed count => drawNumbers seed count
  | .checksum text => digestText text

def name : Command → String
  | .printf .. => "printf"
  | .scanf .. => "scanf"
  | .strtol .. => "strtol"
  | .strtod .. => "strtod"
  | .gmtime .. => "gmtime"
  | .mktime .. => "mktime"
  | .strftime .. => "strftime"
  | .heap .. => "heap"
  | .strerror .. => "strerror"
  | .math .. => "math"
  | .rand .. => "rand"
  | .checksum .. => "checksum"

end Freestanding.Command
