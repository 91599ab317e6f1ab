import Freestanding.Calendar.Year
import Freestanding.Format.Argument
import Freestanding.Heap.Stats
import Freestanding.Numeral.Integer

/-!
# Commands

What the command line can ask for, and how a command can fail. A command's
run is a transcript: what it writes and logs, in order, and how it ended.
-/

set_option autoImplicit false

namespace Freestanding

inductive MathFunction
  | fabs | sqrt | log | exp | pow | sin | cos | tan | floor | ceil | round
  deriving DecidableEq, Repr

namespace MathFunction

def all : List MathFunction :=
  [fabs, sqrt, log, exp, pow, sin, cos, tan, floor, ceil, round]

def name : MathFunction → String
  | fabs => "fabs"
  | sqrt => "sqrt"
  | log => "log"
  | exp => "exp"
  | pow => "pow"
  | sin => "sin"
  | cos => "cos"
  | tan => "tan"
  | floor => "floor"
  | ceil => "ceil"
  | round => "round"

def ofName? (s : String) : Option MathFunction := all.find? (·.name == s)

def arity : MathFunction → Nat
  | pow => 2
  | _ => 1

def title (f : MathFunction) : String := f.name.capitalize

end MathFunction

inductive Command
  | printf (spec : String) (args : List String)
  | scanf (spec text : String)
  | strtol (text : String) (base : Nat)
  | strtod (text : String)
  | gmtime (seconds : Option Int)
  | mktime (datetime : String) (dst : Bool)
  | strftime (spec : String) (seconds : Option Int)
  | heap (ops : List String)
  | strerror (code : Int)
  | math (function : MathFunction) (operands : List Float)
  | rand (seed : UInt32) (count : Nat)
  | checksum (text : String)

inductive CommandError
  | heap (cause : Heap.HeapError)
  | conversion (cause : Numeral.ConversionError)
  | format (cause : Format.FormatError)
  | time (cause : Calendar.TimeError)
  | sinkFull
  | badArgument (what : String)
  | badDateTime (text : String)
  deriving DecidableEq, Repr

namespace CommandError

def message : CommandError → String
  | heap cause => cause.message
  | conversion cause => cause.message
  | format cause => cause.message
  | time cause => cause.message
  | sinkFull => "sink full"
  | badArgument what => "bad argument " ++ what
  | badDateTime text => text ++ " is not a date and time of the form YYYY-MM-DDTHH:MM:SS"

def errno : CommandError → Nat
  | heap cause => cause.errno
  | conversion cause => cause.errno
  | format cause => cause.errno
  | time cause => cause.errno
  | sinkFull => SystemError.io
  | badArgument _ | badDateTime _ => SystemError.invalid

end CommandError

namespace Command

inductive Entry
  | write (s : Bytes)
  | log (e : LogEntry)
  deriving DecidableEq, Repr

def Entry.line (s : String) : Entry := .write (Bytes.ofString (s ++ "\n"))

structure Transcript where
  entries : List Entry
  error : Option CommandError := none
  stats : Option Heap.Stats := none
  deriving DecidableEq, Repr

def Transcript.output (entries : List Entry) : Transcript := { entries }

def Transcript.failure (entries : List Entry) (e : CommandError) : Transcript :=
  { entries, error := some e }

namespace Transcript

def written (t : Transcript) : Bytes :=
  t.entries.flatMap fun e => match e with
    | .write s => s
    | .log _ => []

def logged (t : Transcript) (debug : Bool) : List LogEntry :=
  t.entries.filterMap fun e => match e with
    | .log l => match l.severity with
      | .trace => none
      | .debug => if debug then some l else none
      | .warn => some l
    | .write _ => none

end Transcript

def fit (room : Nat) : List Entry → List Entry × Bool
  | [] => ([], true)
  | .log l :: es =>
    let (kept, whole) := fit room es
    (.log l :: kept, whole)
  | .write s :: es =>
    if s.length ≤ room then
      let (kept, whole) := fit (room - s.length) es
      (.write s :: kept, whole)
    else ([.write (s.take room)], false)

/-- The transcript of a run whose output goes into a sink of limited room. A
sink that fills up ends the run. -/
def Transcript.within (t : Transcript) (room : Nat) : Transcript :=
  match fit room t.entries with
  | (_, true) => t
  | (entries, false) => .failure entries .sinkFull

end Command

end Freestanding
