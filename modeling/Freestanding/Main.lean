import Freestanding.Command.Line
import Freestanding.Command.Run
import Freestanding.Command.Timing
import Std.Time.DateTime.Timestamp

/-!
# The program

Reads the command line, runs the command and writes its transcript: output on
the standard output, everything else on the standard error. The clock is read
once, before the command runs.
-/

set_option autoImplicit false

namespace Freestanding

def usage : String :=
  "Freestanding libc core: heap, printf/scanf, strtol/strtod, calendar, math\n\n"
    ++ "Usage: flc [OPTIONS] <COMMAND>\n\nCommands:\n"
    ++ String.join (Line.top.subcommands.map fun name => "  " ++ name ++ "\n")

def versionText : String := "flc 0.1.0\n"

def Line.Fault.message : Line.Fault → String
  | displayHelp | helpOnMissing => usage
  | displayVersion => versionText
  | invalidSubcommand => "error: unrecognized subcommand\n"
  | missingSubcommand => "error: a subcommand is required\n"
  | missingRequired => "error: a required argument was not provided\n"
  | unknownArgument => "error: unexpected argument\n"
  | valueValidation => "error: an argument is not a number of its kind\n"
  | invalidValue => "error: an option has no possible value\n"
  | argumentConflict => "error: an option was given twice\n"
  | tooManyValues => "error: an option takes no value\n"

def Line.Fault.status : Line.Fault → UInt32
  | displayHelp | displayVersion => 0
  | _ => 2

def Severity.label : Severity → String
  | trace => "TRACE"
  | debug => "DEBUG"
  | warn => "WARN"

def statisticsText (s : RunStatistics) : String :=
  "\n~~~~~~~~~~\nSTATISTICS\n~~~~~~~~~~\n\n" ++ s.text ++ "\n"

def report (o : Line.Options) (t : Command.Transcript) (nanoseconds : Nat) : String × UInt32 :=
  let logs := (t.logged o.debug).map fun e => e.severity.label ++ " " ++ e.text ++ "\n"
  let failure := t.error.elim "" fun e => "flc: " ++ e.message ++ s!" (errno {e.errno})\n"
  let timings : Timings :=
    if t.error.isSome then {} else Timings.record {} o.command.name nanoseconds
  let statistics := if o.statistics then statisticsText { heap := t.stats, timings } else ""
  (String.join logs ++ failure ++ statistics, if t.error.isSome then 1 else 0)

end Freestanding

open Freestanding in
def main (args : List String) : IO UInt32 := do
  match Line.read args with
  | .error fault =>
    if fault.status = 0 then IO.print fault.message else IO.eprint fault.message
    return fault.status
  | .ok options =>
    let now ← Std.Time.Timestamp.now
    let start ← IO.monoNanosNow
    let transcript := options.command.run now.toSecondsSinceUnixEpoch.val options.heap
    let out ← IO.getStdout
    out.write ⟨transcript.written.toArray⟩
    out.flush
    let (notes, status) := report options transcript ((← IO.monoNanosNow) - start)
    IO.eprint notes
    return status
