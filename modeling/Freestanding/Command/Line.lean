import Freestanding.Binary64.Reading
import Freestanding.Command.Basic
import Freestanding.Text.Number
import Freestanding.Word

/-!
# Command lines

A command line is options and a command, and after the command its own
options and operands. General options may stand before or after the command.
A double dash ends the options; operands that may start with a dash take what
is no option. A word that is held for its option or operand is judged when
the next one is taken up, so the first fault met is the one reported.
-/

set_option autoImplicit false

namespace Freestanding.Line

inductive Fault
  | displayHelp
  | displayVersion
  | helpOnMissing
  | invalidSubcommand
  | missingSubcommand
  | missingRequired
  | unknownArgument
  | valueValidation
  | invalidValue
  | argumentConflict
  | tooManyValues
  deriving DecidableEq, Repr

inductive Action
  | flag
  | value
  | many
  | help
  | version
  deriving DecidableEq, Repr

structure Parameter where
  id : String
  long : Option String := none
  short : Option Char := none
  action : Action := .value
  dashes : Bool := false
  required : Bool := false
  judge : String → Option Fault := fun _ => none

def Parameter.takesValue (p : Parameter) : Bool := p.action == .value || p.action == .many

/-- A command with its options, operands and subcommands. -/
structure Level where
  options : List Parameter
  operands : List Parameter
  subcommands : List String := []

/-- What the reading of a level has come to. -/
structure State where
  settled : List (String × List String) := []
  pending : Option (Parameter × List String) := none
  awaited : Option Parameter := none
  continued : Option Parameter := none
  position : Nat := 0
  trailing : Bool := false

namespace State

def has (s : State) (id : String) : Bool := s.settled.any (·.1 == id)

def settleWith (s : State) (p : Parameter) (words : List String) : Except Fault State :=
  if p.takesValue && words.isEmpty then .error .invalidValue
  else if p.action != .many && s.has p.id then .error .argumentConflict
  else match words.findSome? p.judge with
    | some fault => .error fault
    | none => .ok { s with settled := s.settled ++ [(p.id, words)] }

def settle (s : State) : Except Fault State :=
  match s.pending with
  | none => .ok s
  | some (p, words) => { s with pending := none }.settleWith p words

def take (s : State) (p : Parameter) (words : List String) : Except Fault State := do
  let s ← s.settle
  match p.action with
  | .help => .error .displayHelp
  | .version => .error .displayVersion
  | _ => s.settleWith p words

def await (s : State) (p : Parameter) : Except Fault State := do
  let s ← s.settle
  return { s with pending := some (p, []), awaited := some p, continued := none }

def ready (s : State) : State := { s with awaited := none, continued := none }

def dashesWaiting (s : State) : Bool :=
  (s.awaited.any (·.dashes)) || (s.continued.any (·.dashes))

end State

inductive Reading
  | done (s : State)
  | word
  deriving Inhabited

def Level.nextTakesDashes (lv : Level) (s : State) : Bool :=
  (lv.operands[s.position]?).any (·.dashes)

def Level.readLong (lv : Level) (s : State) (name : String) (value : Option String) :
    Except Fault Reading :=
  if s.dashesWaiting then .ok .word
  else match lv.options.find? (·.long == some name) with
    | some p =>
      if p.takesValue then
        match value with
        | some v => (s.take p [v]).map (.done ·.ready)
        | none => (s.await p).map .done
      else if value.isSome then .error .tooManyValues
      else (s.take p []).map (.done ·.ready)
    | none => if lv.nextTakesDashes s then .ok .word else .error .unknownArgument

/-- A cluster of short options. The first that takes a value takes the rest of
the cluster as its value, if there is any. -/
def Level.readCluster (lv : Level) (s : State) : List Char → Except Fault State
  | [] => .ok s.ready
  | c :: cs =>
    match lv.options.find? (·.short == some c) with
    | none => .error .unknownArgument
    | some p =>
      if p.takesValue then
        match cs with
        | [] => s.await p
        | '=' :: vs => (s.take p [String.ofList vs]).map State.ready
        | vs => (s.take p [String.ofList vs]).map State.ready
      else do lv.readCluster (← s.take p []) cs

def Level.readShort (lv : Level) (s : State) (cs : List Char) : Except Fault Reading :=
  let known := fun c => lv.options.any (·.short == some c)
  if s.dashesWaiting || (lv.nextTakesDashes s && !cs.all known) then .ok .word
  else (lv.readCluster s cs).map .done

def State.feed (s : State) (p : Parameter) (word : String) : State :=
  let words := match s.pending with
    | some (_, words) => words
    | none => []
  { s with pending := some (p, words ++ [word]) }.ready

def Level.readOperand (lv : Level) (s : State) (word : String) : Except Fault State :=
  match lv.operands[s.position]? with
  | none =>
    .error (if lv.subcommands.isEmpty || (s.trailing && lv.subcommands.contains word) then
      .unknownArgument else .invalidSubcommand)
  | some p =>
    match p.action, s.pending with
    | .many, some (q, words) =>
      if q.id == p.id then
        .ok { s with pending := some (p, words ++ [word]), awaited := none, continued := some p }
      else do
        let s ← s.settle
        return { s with pending := some (p, [word]), awaited := none, continued := some p }
    | .many, none =>
      .ok { s with pending := some (p, [word]), awaited := none, continued := some p }
    | _, _ => do
      let s ← s.settle
      return { s with pending := some (p, [word]), position := s.position + 1 }.ready

def splitLong (cs : List Char) : String × Option String :=
  let name := cs.takeWhile (· != '=')
  (String.ofList name, match cs.drop name.length with
    | _ :: value => some (String.ofList value)
    | [] => none)

def Level.readOption (lv : Level) (s : State) (word : String) : Except Fault Reading :=
  match word.toList with
  | '-' :: '-' :: cs => let (name, value) := splitLong cs; lv.readLong s name value
  | ['-'] => .ok .word
  | '-' :: cs => lv.readShort s cs
  | _ => .ok .word

def Level.readWord (lv : Level) (s : State) (word : String) : Except Fault State :=
  if s.trailing then lv.readOperand s word
  else if word = "--" ∧ ¬s.dashesWaiting then .ok { s with trailing := true }
  else do
    let reading ← if word = "--" then pure .word else lv.readOption s word
    match reading, s.awaited with
    | .done s, _ => return s
    | .word, some p => return s.feed p word
    | .word, none => lv.readOperand s word

def Level.names (lv : Level) (s : State) (word : String) : Bool :=
  !s.trailing && s.awaited.isNone && s.continued.isNone && lv.subcommands.contains word

def Level.read (lv : Level) (s : State) :
    List String → Except Fault (State × Option (String × List String))
  | [] => .ok (s, none)
  | w :: ws => if lv.names s w then .ok (s, some (w, ws)) else do lv.read (← lv.readWord s w) ws

/-- The words settled for the operands and options of a level. -/
abbrev Matches := List (String × List String)

def Level.readAll (lv : Level) (words : List String) : Except Fault Matches := do
  let (s, _) ← lv.read {} words
  let s ← s.settle
  if lv.operands.any fun p => p.required && !s.has p.id then .error .missingRequired
  else .ok s.settled

/-! ## Values -/

def judgeBy {α : Type} (read? : List Char → Option α) (word : String) : Option Fault :=
  if (read? word.toList).isSome then none else some .valueValidation

def word? : List Char → Option Nat := Text.natural? wordLimit

def byte? : List Char → Option Int := Text.integer? 0 255

def half? : List Char → Option Int := Text.integer? 0 4294967295

def code? : List Char → Option Int := Text.integer? (-2147483648) 2147483647

def count? : List Char → Option Int := Text.integer? longMin longMax

def real? (cs : List Char) : Option Float := Binary64.read? (String.ofList cs)

def judgeFunction (word : String) : Option Fault :=
  if (MathFunction.ofName? word).isSome then none else some .invalidValue

/-! ## The program's command line -/

def help : Parameter := { id := "help", long := some "help", short := some 'h', action := .help }

def general : List Parameter := [
  { id := "debug", long := some "debug", short := some 'd', action := .flag },
  { id := "statistics", long := some "statistics", short := some 'S', action := .flag },
  { id := "heap-increment", long := some "heap-increment", judge := judgeBy word? },
  { id := "heap-limit", long := some "heap-limit", judge := judgeBy word? },
  { id := "heap-fill", long := some "heap-fill", judge := judgeBy byte? },
  help]

def commands : List (String × List Parameter × List Parameter) := [
  ("printf", [{ id := "spec", required := true }, { id := "args", action := .many, dashes := true }],
    []),
  ("scanf", [{ id := "spec", required := true }, { id := "text", required := true, dashes := true }],
    []),
  ("strtol", [{ id := "text", required := true, dashes := true }],
    [{ id := "base", long := some "base", short := some 'b', judge := judgeBy half? }]),
  ("strtod", [{ id := "text", required := true, dashes := true }], []),
  ("gmtime", [{ id := "seconds", dashes := true, judge := judgeBy count? }], []),
  ("mktime", [{ id := "datetime", required := true, dashes := true }],
    [{ id := "dst", long := some "dst", action := .flag }]),
  ("strftime", [{ id := "spec", required := true },
    { id := "seconds", dashes := true, judge := judgeBy count? }], []),
  ("heap", [{ id := "ops", action := .many, required := true }], []),
  ("strerror", [{ id := "code", required := true, dashes := true, judge := judgeBy code? }], []),
  ("math", [{ id := "function", required := true, judge := judgeFunction },
    { id := "operands", action := .many, required := true, dashes := true,
      judge := judgeBy real? }], []),
  ("rand", [], [
    { id := "seed", long := some "seed", short := some 's', judge := judgeBy half? },
    { id := "count", long := some "count", short := some 'n', judge := judgeBy word? }]),
  ("checksum", [{ id := "text", required := true, dashes := true }], [])]

def top : Level where
  options := general ++ [
    { id := "version", long := some "version", short := some 'V', action := .version }]
  operands := []
  subcommands := commands.map Prod.fst ++ ["help"]

structure Options where
  debug : Bool := false
  statistics : Bool := false
  heap : Heap.Config := {}
  command : Command

def Matches.all (m : Matches) (id : String) : List String :=
  (m.filter (·.1 == id)).flatMap Prod.snd

def Matches.get? {α : Type} (m : Matches) (id : String) (read? : List Char → Option α) : Option α :=
  (Matches.all m id).head?.bind fun w => read? w.toList

def Matches.text (m : Matches) (id : String) : String := (Matches.all m id).headD ""

def command? (name : String) (m : Matches) : Option Command :=
  let text := Matches.text m
  match name with
  | "printf" => some (.printf (text "spec") (Matches.all m "args"))
  | "scanf" => some (.scanf (text "spec") (text "text"))
  | "strtol" => some (.strtol (text "text") ((Matches.get? m "base" half?).getD 0).toNat)
  | "strtod" => some (.strtod (text "text"))
  | "gmtime" => some (.gmtime (Matches.get? m "seconds" count?))
  | "mktime" => some (.mktime (text "datetime") (m.any (·.1 == "dst")))
  | "strftime" => some (.strftime (text "spec") (Matches.get? m "seconds" count?))
  | "heap" => some (.heap (Matches.all m "ops"))
  | "strerror" => (Matches.get? m "code" code?).map .strerror
  | "math" => (MathFunction.ofName? (text "function")).map fun f =>
      .math f ((Matches.all m "operands").filterMap fun w => real? w.toList)
  | "rand" => some (.rand ((Matches.get? m "seed" half?).getD 1).toNat.toUInt32
      ((Matches.get? m "count" word?).getD 1))
  | "checksum" => some (.checksum (text "text"))
  | _ => none

/-- The general options, one after the command counting before one in front. -/
def optionsFor (outer inner : Matches) (command : Command) : Options :=
  let m := inner ++ outer
  let given := fun id => m.any (·.1 == id)
  let config : Heap.Config := {}
  { debug := given "debug"
    statistics := given "statistics"
    heap := {
      increment := (Matches.get? m "heap-increment" word?).getD config.increment
      limit := Matches.get? m "heap-limit" word?
      fill := (Matches.get? m "heap-fill" byte?).map (·.toNat.toUInt8) }
    command }

def helpOn : List String → Fault
  | [] => .displayHelp
  | [w] => if top.subcommands.contains w then .displayHelp else .invalidSubcommand
  | _ => .invalidSubcommand

def read (words : List String) : Except Fault Options := do
  let (s, found) ← top.read {} words
  match found with
  | none =>
    let s ← s.settle
    .error (if s.settled.isEmpty then .helpOnMissing else .missingSubcommand)
  | some ("help", rest) => .error (helpOn rest)
  | some (name, rest) =>
    match commands.lookup name with
    | none => .error .invalidSubcommand
    | some (operands, options) =>
      let inner ← Level.readAll { options := options ++ general, operands } rest
      let s ← s.settle
      match command? name inner with
      | some command => .ok (optionsFor s.settled inner command)
      | none => .error .valueValidation

end Freestanding.Line
