import Freestanding.Format.Field
import Freestanding.Bytes.Buffer
import Freestanding.Text.Utf8

/-!
# Templates

A template is literal bytes and directives. What follows a percent sign and is
no directive stands for itself, up to and including the byte where the
reading of it broke off. Formatting walks the pieces of a template and the
arguments together; an error leaves what was written before it.
-/

set_option autoImplicit false

namespace Freestanding.Format

inductive Piece
  | literal (c : UInt8)
  | directive (d : Directive)
  | verbatim (s : Bytes)
  deriving DecidableEq, Repr

/-- How many bytes behind a percent sign stand for themselves when they are no
directive: those read as modifiers, and the byte that broke off the reading. -/
def verbatimLength (s : Bytes) : Nat :=
  min (s.length - (readModifiers s).2.length + 1) s.length

def pieces : Bytes → List Piece
  | [] => []
  | c :: s =>
    if c = 37 then
      match _h : readDirective? s with
      | some (d, rest) => .directive d :: pieces rest
      | none => .verbatim (c :: s.take (verbatimLength s)) :: pieces (s.drop (verbatimLength s))
    else .literal c :: pieces s
termination_by s => s.length
decreasing_by
  · have := readDirective?_length _h
    simp only [List.length_cons]; omega
  · simp only [List.length_cons, List.length_drop]; omega
  · simp only [List.length_cons]; omega

def Directive.write (d : Directive) (index : Nat) (args : List Argument) :
    Except FormatError Bytes :=
  if maxField < d.requested then .error (.fieldTooWide d.letter d.requested)
  else if d.takesArgument then
    match args with
    | [] => .error (.missingArgument index d.letter)
    | a :: _ =>
      match d.field? a with
      | some field => .ok field
      | none => .error (.argumentMismatch index d.letter a.kind)
  else .ok [37]

namespace Piece

def taken : Piece → Nat
  | directive d => if d.takesArgument then 1 else 0
  | _ => 0

def write (index : Nat) (args : List Argument) : Piece → Except FormatError Bytes
  | literal c => .ok [c]
  | verbatim s => .ok s
  | directive d => d.write index args

end Piece

structure Output where
  written : Bytes
  error : Option FormatError
  deriving DecidableEq, Repr

def writePieces (index : Nat) (args : List Argument) : List Piece → Output
  | [] => ⟨[], none⟩
  | p :: ps =>
    match p.write index args with
    | .error e => ⟨[], some e⟩
    | .ok s =>
      let out := writePieces (index + p.taken) (args.drop p.taken) ps
      ⟨s ++ out.written, out.error⟩

def run (template : Bytes) (args : List Argument) : Output :=
  writePieces 0 args (pieces (Bytes.text template))

def format (template : Bytes) (args : List Argument) : Except FormatError Bytes :=
  match (run template args).error with
  | none => .ok (run template args).written
  | some e => .error e

/-- Format into a buffer, cut to leave room for a NUL. The answer is the
length of the whole output; an error leaves the buffer as it was. -/
def formatInto (buf template : Bytes) (args : List Argument) : Except FormatError Nat × Bytes :=
  match format template args with
  | .ok out => (.ok out.length, Buffer.storeBounded buf out)
  | .error e => (.error e, buf)

def formatString (template : Bytes) (args : List Argument) : Except FormatError String :=
  (format template args).map Utf8.decodeString

/-- The directives of a template that take arguments. Here a percent sign that
starts no directive is passed over alone. -/
def argumentDirectives : Bytes → List Directive
  | [] => []
  | c :: s =>
    if c = 37 then
      match _h : readDirective? s with
      | some (d, rest) =>
        if d.takesArgument then d :: argumentDirectives rest else argumentDirectives rest
      | none => argumentDirectives s
    else argumentDirectives s
termination_by s => s.length
decreasing_by
  · have := readDirective?_length _h
    simp only [List.length_cons]; omega
  · have := readDirective?_length _h
    simp only [List.length_cons]; omega
  · simp only [List.length_cons]; omega
  · simp only [List.length_cons]; omega

end Freestanding.Format
