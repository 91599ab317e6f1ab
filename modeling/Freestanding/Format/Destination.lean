import Freestanding.Format.Template

/-!
# Destinations

Formatting can write straight to a destination that holds bytes already. Each
directive takes its argument from those that are left and writes its field at
the end. A failure stops the writing and keeps what was written before.
-/

set_option autoImplicit false

namespace Freestanding.Format

structure Sink where
  written : Bytes
  index : Nat
  args : List Argument

/-- What is done to a sink. A failure leaves the sink as it was by then. -/
abbrev Writing := EStateM FormatError Sink

namespace Writing

def put (s : Bytes) : Writing Unit := modify fun k => { k with written := k.written ++ s }

def take {α : Type} (d : Directive) (read : Argument → Option α) : Writing α := do
  let k ← get
  match k.args with
  | [] => throw (.missingArgument k.index d.letter)
  | a :: args =>
    set { k with index := k.index + 1, args := args }
    match read a with
    | some value => pure value
    | none => throw (.argumentMismatch k.index d.letter a.kind)

end Writing

open Writing in
def Directive.emit (d : Directive) : Writing Unit :=
  if maxField < d.requested then throw (.fieldTooWide d.letter d.requested)
  else match d.conversion with
    | .signed => do
      let i ← take d fun a => a.signed?.map d.length.signed
      put (integerField d (i < 0) i.natAbs)
    | .unsigned | .octal | .hex _ => do
      let n ← take d fun a => a.unsigned?.map d.length.unsigned
      put (integerField d false n)
    | .real style upper => do
      let x ← take d Argument.real?
      put (realField d style upper x)
    | .char => do
      let c ← take d Argument.char?
      put (charField d c)
    | .text => do
      let s ← take d Argument.text?
      put (textField d s)
    | .pointer => do
      let address ← take d Argument.pointer?
      put (pointerField d address)
    | .percent => put [37]

def Piece.emit : Piece → Writing Unit
  | literal c => Writing.put [c]
  | verbatim s => Writing.put s
  | directive d => d.emit

def emitAll : List Piece → Writing Unit
  | [] => pure ()
  | p :: ps => do
    p.emit
    emitAll ps

/-- Format arguments by a template at the end of a destination: the number of
bytes written or the error, and the destination afterwards. -/
def appendTo (dest template : Bytes) (args : List Argument) : Except FormatError Nat × Bytes :=
  match (emitAll (pieces (Bytes.text template))).run ⟨dest, 0, args⟩ with
  | .ok _ k => (.ok (k.written.length - dest.length), k.written)
  | .error e k => (.error e, k.written)

end Freestanding.Format
