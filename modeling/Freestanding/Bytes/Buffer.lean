import Freestanding.Bytes.Basic

/-!
# Buffers of fixed length

A buffer is a byte string whose length never changes. An edit either fits and
gives the new contents or is refused and leaves the buffer as it was.
-/

set_option autoImplicit false

namespace Freestanding

inductive Edit
  | setText (src : Bytes)
  | setField (src : Bytes) (n : Nat)
  | append (src : Bytes)
  | appendUpTo (src : Bytes) (n : Nat)
  | fill (c : UInt8) (n : Nat)
  | copy (src : Bytes) (n : Nat)
  | move (dest src n : Nat)
  | lower
  | upper
  deriving DecidableEq, Repr

namespace Buffer

def overwrite (buf src : Bytes) (pos : Nat) : Bytes :=
  buf.take pos ++ src ++ buf.drop (pos + src.length)

def appendBytes (buf src : Bytes) : Option Bytes :=
  let start := Bytes.textLength buf
  if start + src.length < buf.length then some (overwrite buf (src ++ [0]) start) else none

def mapText (f : UInt8 → UInt8) (buf : Bytes) : Bytes :=
  (Bytes.text buf).map f ++ buf.drop (Bytes.textLength buf)

/-- The contents after an edit, or nothing when it does not fit. -/
def edit? (buf : Bytes) : Edit → Option Bytes
  | .setText src =>
    let t := Bytes.text src
    if t.length < buf.length then some (overwrite buf (t ++ [0]) 0) else none
  | .setField src n =>
    let t := (Bytes.text src).take n
    if n ≤ buf.length then some (overwrite buf (t ++ List.replicate (n - t.length) 0) 0)
    else none
  | .append src => appendBytes buf (Bytes.text src)
  | .appendUpTo src n => appendBytes buf ((Bytes.text src).take n)
  | .fill c n => if n ≤ buf.length then some (overwrite buf (List.replicate n c) 0) else none
  | .copy src n =>
    if n ≤ buf.length ∧ n ≤ src.length then some (overwrite buf (src.take n) 0) else none
  | .move dest src n =>
    if dest + n ≤ buf.length ∧ src + n ≤ buf.length then
      some (overwrite buf ((buf.drop src).take n) dest)
    else none
  | .lower => some (mapText Bytes.toLower buf)
  | .upper => some (mapText Bytes.toUpper buf)

def edit (buf : Bytes) (e : Edit) : Bool × Bytes :=
  match edit? buf e with
  | some buf => (true, buf)
  | none => (false, buf)

def edits (buf : Bytes) : List Edit → List (Bool × Bytes)
  | [] => []
  | e :: es => edit buf e :: edits (edit buf e).2 es

/-- Store as much of `src` as leaves room for a NUL, and the NUL; a buffer
with no bytes stays as it is. -/
def storeBounded (buf src : Bytes) : Bytes :=
  if buf.isEmpty then buf else overwrite buf (src.take (buf.length - 1) ++ [0]) 0

end Buffer

end Freestanding
