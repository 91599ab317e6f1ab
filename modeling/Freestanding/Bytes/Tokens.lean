import Freestanding.Bytes.Search

/-!
# Tokens of a text

A tokeniser holds the part of a text still to be read and the delimiters in
force. Each step skips delimiters, takes the bytes up to the next one and
drops that one; delimiters may be exchanged between steps.
-/

set_option autoImplicit false

namespace Freestanding

structure Tokens where
  rest : Bytes
  delimiters : Bytes
  deriving DecidableEq, Repr

namespace Tokens

def ofText (s delimiters : Bytes) : Tokens := ⟨Bytes.text s, Bytes.text delimiters⟩

def setDelimiters (t : Tokens) (delimiters : Bytes) : Tokens :=
  { t with delimiters := Bytes.text delimiters }

def next (t : Tokens) : Option Bytes × Tokens :=
  let rest := t.rest.drop (Bytes.spanOf t.delimiters t.rest)
  if rest.isEmpty then (none, { t with rest := rest })
  else
    let n := Bytes.spanOutside t.delimiters rest
    (some (rest.take n), { t with rest := rest.drop (n + 1) })

/-- A step under new delimiters, when some are given. -/
def nextUnder (t : Tokens) (delimiters : Option Bytes) : Option Bytes × Tokens :=
  next (delimiters.elim t t.setDelimiters)

end Tokens

end Freestanding
