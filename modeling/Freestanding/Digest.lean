import Freestanding.Bytes.Basic

/-!
# Checksums and hashes

A check is computed by an engine: of all bytes at once, or by a hasher that
resumes a finished check. The engine in use keeps a register of thirty-two
bits, starts it with ones, feeds it the bytes low bit first and complements the
end, so complementing a check again gives the register.
-/

set_option autoImplicit false

namespace Freestanding.Digest

def polynomial : UInt32 := 0xEDB88320

def crcBit (r : UInt32) : UInt32 :=
  if r &&& 1 = 1 then (r >>> 1) ^^^ polynomial else r >>> 1

def crcByte (r : UInt32) (b : UInt8) : UInt32 :=
  crcBit (crcBit (crcBit (crcBit (crcBit (crcBit (crcBit (crcBit (r ^^^ b.toUInt32))))))))

/-- A source of checks, with hashers of its own kind. -/
structure Engine where
  Hasher : Type
  hash : Bytes → UInt32
  resume : UInt32 → Hasher
  update : Hasher → Bytes → Hasher
  finalize : Hasher → UInt32

namespace Engine

def check (e : Engine) (data : Bytes) : UInt32 := e.hash data

def extend (e : Engine) (check : UInt32) (data : Bytes) : UInt32 :=
  e.finalize (e.update (e.resume check) data)

def register : Engine where
  Hasher := UInt32
  hash data := ~~~(data.foldl crcByte 0xFFFFFFFF)
  resume check := ~~~check
  update r data := data.foldl crcByte r
  finalize r := ~~~r

end Engine

def crc : Bytes → UInt32 := Engine.register.check

def crcUpdate : UInt32 → Bytes → UInt32 := Engine.register.extend

def textHash (s : Bytes) : UInt32 :=
  (Bytes.text s).foldl (fun h c => h * 33 + c.toUInt32) 5381

end Freestanding.Digest
