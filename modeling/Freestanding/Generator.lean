/-!
# Pseudo-random numbers

A linear congruential generator on a seed of thirty-two bits. A draw advances
the seed and returns fifteen of its upper bits, so every seed fixes the whole
sequence after it.
-/

set_option autoImplicit false

namespace Freestanding

structure Generator where
  seed : UInt32 := 1
  deriving DecidableEq, Repr

namespace Generator

def advance (g : Generator) : Generator := ⟨g.seed * 1103515245 + 12345⟩

def output (g : Generator) : UInt32 := g.seed / 65536 % 32768

def draw (g : Generator) : UInt32 × Generator := (g.advance.output, g.advance)

def drawMany (g : Generator) : Nat → List UInt32 × Generator
  | 0 => ([], g)
  | n + 1 =>
    let (x, g) := g.draw
    let (xs, g) := g.drawMany n
    (x :: xs, g)

end Generator

end Freestanding
