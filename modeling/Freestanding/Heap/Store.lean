import Freestanding.Heap.Memory
import Freestanding.Heap.Region

/-!
# Stores of regions

A store hands out regions on request, or refuses. What is in the memory of a
region is up to the store. The heap asks for nothing else of it than how much
it has handed out and what its limit is.
-/

set_option autoImplicit false

namespace Freestanding.Heap

inductive StoreError
  | badSize
  | exhausted
  | limitExceeded (limit requested : Nat)
  deriving DecidableEq, Repr

def StoreError.message : StoreError → String
  | badSize => "region size must be a non-zero multiple of the word size"
  | exhausted => "platform allocator refused the request"
  | limitExceeded limit requested =>
    s!"backing store limit of {limit} bytes reached ({requested} more requested)"

class Store (σ : Type) where
  acquire : Nat → σ → Except StoreError Region × σ
  acquired : σ → Nat
  limit : σ → Option Nat
  /-- What the memory of regions holds when they are handed out. -/
  contents : σ → Memory

end Freestanding.Heap
