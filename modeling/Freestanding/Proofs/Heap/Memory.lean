import Freestanding.Heap.Header
import Freestanding.Proofs.Heap.Layout
import Freestanding.Word

/-!
# Reading what was written

Every store to memory leaves the bytes outside its range alone. A word read
where a word was written is that word, and so the fields of a header are what
they were last set to. A header elsewhere is not affected.
-/

set_option autoImplicit false

namespace Freestanding.Heap

/-! ## Bytes -/

namespace Memory

theorem fill_outside (m : Memory) {start n a : Nat} (c : UInt8)
    (h : a < start ∨ start + n ≤ a) : (m.fill start n c).byte a = m.byte a := by
  simp only [fill]
  rw [if_neg (by omega)]

theorem copy_outside (m : Memory) {dest src n a : Nat}
    (h : a < dest ∨ dest + n ≤ a) : (m.copy dest src n).byte a = m.byte a := by
  simp only [copy]
  rw [if_neg (by omega)]

theorem write_outside (m : Memory) {start a : Nat} {s : Bytes}
    (h : a < start ∨ start + s.length ≤ a) : (m.write start s).byte a = m.byte a := by
  simp only [write]
  split_ifs with hs
  · rw [List.getElem?_eq_none (by omega)]
    rfl
  · rfl

theorem overlay_outside (m other : Memory) {r : Region} {a : Nat}
    (h : a < r.start ∨ r.finish ≤ a) : (m.overlay r other).byte a = m.byte a := by
  simp only [overlay, Region.contains_iff]
  rw [if_neg (by omega)]

theorem read_length (m : Memory) (start n : Nat) : (m.read start n).length = n := by
  simp [read]

theorem read_congr {m m' : Memory} {start start' n : Nat}
    (h : ∀ i < n, m'.byte (start' + i) = m.byte (start + i)) :
    m'.read start' n = m.read start n := by
  apply List.map_congr_left
  intro i hi
  exact h i (List.mem_range.mp hi)

theorem read_take (m : Memory) {start n k : Nat} (h : k ≤ n) :
    (m.read start n).take k = m.read start k := by
  simp [read, ← List.map_take, List.take_range, Nat.min_eq_left h]

theorem read_zero {m : Memory} {start n : Nat} (h : ∀ i < n, m.byte (start + i) = 0) :
    m.read start n = List.replicate n 0 := by
  apply List.eq_replicate_iff.mpr
  refine ⟨m.read_length start n,fun c hc => ?_⟩
  obtain ⟨i,hi,rfl⟩ := List.mem_map.mp hc
  exact h i (List.mem_range.mp hi)

theorem read_write (m : Memory) (start : Nat) (s : Bytes) :
    (m.write start s).read start s.length = s := by
  apply List.ext_getElem
  · exact read_length _ _ _
  · intro i _ hi
    simp [read, write, List.getElem?_eq_getElem hi]

end Memory

/-! ## Words -/

theorem length_lowBytes (k n : Nat) : (lowBytes k n).length = k := by
  induction k generalizing n with
  | zero => rfl
  | succ k ih => rw [lowBytes, List.length_cons, ih]

theorem ofLowBytes_lowBytes {n : Nat} (h : n < wordLimit) : ofLowBytes (lowBytes 8 n) = n := by
  have hbyte : ∀ k : Nat, (k % 256).toUInt8.toNat = k % 256 := by
    intro k
    simp
  simp only [lowBytes, ofLowBytes, hbyte]
  simp only [wordLimit] at h
  omega

namespace Memory

theorem word_write (m : Memory) (a : Nat) {n : Nat} (h : n < wordLimit) :
    (m.write a (lowBytes 8 n)).word a = n := by
  have hread := m.read_write a (lowBytes 8 n)
  rw [length_lowBytes] at hread
  rw [word, hread, ofLowBytes_lowBytes h]

theorem word_congr {m m' : Memory} {a : Nat}
    (h : ∀ x, a ≤ x → x < a + 8 → m'.byte x = m.byte x) : m'.word a = m.word a := by
  rw [word, word, read_congr fun i hi => h (a + i) (by omega) (by omega)]

/-! ## Headers -/

theorem header_congr {m m' : Memory} {a : Nat}
    (h : ∀ x, a ≤ x → x < a + headerSize → m'.byte x = m.byte x) :
    m'.header a = m.header a := by
  simp only [headerSize] at h
  have hsize : m'.word a = m.word a := word_congr fun x hl hr => h x hl (by omega)
  have hnext : m'.word (a + 8) = m.word (a + 8) :=
    word_congr fun x hl hr => h x (by omega) (by omega)
  simp only [header, hsize, hnext, h (a + 16) (by omega) (by omega)]

/-- Two memories that agree outside the headers at some addresses. -/
def SameBut (as : List Nat) (m m' : Memory) : Prop :=
  ∀ x, (∀ a ∈ as, x < a ∨ a + headerSize ≤ x) → m'.byte x = m.byte x

namespace SameBut

variable {as : List Nat} {m m' m'' : Memory}

theorem refl (as : List Nat) (m : Memory) : SameBut as m m := fun _ _ => rfl

theorem trans (h : SameBut as m m') (h' : SameBut as m' m'') : SameBut as m m'' :=
  fun x hx => (h' x hx).trans (h x hx)

theorem mono {bs : List Nat} (h : SameBut as m m') (hs : as ⊆ bs) : SameBut bs m m' :=
  fun x hx => h x fun a ha => hx a (hs ha)

theorem header (h : SameBut as m m') {a : Nat}
    (ha : ∀ c ∈ as, c + headerSize ≤ a ∨ a + headerSize ≤ c) : m'.header a = m.header a := by
  apply header_congr
  intro x hl hr
  refine h x fun c hc => ?_
  have := ha c hc
  omega

end SameBut

theorem setSize_sameBut (m : Memory) (a size : Nat) : SameBut [a] m (m.setSize a size) := by
  intro x hx
  have := hx a (by simp)
  simp only [headerSize] at this
  exact m.write_outside (by rw [length_lowBytes]; omega)

theorem setNext_sameBut (m : Memory) (a : Nat) (next : Option Nat) :
    SameBut [a] m (m.setNext a next) := by
  intro x hx
  have := hx a (by simp)
  simp only [headerSize] at this
  exact m.write_outside (by rw [length_lowBytes]; omega)

theorem setFree_sameBut (m : Memory) (a : Nat) (free : Bool) :
    SameBut [a] m (m.setFree a free) := by
  intro x hx
  have := hx a (by simp)
  simp only [headerSize] at this
  exact m.write_outside (by simp only [List.length_singleton]; omega)

theorem setHeader_sameBut (m : Memory) (a : Nat) (h : Header) :
    SameBut [a] m (m.setHeader a h) :=
  ((m.setSize_sameBut a h.size).trans (setNext_sameBut _ a h.next)).trans
    (setFree_sameBut _ a h.free)

def Linkable (next : Option Nat) : Prop := ∀ a ∈ next, 0 < a ∧ a < wordLimit

theorem header_setSize (m : Memory) (a : Nat) {size : Nat} (h : size < wordLimit) :
    (m.setSize a size).header a = { m.header a with size } := by
  have hnext : (m.setSize a size).word (a + 8) = m.word (a + 8) :=
    word_congr fun x hl hr => m.write_outside (by rw [length_lowBytes]; omega)
  have hfree : (m.setSize a size).byte (a + 16) = m.byte (a + 16) :=
    m.write_outside (by rw [length_lowBytes]; omega)
  have hsize : (m.setSize a size).word a = size := m.word_write a h
  simp only [header, hsize, hnext, hfree]

theorem header_setNext (m : Memory) (a : Nat) {next : Option Nat} (h : Linkable next) :
    (m.setNext a next).header a = { m.header a with next } := by
  have hsize : (m.setNext a next).word a = m.word a :=
    word_congr fun x hl hr => m.write_outside (by rw [length_lowBytes]; omega)
  have hfree : (m.setNext a next).byte (a + 16) = m.byte (a + 16) :=
    m.write_outside (by rw [length_lowBytes]; omega)
  have hlt : next.getD 0 < wordLimit := by
    cases next with
    | none => simp
    | some p => exact (h p rfl).2
  have hnext : (m.setNext a next).word (a + 8) = next.getD 0 := m.word_write (a + 8) hlt
  simp only [header, hsize, hfree, hnext]
  cases next with
  | none => rfl
  | some p => rw [Option.getD_some, if_neg (Nat.ne_of_gt (h p rfl).1)]

theorem header_setFree (m : Memory) (a : Nat) (free : Bool) :
    (m.setFree a free).header a = { m.header a with free } := by
  have hsize : (m.setFree a free).word a = m.word a :=
    word_congr fun x hl hr => m.write_outside (by omega)
  have hnext : (m.setFree a free).word (a + 8) = m.word (a + 8) :=
    word_congr fun x hl hr => m.write_outside (by omega)
  have hfree : ((m.setFree a free).byte (a + 16) != 0) = free := by
    cases free <;> simp [setFree, write]
  simp only [header, hsize, hnext, hfree]

theorem header_setHeader (m : Memory) (a : Nat) {h : Header} (hs : h.size < wordLimit)
    (hn : Linkable h.next) : (m.setHeader a h).header a = h := by
  rw [setHeader, header_setFree, header_setNext _ a hn, header_setSize _ a hs]

end Memory

end Freestanding.Heap
