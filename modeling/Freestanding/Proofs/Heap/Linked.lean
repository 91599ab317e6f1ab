import Freestanding.Proofs.Heap.Arrangement
import Freestanding.Proofs.Heap.Memory

/-!
# The list of blocks in memory

Blocks are linked where the header at the address of each block holds its size,
whether it is free, and the address of the next. A walk along such headers
meets the blocks of the list. Carving, joining and linking write headers of
the list only, each in the block that is carved or in the headers of listed
blocks, and lead from linked blocks to linked blocks.
-/

set_option autoImplicit false

namespace Freestanding.Heap

open Memory (SameBut Linkable)

/-- The headers of blocks that follow each other, the last one with `finish` for
its next. -/
def Linked (m : Memory) (finish : Option Nat) : List Block → Prop
  | [] => True
  | b :: bs =>
    m.header b.address = ⟨b.size,b.free,(firstAddress? bs).or finish⟩ ∧ Linked m finish bs

@[simp]
theorem firstAddress?_nil : firstAddress? [] = none := rfl

@[simp]
theorem firstAddress?_cons (b : Block) (bs : List Block) :
    firstAddress? (b :: bs) = some b.address := rfl

theorem firstAddress?_append (bs cs : List Block) :
    firstAddress? (bs ++ cs) = (firstAddress? bs).or (firstAddress? cs) := by
  cases bs <;> rfl

theorem linked_append {m : Memory} {finish : Option Nat} {bs cs : List Block} :
    Linked m finish (bs ++ cs) ↔
      Linked m ((firstAddress? cs).or finish) bs ∧ Linked m finish cs := by
  induction bs with
  | nil => simp [Linked]
  | cons b bs ih =>
    rw [List.cons_append, Linked, Linked, ih, firstAddress?_append, Option.or_assoc, and_assoc]

theorem Linked.congr {m m' : Memory} {finish : Option Nat} {bs : List Block}
    (h : Linked m finish bs) (hm : ∀ b ∈ bs, m'.header b.address = m.header b.address) :
    Linked m' finish bs := by
  induction bs with
  | nil => trivial
  | cons b bs ih =>
    exact ⟨(hm b (by simp)).trans h.1,ih h.2 fun c hc => hm c (by simp [hc])⟩

theorem Linked.walk {m : Memory} {bs : List Block} (h : Linked m none bs) {n : Nat}
    (hn : bs.length ≤ n) : Heap.walk m.header n (firstAddress? bs) = bs := by
  induction bs generalizing n with
  | nil => cases n <;> rfl
  | cons b bs ih =>
    cases n with
    | zero => simp at hn
    | succ n =>
      obtain ⟨hb,hrest⟩ := h
      rw [Option.or_none] at hb
      rw [firstAddress?, List.head?_cons, Option.map_some, Heap.walk, hb,
        ih hrest (Nat.le_of_succ_le_succ hn)]

/-! ## Headers apart -/

/-- Headers in order of address that do not overlap, all within the machine
word. -/
structure Spaced (bs : List Block) : Prop where
  apart : bs.Pairwise fun b c => b.address + headerSize ≤ c.address
  bounded : ∀ b ∈ bs, b.address < wordLimit

namespace Spaced

variable {b : Block} {bs : List Block}

theorem tail (h : Spaced (b :: bs)) : Spaced bs :=
  ⟨(List.pairwise_cons.mp h.apart).2,fun c hc => h.bounded c (by simp [hc])⟩

theorem congr {cs : List Block} (h : Spaced bs)
    (he : cs.map Block.address = bs.map Block.address) : Spaced cs := by
  constructor
  · have hp : (cs.map Block.address).Pairwise fun a a' => a + headerSize ≤ a' := by
      rw [he]
      exact List.pairwise_map.mpr h.apart
    exact List.pairwise_map.mp hp
  · intro c hc
    have hm := List.mem_map_of_mem (f := Block.address) hc
    rw [he] at hm
    obtain ⟨d,hd,hdc⟩ := List.mem_map.mp hm
    exact hdc ▸ h.bounded d hd

theorem linkable (h : Spaced (b :: bs)) : Linkable (firstAddress? bs) := by
  intro a ha
  cases bs with
  | nil => cases ha
  | cons c bs =>
    have hca : c.address = a := Option.some.inj ha
    have := (List.pairwise_cons.mp h.apart).1 c (by simp)
    subst hca
    simp only [headerSize] at this
    exact ⟨by omega,h.bounded c (by simp)⟩

end Spaced

theorem Arranged.spaced {rs : List Region} {bs : List Block} (h : Arranged rs bs) :
    Spaced bs := by
  constructor
  · refine h.before.imp_of_mem fun {b c} hb _ hbc => ?_
    have := (h.sized b hb).header_lt
    simp only [Block.Before, Block.finish] at hbc
    omega
  · intro b hb
    obtain ⟨r,hr,hw⟩ := laid_within h.laid hb
    have hz := (h.sized b hb).size_pos
    have hf := h.bounded r hr
    simp only [Block.finish] at hw
    omega

theorem Arranged.header_apart {rs : List Region} {bs : List Block} (h : Arranged rs bs)
    {b c : Block} (hb : b ∈ bs) (hc : c ∈ bs) :
    c.address + headerSize ≤ b.payload ∨ b.finish ≤ c.address := by
  by_cases hbc : b = c
  · rw [hbc]
    exact Or.inl (Nat.le_refl _)
  · have hz := (h.sized c hc).header_lt
    have hap := h.apart hb hc hbc
    simp only [Block.Apart, Block.Before, Block.finish, Block.payload] at *
    omega

theorem Arranged.payload_same {rs : List Region} {bs : List Block} (h : Arranged rs bs)
    {m m' : Memory} (hm : SameBut (bs.map Block.address) m m') {b : Block} (hb : b ∈ bs) {a : Nat}
    (ha : b.payload ≤ a) (hl : a < b.finish) : m'.byte a = m.byte a := by
  apply hm
  intro x hx
  obtain ⟨c,hc,rfl⟩ := List.mem_map.mp hx
  have := h.header_apart hb hc
  omega

theorem Arranged.outside_region {rs : List Region} {bs : List Block} (h : Arranged rs bs)
    {r : Region} (hp : 0 < r.size) (hap : ∀ s ∈ rs, r.Apart s) {b : Block} (hb : b ∈ bs) :
    b.finish ≤ r.start ∨ r.finish ≤ b.address := by
  obtain ⟨s,hs,hl,hu⟩ := laid_within h.laid hb
  rcases (hap s hs).before hp (h.nonempty s hs) with hbefore | hbefore
  · exact Or.inr (Nat.le_trans hbefore hl)
  · exact Or.inl (Nat.le_trans hu hbefore)

/-! ## Carving -/

theorem carve_outside (m : Memory) {b : Block} {total x : Nat} (next : Option Nat)
    (hb : headerSize ≤ b.size) (hx : x < b.address ∨ b.finish ≤ x) :
    (m.carve b total next).byte x = m.byte x := by
  have hhead : x < b.address ∨ b.address + headerSize ≤ x := by
    simp only [Block.finish] at hx
    omega
  have hfree := m.setFree_sameBut b.address false x (by simpa using hhead)
  unfold Memory.carve
  split_ifs with hs
  · have htail : x < b.address + total ∨ b.address + total + headerSize ≤ x := by
      simp only [Block.finish, minSplit, headerSize] at *
      omega
    simp only
    rw [Memory.setNext_sameBut _ _ _ x (by simpa using hhead),
      Memory.setSize_sameBut _ _ _ x (by simpa using hhead),
      Memory.setHeader_sameBut _ _ _ x (by simpa using htail), hfree]
  · exact hfree

theorem carve_linked {m : Memory} {b : Block} {total : Nat} {next : Option Nat}
    (hb : m.header b.address = ⟨b.size,b.free,next⟩) (hn : Linkable next)
    (hz : b.finish ≤ wordLimit) (hw : b.size < wordLimit) (ht : headerSize ≤ total) :
    Linked (m.carve b total next) next (b.carve total) := by
  have hfree := m.header_setFree b.address false
  rw [hb] at hfree
  unfold Memory.carve Block.carve
  split_ifs with hs
  · simp only [Block.finish, minSplit, headerSize] at hz hs ht
    have hat : Linkable (some (b.address + total)) := by
      intro a ha
      obtain rfl := Option.some.inj ha
      omega
    have hkept := (Memory.setHeader_sameBut (m.setFree b.address false) (b.address + total)
      ⟨b.size - total,true,next⟩).header (a := b.address)
      (by simp only [List.mem_singleton, forall_eq, headerSize]; omega)
    simp only [Linked, firstAddress?, List.head?_cons, List.head?_nil, Option.map_some,
      Option.map_none, Option.some_or, Option.none_or, and_true]
    constructor
    · rw [Memory.header_setNext _ _ hat, Memory.header_setSize _ _ (by omega), hkept, hfree]
    · have hsame := (Memory.setSize_sameBut ((m.setFree b.address false).setHeader
        (b.address + total) ⟨b.size - total,true,next⟩) b.address total).trans
        (Memory.setNext_sameBut _ b.address (some (b.address + total)))
      rw [hsame.header (by simp only [List.mem_singleton, forall_eq, headerSize]; omega),
        Memory.header_setHeader _ _ (by simp only; omega) hn]
  · exact ⟨hfree,trivial⟩

theorem carveHeaders_split {pre post : List Block} {b : Block} (total : Nat) (m : Memory)
    (h : ∀ c ∈ pre, c.address ≠ b.address) :
    carveHeaders b.address total (pre ++ b :: post) m = m.carve b total (firstAddress? post) := by
  induction pre with
  | nil => simp [carveHeaders]
  | cons c pre ih =>
    rw [List.cons_append, carveHeaders, if_neg (h c (by simp)),
      ih fun d hd => h d (by simp [hd])]

theorem Linked.carve {rs : List Region} {pre post : List Block} {b : Block} {total : Nat}
    {m : Memory} (h : Linked m none (pre ++ b :: post)) (ha : Arranged rs (pre ++ b :: post))
    (hw : b.size < wordLimit) (ht : headerSize ≤ total) :
    Linked (m.carve b total (firstAddress? post)) none (pre ++ b.carve total ++ post) := by
  have hb : b ∈ pre ++ b :: post := by simp
  obtain ⟨r,hr,-,hf⟩ := laid_within ha.laid hb
  have hsize := Nat.le_of_lt (ha.sized b hb).header_lt
  have hframe : ∀ c ∈ pre ++ b :: post, c ≠ b →
      (m.carve b total (firstAddress? post)).header c.address = m.header c.address := by
    intro c hc hne
    apply Memory.header_congr
    intro x hl hu
    apply carve_outside _ _ hsize
    have hcz := (ha.sized c hc).header_lt
    have hap := ha.apart hc hb hne
    simp only [Block.Apart, Block.Before, Block.finish] at hap ⊢
    omega
  have hne := List.pairwise_append.mp ha.address_lt
  have hfirst : firstAddress? (b.carve total ++ post) = firstAddress? (b :: post) := by
    unfold Block.carve
    split <;> rfl
  obtain ⟨hpre,hhead,hpost⟩ := linked_append.mp h
  rw [Option.or_none] at hhead
  rw [List.append_assoc, linked_append, hfirst, linked_append]
  refine ⟨hpre.congr fun c hc => hframe c (by simp [hc]) ?_,?_,
    hpost.congr fun c hc => hframe c (by simp [hc]) ?_⟩
  · rintro rfl
    exact Nat.lt_irrefl _ (hne.2.2 c hc c (by simp))
  · have hspaced : Spaced (b :: post) :=
      ⟨(List.pairwise_append.mp ha.spaced.apart).2.1,
        fun c hc => ha.spaced.bounded c (List.mem_append_right pre hc)⟩
    rw [Option.or_none]
    exact carve_linked hhead hspaced.linkable (Nat.le_trans hf (ha.bounded r hr)) hw ht
  · rintro rfl
    exact Nat.lt_irrefl _ ((List.pairwise_cons.mp hne.2.1).1 c hc)

/-! ## Joining -/

theorem mergeHeadersFrom_sameBut (takes : Block → Block → Bool) (b : Block) (cs : List Block)
    (m : Memory) :
    SameBut ((b :: cs).map Block.address) m (mergeHeadersFrom takes b cs m) := by
  induction cs generalizing b m with
  | nil => exact .refl _ m
  | cons c cs ih =>
    rw [mergeHeadersFrom]
    split
    · have hset := (m.setSize_sameBut b.address (b.size + c.size)).trans
        (Memory.setNext_sameBut _ b.address (firstAddress? cs))
      refine (hset.mono (by simp)).trans ((ih _ _).mono ?_)
      intro a ha
      simp only [List.map_cons, List.mem_cons] at ha ⊢
      exact ha.imp_right Or.inr
    · refine (ih _ _).mono ?_
      intro a ha
      exact List.mem_cons_of_mem _ ha

theorem firstAddress?_coalesceFrom (rs : List Region) (b : Block) (cs : List Block) :
    firstAddress? (coalesceFrom rs b cs).1 = some b.address := by
  obtain ⟨d,ds,he,ha,-⟩ := coalesceFrom_head rs b cs
  rw [he, firstAddress?, List.head?_cons, Option.map_some, ha]

/-- A pass of joining keeps the headers in step with the blocks. -/
theorem mergeHeadersFrom_linked {rs : List Region} (hr : ∀ r ∈ rs, r.size < wordLimit)
    {pre cs : List Block} {b : Block} {m : Memory} (hlaid : Laid rs (pre ++ b :: cs))
    (hs : Spaced (b :: cs)) (h : Linked m none (b :: cs)) :
    Linked (mergeHeadersFrom (joins rs) b cs m) none (coalesceFrom rs b cs).1 := by
  induction cs generalizing pre b m with
  | nil => exact h
  | cons c cs ih =>
    obtain ⟨hb,hc,hrest⟩ := h
    obtain ⟨hspace,-⟩ := List.pairwise_cons.mp hs.apart
    cases hj : joins rs b c with
    | true =>
      obtain ⟨hbf,-,-,hstart⟩ := joins_iff.mp hj
      have hjoined := laid_join hlaid hstart true
      have hsize : b.size + c.size < wordLimit := by
        obtain ⟨r,hm,hw⟩ := laid_within hjoined (b := ⟨b.address,b.size + c.size,true⟩) (by simp)
        have := hr r hm
        simp only [Block.finish, Region.finish] at hw
        omega
      have hs' : Spaced (⟨b.address,b.size + c.size,true⟩ :: cs) :=
        ⟨List.pairwise_cons.mpr ⟨fun d hd => hspace d (by simp [hd]),hs.tail.tail.apart⟩,
          fun d hd => by
            rcases List.mem_cons.mp hd with rfl | hd
            · exact hs.bounded b (by simp)
            · exact hs.bounded d (by simp [hd])⟩
      rw [coalesceFrom_of_joins hj, mergeHeadersFrom, if_pos hj]
      refine ih hjoined hs' ⟨?_,hrest.congr fun d hd => ?_⟩
      · rw [Memory.header_setNext _ _ hs.tail.linkable, Memory.header_setSize _ _ hsize, hb, hbf,
          Option.or_none, Option.or_none]
      · have hset := (m.setSize_sameBut b.address (b.size + c.size)).trans
          (Memory.setNext_sameBut _ b.address (firstAddress? cs))
        refine hset.header fun a ha => ?_
        rw [List.mem_singleton.mp ha]
        exact Or.inl (hspace d (by simp [hd]))
    | false =>
      rw [coalesceFrom_of_severed hj, mergeHeadersFrom, if_neg (by simp [hj])]
      refine ⟨?_,@ih (pre ++ [b]) c m (by simpa using hlaid) hs.tail ⟨hc,hrest⟩⟩
      have hsame := mergeHeadersFrom_sameBut (joins rs) c cs m
      rw [hsame.header, hb, firstAddress?_coalesceFrom]
      · rfl
      · intro a ha
        obtain ⟨d,hd,rfl⟩ := List.mem_map.mp ha
        exact Or.inr (hspace d hd)

theorem Linked.release {pre post : List Block} {b : Block} {m : Memory}
    (h : Linked m none (pre ++ b :: post)) (hs : Spaced (pre ++ b :: post)) :
    Linked (m.setFree b.address true) none (pre ++ { b with free := true } :: post) := by
  obtain ⟨hpre,hb,hpost⟩ := linked_append.mp h
  obtain ⟨-,hright,hcross⟩ := List.pairwise_append.mp hs.apart
  have hsame := m.setFree_sameBut b.address true
  refine linked_append.mpr ⟨hpre.congr fun c hc => ?_,?_,hpost.congr fun c hc => ?_⟩
  · exact hsame.header (by simpa using Or.inr (hcross c hc b (by simp)))
  · rw [Memory.header_setFree, hb]
  · exact hsame.header (by simpa using Or.inl ((List.pairwise_cons.mp hright).1 c hc))

theorem mergeHeaders_sameBut (takes : Block → Block → Bool) (bs : List Block) (m : Memory) :
    SameBut (bs.map Block.address) m (mergeHeaders takes bs m) := by
  cases bs with
  | nil => exact .refl _ m
  | cons b bs => exact mergeHeadersFrom_sameBut takes b bs m

theorem mergeHeaders_linked {rs : List Region} (hr : ∀ r ∈ rs, r.size < wordLimit)
    {bs : List Block} {m : Memory} (hlaid : Laid rs bs) (hs : Spaced bs) (h : Linked m none bs) :
    Linked (mergeHeaders (joins rs) bs m) none (coalesce rs bs).1 := by
  cases bs with
  | nil => trivial
  | cons b bs => exact @mergeHeadersFrom_linked rs hr [] bs b m hlaid hs h

/-! ## Linking a new block -/

theorem linkBehind_sameBut (a : Nat) (b : Block) (cs : List Block) (m : Memory) :
    SameBut (a :: (b :: cs).map Block.address) m (linkBehind a b cs m) := by
  have hset (next : Option Nat) : SameBut (a :: (b :: cs).map Block.address) m
      ((m.setNext a next).setNext b.address (some a)) :=
    ((m.setNext_sameBut a next).mono (by simp)).trans
      ((Memory.setNext_sameBut _ b.address (some a)).mono (by simp))
  induction cs generalizing b with
  | nil => exact hset none
  | cons c cs ih =>
    rw [linkBehind]
    split
    · exact hset (some c.address)
    · refine (ih c fun next => ?_).mono ?_
      · exact ((m.setNext_sameBut a next).mono (by simp)).trans
          ((Memory.setNext_sameBut _ c.address (some a)).mono (by simp))
      · intro x hx
        simp only [List.map_cons, List.mem_cons] at hx ⊢
        exact hx.imp_right Or.inr

theorem linkHeader_sameBut (a : Nat) (bs : List Block) (m : Memory) :
    SameBut (a :: bs.map Block.address) m (linkHeader a bs m) := by
  cases bs with
  | nil => exact (m.setNext_sameBut a none).mono (by simp)
  | cons b bs =>
    rw [linkHeader]
    split
    · exact (m.setNext_sameBut a _).mono (by simp)
    · exact linkBehind_sameBut a b bs m

theorem newHeader_sameBut (n : Block) (h : Header) (bs : List Block) (m : Memory) :
    SameBut ((insertBlock n bs).map Block.address) m
      (linkHeader n.address bs (m.setHeader n.address h)) := by
  have hset : SameBut (n.address :: bs.map Block.address) m
      (linkHeader n.address bs (m.setHeader n.address h)) :=
    ((m.setHeader_sameBut n.address h).mono (by simp)).trans (linkHeader_sameBut n.address bs _)
  refine hset.mono fun a ha => ?_
  rcases List.mem_cons.mp ha with rfl | ha
  · exact List.mem_map.mpr ⟨n,mem_insertBlock.mpr (Or.inl rfl),rfl⟩
  · obtain ⟨c,hc,rfl⟩ := List.mem_map.mp ha
    exact List.mem_map.mpr ⟨c,mem_insertBlock.mpr (Or.inr hc),rfl⟩

section Insert

variable {n : Block} {m : Memory}

theorem splice_linked {b : Block} {cs : List Block} (hs : Spaced (b :: n :: cs))
    (hnew : ∃ next, m.header n.address = ⟨n.size,n.free,next⟩) (h : Linked m none (b :: cs)) :
    Linked ((m.setNext n.address (firstAddress? cs)).setNext b.address (some n.address)) none
      (b :: n :: cs) := by
  obtain ⟨next,hnew⟩ := hnew
  obtain ⟨hb,hrest⟩ := h
  obtain ⟨hbehind,happart⟩ := List.pairwise_cons.mp hs.apart
  obtain ⟨hnext,-⟩ := List.pairwise_cons.mp happart
  have hbn := hbehind n (by simp)
  have hfirst := m.setNext_sameBut n.address (firstAddress? cs)
  have hlast := (m.setNext n.address (firstAddress? cs)).setNext_sameBut b.address
    (some n.address)
  refine ⟨?_,?_,hrest.congr fun d hd => ?_⟩
  · have hlink := hs.linkable
    rw [firstAddress?_cons] at hlink ⊢
    rw [Memory.header_setNext _ _ hlink, hfirst.header (by simpa using Or.inr hbn), hb,
      Option.or_none, Option.or_none]
  · rw [hlast.header (by simpa using Or.inl hbn), Memory.header_setNext _ _ hs.tail.linkable,
      hnew, Option.or_none]
  · rw [hlast.header (by simpa using Or.inl (hbehind d (by simp [hd]))),
      hfirst.header (by simpa using Or.inl (hnext d hd))]

theorem linkBehind_linked {b : Block} {cs : List Block} (hs : Spaced (b :: insertBlock n cs))
    (hnew : ∃ next, m.header n.address = ⟨n.size,n.free,next⟩) (h : Linked m none (b :: cs)) :
    Linked (linkBehind n.address b cs m) none (b :: insertBlock n cs) := by
  induction cs generalizing b with
  | nil =>
    have hs' := splice_linked hs hnew h
    rwa [firstAddress?_nil] at hs'
  | cons c cs ih =>
    rw [insertBlock] at hs ⊢
    rw [linkBehind]
    split_ifs at hs ⊢ with hlt
    · have hs' := splice_linked hs hnew h
      rwa [firstAddress?_cons] at hs'
    · obtain ⟨hbehind,-⟩ := List.pairwise_cons.mp hs.apart
      refine ⟨?_,ih hs.tail h.2⟩
      rw [(linkBehind_sameBut n.address c cs m).header, h.1]
      · rfl
      · intro a ha
        rcases List.mem_cons.mp ha with rfl | ha
        · exact Or.inr (hbehind n (by simp [mem_insertBlock]))
        · obtain ⟨d,hd,rfl⟩ := List.mem_map.mp ha
          refine Or.inr (hbehind d ?_)
          rcases List.mem_cons.mp hd with rfl | hd
          · simp
          · simp [mem_insertBlock, hd]

theorem linkHeader_linked {bs : List Block} (hs : Spaced (insertBlock n bs))
    (hnew : ∃ next, m.header n.address = ⟨n.size,n.free,next⟩) (h : Linked m none bs) :
    Linked (linkHeader n.address bs m) none (insertBlock n bs) := by
  cases bs with
  | nil =>
    obtain ⟨next,hnew⟩ := hnew
    refine ⟨?_,trivial⟩
    have hlink := hs.linkable
    rw [firstAddress?_nil] at hlink ⊢
    rw [linkHeader, Memory.header_setNext _ _ hlink, hnew, Option.or_none]
  | cons b bs =>
    rw [insertBlock] at hs ⊢
    rw [linkHeader]
    split_ifs at hs ⊢ with hlt
    · obtain ⟨next,hnew⟩ := hnew
      obtain ⟨hbehind,-⟩ := List.pairwise_cons.mp hs.apart
      refine ⟨?_,h.congr fun d hd => ?_⟩
      · have hlink := hs.linkable
        rw [firstAddress?_cons] at hlink ⊢
        rw [Memory.header_setNext _ _ hlink, hnew, Option.or_none]
      · exact (m.setNext_sameBut n.address _).header (by simpa using Or.inl (hbehind d hd))
    · exact linkBehind_linked hs hnew h

theorem Linked.insert {rs : List Region} {bs : List Block} {r : Region} (h : Linked m none bs)
    (ha : Arranged rs bs)
    (hi : Arranged (insertRegion r rs) (insertBlock ⟨r.start,r.size,true⟩ bs))
    (hap : ∀ s ∈ rs, r.Apart s) (hw : r.size < wordLimit) (other : Memory) :
    Linked (linkHeader r.start bs
      ((m.overlay r other).setHeader r.start ⟨r.size,true,none⟩)) none
      (insertBlock ⟨r.start,r.size,true⟩ bs) := by
  have hz := (hi.sized _ (mem_insertBlock.mpr (Or.inl rfl))).header_lt
  simp only at hz
  have hnew := (m.overlay r other).header_setHeader r.start (h := ⟨r.size,true,none⟩) hw
    (by simp [Linkable])
  refine @linkHeader_linked ⟨r.start,r.size,true⟩ _ _ hi.spaced ⟨none,hnew⟩ (h.congr ?_)
  intro b hb
  have hout := ha.outside_region (by omega) hap hb
  have hbz := (ha.sized b hb).header_lt
  simp only [Block.finish, Region.finish] at hout
  rw [(Memory.setHeader_sameBut _ _ _).header]
  · apply Memory.header_congr
    intro x hl hu
    apply Memory.overlay_outside
    simp only [Region.finish]
    omega
  · simp only [List.mem_singleton, forall_eq]
    omega

end Insert

end Freestanding.Heap
