import Freestanding.Proofs.Heap.Layout
import Freestanding.Word

/-!
# Arrangements of blocks

An arrangement is what a heap keeps at all times: regions in order, blocks
that tile them, sizes that are multiples of the alignment, and no free block
that could take in the next. Putting a free block to use, giving a block back
and adding a region each lead from one arrangement to another, and change the
blocks in use in the one way they are meant to.
-/

set_option autoImplicit false

namespace Freestanding.Heap

/-- What `takesIn` asks, with a walk over all regions for the search. -/
def joins (rs : List Region) (b c : Block) : Bool :=
  b.free && c.free && b.finish == c.address && !(rs.any fun r => r.start == c.address)

theorem takesIn_eq_joins {rs : List Region} (h : Ascending rs) : takesIn rs = joins rs := by
  funext b c
  have hstart : startsRegion c.address rs = rs.any fun r => r.start == c.address := by
    rw [Bool.eq_iff_iff, startsRegion_iff h]
    simp
  rw [takesIn, joins, hstart]

def coalesceFrom (rs : List Region) (b : Block) (cs : List Block) : List Block × Nat :=
  mergeFrom (joins rs) b cs

def coalesce (rs : List Region) (bs : List Block) : List Block × Nat := merge (joins rs) bs

theorem coalesceFrom_of_joins {rs : List Region} {b c : Block} (h : joins rs b c = true)
    (cs : List Block) : coalesceFrom rs b (c :: cs) =
      ((coalesceFrom rs ⟨b.address,b.size + c.size,true⟩ cs).1,
        (coalesceFrom rs ⟨b.address,b.size + c.size,true⟩ cs).2 + 1) := by
  simp only [coalesceFrom, mergeFrom, h, if_true]

theorem coalesceFrom_of_severed {rs : List Region} {b c : Block} (h : joins rs b c = false)
    (cs : List Block) : coalesceFrom rs b (c :: cs) =
      (b :: (coalesceFrom rs c cs).1, (coalesceFrom rs c cs).2) := by
  simp only [coalesceFrom, mergeFrom, h, Bool.false_eq_true, if_false]

def Separated (rs : List Region) (bs : List Block) : Prop :=
  bs.IsChain fun b c => joins rs b c = false

structure Arranged (rs : List Region) (bs : List Block) : Prop where
  ordered : rs.Pairwise Region.Before
  aligned : ∀ r ∈ rs, r.start % alignment = 0
  nonempty : ∀ r ∈ rs, 0 < r.size
  bounded : ∀ r ∈ rs, r.finish ≤ wordLimit
  laid : Laid rs bs
  sized : ∀ b ∈ bs, b.Sized
  separated : Separated rs bs

def used (bs : List Block) : List Block := bs.filter (!·.free)

theorem mem_used {bs : List Block} {b : Block} : b ∈ used bs ↔ b ∈ bs ∧ b.free = false := by
  simp [used]

theorem used_append (bs cs : List Block) : used (bs ++ cs) = used bs ++ used cs := by
  simp [used]

theorem used_cons (b : Block) (bs : List Block) :
    used (b :: bs) = if b.free then used bs else b :: used bs := by
  cases hb : b.free <;> simp [used, hb]

def Block.Apart (b c : Block) : Prop := b.Before c ∨ c.Before b

instance : Std.Symm Block.Apart := ⟨fun _ _ => Or.symm⟩

theorem Block.Sized.size_pos {b : Block} (h : b.Sized) : 0 < b.size :=
  Nat.lt_of_lt_of_le (by decide) h.2

theorem Block.Sized.header_lt {b : Block} (h : b.Sized) : headerSize < b.size :=
  Nat.lt_of_lt_of_le (by decide) h.2

namespace Arranged

variable {rs : List Region} {bs : List Block}

theorem before (h : Arranged rs bs) : bs.Pairwise Block.Before := laid_before h.laid h.ordered

theorem address_lt (h : Arranged rs bs) : bs.Pairwise fun b c => b.address < c.address := by
  refine h.before.imp_of_mem fun {b c} hb _ hbc => ?_
  have := (h.sized b hb).size_pos
  simp only [Block.Before, Block.finish] at hbc
  omega

theorem apart (h : Arranged rs bs) {b c : Block} (hb : b ∈ bs) (hc : c ∈ bs) (hbc : b ≠ c) :
    b.Apart c :=
  have hp : bs.Pairwise Block.Apart := h.before.imp Or.inl
  hp.forall hb hc hbc

theorem eq_of_address (h : Arranged rs bs) {b c : Block} (hb : b ∈ bs) (hc : c ∈ bs)
    (ha : b.address = c.address) : b = c := by
  by_contra hbc
  have hbs := (h.sized b hb).size_pos
  have hcs := (h.sized c hc).size_pos
  have hap := h.apart hb hc hbc
  simp only [Block.Apart, Block.Before, Block.finish] at hap
  omega

theorem address_aligned (h : Arranged rs bs) {b : Block} (hb : b ∈ bs) :
    b.address % alignment = 0 :=
  laid_aligned h.laid h.aligned h.sized hb

theorem used_address_lt (h : Arranged rs bs) :
    (used bs).Pairwise fun b c => b.address < c.address :=
  h.address_lt.sublist List.filter_sublist

theorem split (h : Arranged rs bs) {b : Block} (hb : b ∈ bs) :
    ∃ pre post, bs = pre ++ b :: post ∧ ∀ c ∈ pre, c.address ≠ b.address := by
  obtain ⟨pre,post,rfl⟩ := List.append_of_mem hb
  refine ⟨pre,post,rfl,fun c hc => ?_⟩
  exact Nat.ne_of_lt ((List.pairwise_append.mp h.address_lt).2.2 c hc b (by simp))

end Arranged

theorem carveAt_split {pre post : List Block} {b : Block} (total : Nat)
    (h : ∀ c ∈ pre, c.address ≠ b.address) :
    carveAt b.address total (pre ++ b :: post) = pre ++ b.carve total ++ post := by
  induction pre with
  | nil => simp [carveAt]
  | cons c pre ih =>
    simp only [List.cons_append, carveAt, if_neg (h c (by simp))]
    rw [ih (fun d hd => h d (by simp [hd]))]

theorem releaseAt_split {pre post : List Block} {b : Block}
    (h : ∀ c ∈ pre, c.address ≠ b.address) :
    releaseAt b.address (pre ++ b :: post) = pre ++ { b with free := true } :: post := by
  induction pre with
  | nil => simp [releaseAt]
  | cons c pre ih =>
    simp only [List.cons_append, releaseAt, if_neg (h c (by simp))]
    rw [ih (fun d hd => h d (by simp [hd]))]

theorem joins_eq_false_of_used_left (rs : List Region) {b : Block} (c : Block)
    (hb : b.free = false) : joins rs b c = false := by
  simp [joins, hb]

theorem joins_eq_false_of_used_right (rs : List Region) (b : Block) {c : Block}
    (hc : c.free = false) : joins rs b c = false := by
  simp [joins, hc]

theorem joins_eq_false_of_start {rs : List Region} {r : Region} (hr : r ∈ rs) (b : Block)
    {c : Block} (hc : r.start = c.address) : joins rs b c = false := by
  have : (rs.any fun s => s.start == c.address) = true := List.any_eq_true.mpr ⟨r,hr,by simp [hc]⟩
  simp [joins, this]

theorem joins_congr (rs : List Region) {b b' c c' : Block} (hf : b'.finish = b.finish)
    (hb : b'.free = b.free) (ha : c'.address = c.address) (hc : c'.free = c.free) :
    joins rs b' c' = joins rs b c := by
  simp only [joins, hf, hb, ha, hc]

def Block.heldSize (b : Block) (total : Nat) : Nat :=
  if minSplit ≤ b.size - total then total else b.size

theorem carve_used (b : Block) (total : Nat) :
    used (b.carve total) = [⟨b.address,b.heldSize total,false⟩] := by
  unfold Block.carve Block.heldSize
  split <;> simp [used]

theorem carve_tile (b : Block) {total : Nat} (ht : total ≤ b.size) :
    Tile b.address b.finish (b.carve total) := by
  unfold Block.carve
  split
  · simp only [Tile, Block.finish, true_and]
    omega
  · exact ⟨rfl,rfl⟩

theorem carve_sized {b : Block} {total : Nat} (hb : b.Sized) (ht : total % alignment = 0)
    (hm : minSplit ≤ total) : ∀ c ∈ b.carve total, c.Sized := by
  intro c hc
  by_cases hs : minSplit ≤ b.size - total
  · simp only [Block.carve, if_pos hs, List.mem_cons, List.not_mem_nil, or_false] at hc
    rcases hc with rfl | rfl
    · exact ⟨ht,hm⟩
    · have hb := hb.1
      refine ⟨?_,hs⟩
      simp only [alignment] at *
      omega
  · simp only [Block.carve, if_neg hs, List.mem_singleton] at hc
    subst hc
    exact hb

theorem carve_separated {rs : List Region} {pre post : List Block} {b : Block} (total : Nat)
    (h : Separated rs (pre ++ b :: post)) (hb : b.free = true) (ht : total ≤ b.size) :
    Separated rs (pre ++ b.carve total ++ post) := by
  obtain ⟨hp,hq,-⟩ := List.isChain_append.mp h
  obtain ⟨hn,hq⟩ := List.isChain_cons.mp hq
  rw [Separated, List.append_assoc]
  refine List.isChain_append.mpr ⟨hp,?_,fun c _ d hd => ?_⟩
  · unfold Block.carve
    split
    · refine List.isChain_cons_cons.mpr ⟨joins_eq_false_of_used_left rs _ rfl,?_⟩
      refine List.isChain_cons.mpr ⟨fun c hc => ?_,hq⟩
      rw [joins_congr rs (b := b) (c := c) (by simp only [Block.finish]; omega) hb.symm rfl rfl]
      exact hn c hc
    · exact List.isChain_cons.mpr ⟨fun c _ => joins_eq_false_of_used_left rs _ rfl,hq⟩
  · have hd' : d.free = false := by
      unfold Block.carve at hd
      split at hd <;> simp only [List.cons_append, List.head?_cons, Option.mem_some_iff] at hd <;>
        rw [← hd]
    exact joins_eq_false_of_used_right rs c hd'

theorem Arranged.carve {rs : List Region} {pre post : List Block} {b : Block} {total : Nat}
    (h : Arranged rs (pre ++ b :: post)) (hb : b.free = true) (ht : total ≤ b.size)
    (ha : total % alignment = 0) (hm : minSplit ≤ total) :
    Arranged rs (pre ++ b.carve total ++ post) where
  ordered := h.ordered
  aligned := h.aligned
  nonempty := h.nonempty
  bounded := h.bounded
  laid := laid_replace h.laid (carve_tile b ht)
  sized := by
    intro c hc
    simp only [List.mem_append] at hc
    rcases hc with (hc | hc) | hc
    · exact h.sized c (by simp [hc])
    · exact carve_sized (h.sized b (by simp)) ha hm c hc
    · exact h.sized c (by simp [hc])
  separated := carve_separated total h.separated hb ht

theorem joins_iff {rs : List Region} {b c : Block} : joins rs b c = true ↔
    b.free = true ∧ c.free = true ∧ b.finish = c.address ∧ ∀ r ∈ rs, r.start ≠ c.address := by
  simp [joins, and_assoc]

theorem coalesceFrom_head (rs : List Region) (b : Block) (cs : List Block) :
    ∃ d ds, (coalesceFrom rs b cs).1 = d :: ds ∧ d.address = b.address ∧ d.free = b.free := by
  induction cs generalizing b with
  | nil => exact ⟨b,[],rfl,rfl,rfl⟩
  | cons c cs ih =>
    cases hj : joins rs b c with
    | true =>
      obtain ⟨d,ds,he,ha,hf⟩ := ih ⟨b.address,b.size+c.size,true⟩
      exact ⟨d,ds,by rw [coalesceFrom_of_joins hj, he],ha,hf.trans (joins_iff.mp hj).1.symm⟩
    | false => exact ⟨b,(coalesceFrom rs c cs).1,by rw [coalesceFrom_of_severed hj],rfl,rfl⟩

theorem coalesceFrom_separated (rs : List Region) (b : Block) (cs : List Block) :
    Separated rs (coalesceFrom rs b cs).1 := by
  induction cs generalizing b with
  | nil => exact List.isChain_singleton b
  | cons c cs ih =>
    cases hj : joins rs b c with
    | true =>
      rw [coalesceFrom_of_joins hj]
      exact ih _
    | false =>
      obtain ⟨d,ds,he,ha,hf⟩ := coalesceFrom_head rs c cs
      have hc := ih c
      rw [coalesceFrom_of_severed hj]
      rw [he] at hc ⊢
      exact List.isChain_cons_cons.mpr ⟨(joins_congr rs rfl rfl ha hf).trans hj,hc⟩

theorem coalesceFrom_laid {rs : List Region} {pre cs : List Block} {b : Block}
    (h : Laid rs (pre ++ b :: cs)) : Laid rs (pre ++ (coalesceFrom rs b cs).1) := by
  induction cs generalizing b pre with
  | nil => exact h
  | cons c cs ih =>
    cases hj : joins rs b c with
    | true =>
      rw [coalesceFrom_of_joins hj]
      exact ih (laid_join h (joins_iff.mp hj).2.2.2 true)
    | false =>
      rw [coalesceFrom_of_severed hj]
      rw [List.append_cons] at h ⊢
      exact ih h

theorem coalesceFrom_sized {rs : List Region} {b : Block} {cs : List Block} (hb : b.Sized)
    (hc : ∀ c ∈ cs, c.Sized) : ∀ d ∈ (coalesceFrom rs b cs).1, d.Sized := by
  induction cs generalizing b with
  | nil => simpa [coalesceFrom, mergeFrom] using hb
  | cons c cs ih =>
    have hcs := fun d hd => hc d (List.mem_cons_of_mem c hd)
    have hc := hc c (by simp)
    cases hj : joins rs b c with
    | true =>
      rw [coalesceFrom_of_joins hj]
      refine ih ?_ hcs
      obtain ⟨⟨hb,hm⟩,hc,-⟩ := And.intro hb hc
      simp only [Block.Sized, alignment, minSplit] at *
      omega
    | false =>
      rw [coalesceFrom_of_severed hj]
      simp only [List.mem_cons, forall_eq_or_imp]
      exact ⟨hb,ih hc hcs⟩

theorem coalesceFrom_used (rs : List Region) (b : Block) (cs : List Block) :
    used (coalesceFrom rs b cs).1 = used (b :: cs) := by
  induction cs generalizing b with
  | nil => rfl
  | cons c cs ih =>
    cases hj : joins rs b c with
    | true =>
      obtain ⟨hb,hc,-⟩ := joins_iff.mp hj
      simp [coalesceFrom_of_joins hj, ih, used_cons, hb, hc]
    | false => simp [coalesceFrom_of_severed hj, used_cons b, ih]

theorem coalesce_used (rs : List Region) (bs : List Block) :
    used (coalesce rs bs).1 = used bs := by
  cases bs with
  | nil => rfl
  | cons b bs => exact coalesceFrom_used rs b bs

/-- A block is given back and free neighbours are joined. -/
theorem Arranged.release {rs : List Region} {pre post : List Block} {b : Block}
    (h : Arranged rs (pre ++ b :: post)) :
    Arranged rs (coalesce rs (pre ++ { b with free := true } :: post)).1 := by
  have hl : Laid rs (pre ++ { b with free := true } :: post) := by
    simpa using @laid_replace rs pre post b h.laid [{ b with free := true }] ⟨rfl,rfl⟩
  have hs : ∀ c ∈ pre ++ { b with free := true } :: post, c.Sized := by
    intro c hc
    simp only [List.mem_append, List.mem_cons] at hc
    rcases hc with hc | rfl | hc
    · exact h.sized c (by simp [hc])
    · exact h.sized b (by simp)
    · exact h.sized c (by simp [hc])
  generalize hbs : pre ++ { b with free := true } :: post = bs at hl hs
  cases bs with
  | nil => simp at hbs
  | cons d ds =>
    exact ⟨h.ordered,h.aligned,h.nonempty,h.bounded,@coalesceFrom_laid rs [] ds d hl,
      coalesceFrom_sized (hs d (by simp)) (fun c hc => hs c (by simp [hc])),
      coalesceFrom_separated rs d ds⟩

theorem mem_insertBlock {b c : Block} {bs : List Block} :
    c ∈ insertBlock b bs ↔ c = b ∨ c ∈ bs := by
  induction bs with
  | nil => simp [insertBlock]
  | cons d bs ih =>
    unfold insertBlock
    split
    · simp
    · simp only [List.mem_cons, ih]
      exact or_left_comm

theorem insertBlock_head {b c : Block} {bs : List Block} (h : c ∈ (insertBlock b bs).head?) :
    c = b ∨ c ∈ bs.head? := by
  cases bs with
  | nil => simpa [insertBlock, eq_comm] using h
  | cons d bs =>
    unfold insertBlock at h
    split at h
    · exact Or.inl (by simpa [eq_comm] using h)
    · exact Or.inr h

theorem insertBlock_isChain {R : Block → Block → Prop} {b : Block} {bs : List Block}
    (h : bs.IsChain R) (hl : ∀ c ∈ bs, R c b) (hr : ∀ c ∈ bs, R b c) :
    (insertBlock b bs).IsChain R := by
  induction bs with
  | nil => exact List.isChain_singleton b
  | cons c bs ih =>
    unfold insertBlock
    split
    · exact List.isChain_cons_cons.mpr ⟨hr c (by simp),h⟩
    · obtain ⟨hn,h⟩ := List.isChain_cons.mp h
      refine List.isChain_cons.mpr ⟨fun d hd => ?_,
        ih h (fun e he => hl e (by simp [he])) (fun e he => hr e (by simp [he]))⟩
      rcases insertBlock_head hd with rfl | hd
      · exact hl c (by simp)
      · exact hn d hd

theorem insertRegion_ordered {r : Region} {rs : List Region} (h : rs.Pairwise Region.Before)
    (hz : ∀ s ∈ rs, 0 < s.size) (hd : ∀ s ∈ rs, r.Before s ∨ s.Before r) :
    (insertRegion r rs).Pairwise Region.Before := by
  induction rs with
  | nil => exact List.pairwise_singleton _ r
  | cons s rs ih =>
    have hasc := ascending_of_before h
    obtain ⟨hs,h⟩ := List.pairwise_cons.mp h
    have hrs := hd s (by simp)
    have hsz := hz s (by simp)
    by_cases hle : r.start ≤ s.start
    · rw [insertRegion_of_le hasc hle]
      refine .cons (fun t ht => ?_) (.cons hs h)
      rcases List.mem_cons.mp ht with rfl | ht
      · simp only [Region.Before, Region.finish] at hrs ⊢
        omega
      · have := hs t ht
        simp only [Region.Before, Region.finish] at hrs this ⊢
        omega
    · rw [insertRegion_of_lt (ascending_of_before h) (Nat.lt_of_not_le hle)]
      refine .cons (fun t ht => ?_)
        (ih h (fun t ht => hz t (by simp [ht])) fun t ht => hd t (by simp [ht]))
      rcases mem_insertRegion.mp ht with rfl | ht
      · simp only [Region.Before, Region.finish] at hrs ⊢
        omega
      · exact hs t ht

/-- A block that fills a new region joins neither neighbour: one of the two
starts a region in either case. -/
theorem joins_new_region {r : Region} {rs : List Region} {bs : List Block} (h : Laid rs bs)
    (hz : ∀ b ∈ bs, b.Sized) (hr : 0 < r.size) (hd : ∀ s ∈ rs, r.Before s ∨ s.Before r)
    {c : Block} (hc : c ∈ bs) :
    joins (insertRegion r rs) ⟨r.start,r.size,true⟩ c = false := by
  by_contra hj
  obtain ⟨-,-,hf,hn⟩ := joins_iff.mp (by simpa using hj)
  obtain ⟨s,hs,hw⟩ := laid_within h hc
  have hcs := (hz c hc).size_pos
  have hsr := hn s (mem_insertRegion.mpr (Or.inr hs))
  rcases hd s hs with hb | hb <;>
    simp only [Region.Before, Region.finish, Block.finish] at hb hf hw <;> omega

theorem Separated.insertRegion {rs : List Region} {bs : List Block} (h : Separated rs bs)
    (r : Region) : Separated (insertRegion r rs) bs := by
  refine List.IsChain.imp (fun b c hbc => ?_) h
  by_contra hj
  obtain ⟨hb,hc,hf,hn⟩ := joins_iff.mp (by simpa using hj)
  rw [joins_iff.mpr ⟨hb,hc,hf,fun s hs => hn s (mem_insertRegion.mpr (Or.inr hs))⟩] at hbc
  simp at hbc

theorem Arranged.insert {rs : List Region} {bs : List Block} {r : Region} (h : Arranged rs bs)
    (ha : r.start % alignment = 0) (hz : r.size % alignment = 0) (hm : minSplit ≤ r.size)
    (hf : r.finish ≤ wordLimit) (hd : ∀ s ∈ rs, r.Apart s) :
    Arranged (insertRegion r rs) (insertBlock ⟨r.start,r.size,true⟩ bs) := by
  have hr : 0 < r.size := Nat.lt_of_lt_of_le (by decide) hm
  have hd' := fun s hs => (hd s hs).before hr (h.nonempty s hs)
  constructor
  case ordered => exact insertRegion_ordered h.ordered h.nonempty hd'
  case aligned => simpa [mem_insertRegion, ha] using h.aligned
  case nonempty => simpa [mem_insertRegion, hr] using h.nonempty
  case bounded => simpa [mem_insertRegion, hf] using h.bounded
  case laid => exact laid_insert h.laid h.ordered hr hd' h.nonempty true
  case sized =>
    simp only [mem_insertBlock, forall_eq_or_imp]
    exact ⟨⟨hz,hm⟩,h.sized⟩
  case separated =>
    exact insertBlock_isChain (h.separated.insertRegion r)
      (fun c _ => joins_eq_false_of_start (mem_insertRegion.mpr (Or.inl rfl)) c rfl)
      (fun c hc => joins_new_region h.laid h.sized hr hd' hc)

theorem insertBlock_used {b : Block} (bs : List Block) (hb : b.free = true) :
    used (insertBlock b bs) = used bs := by
  induction bs with
  | nil => simp [insertBlock, used, hb]
  | cons c bs ih =>
    unfold insertBlock
    split
    · simp [used_cons b, hb]
    · rw [used_cons, used_cons, ih]

end Freestanding.Heap
