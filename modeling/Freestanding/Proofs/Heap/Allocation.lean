import Freestanding.Proofs.Heap.Canonical
import Freestanding.Proofs.Heap.Failure
import Mathlib.Order.Bounds.Basic

/-!
# Where allocations are placed

An allocation takes the first free block that is large enough. Only if there
is none does it ask the store, once, for the least multiple of the increment
that is large enough. The block it takes is cut to size when the remainder is
worth a block, and all other blocks stay as they are.
-/

set_option autoImplicit false

namespace Freestanding.Heap

/-! ## Sizes -/

def needed (size : Nat) : Nat := (size + 7) / 8 * 8 + 24

theorem blockSize?_eq (size : Nat) :
    blockSize? size = if needed size < wordLimit then some (needed size) else none := by
  by_cases ha : size + 7 < wordLimit
  · have hsum : wordAdd? size (alignment - 1) = some (size + 7) := if_pos ha
    rw [blockSize?, alignUp?, hsum]
    rfl
  · have hsum : wordAdd? size (alignment - 1) = none := if_neg ha
    have hn : ¬needed size < wordLimit := by
      unfold needed
      omega
    rw [blockSize?, alignUp?, hsum, if_neg hn]
    rfl

theorem needed_spec (size : Nat) (hn : 0 < size) :
    needed size % alignment = 0 ∧ minSplit ≤ needed size := by
  simp only [needed, alignment, minSplit]
  omega

theorem growth?_least {increment total bytes : Nat} (hp : 0 < increment)
    (h : growth? increment total = some bytes) :
    IsLeast {m | increment ∣ m ∧ total ≤ m} bytes := by
  have hge := growth?_ge h hp
  obtain ⟨-,rfl⟩ := growth?_eq_some.mp h
  constructor
  · exact ⟨Nat.dvd_mul_left _ _,hge⟩
  · rintro m ⟨⟨k,rfl⟩,hle⟩
    have hlt : total + (increment - 1) < increment * (k + 1) := by
      rw [Nat.mul_add]
      omega
    have hdiv : (total + (increment - 1)) / increment ≤ k :=
      Nat.le_of_lt_succ (Nat.div_lt_of_lt_mul hlt)
    rw [Nat.mul_comm increment]
    exact Nat.mul_le_mul_right increment hdiv

theorem growth?_none {increment total : Nat} :
    growth? increment total = none ↔ wordLimit ≤ total + (increment - 1) := by
  simp [growth?, wordAdd?]

/-! ## Taking a block -/

def Block.Fits (total : Nat) (b : Block) : Prop := b.free = true ∧ total ≤ b.size

theorem firstFit?_none {total : Nat} {bs : List Block} :
    firstFit? total bs = none ↔ ∀ b ∈ bs, ¬b.Fits total := by
  simp [firstFit?, List.find?_eq_none, Block.Fits]

theorem firstFit?_lowest {total : Nat} {bs : List Block} {b : Block}
    (ho : bs.Pairwise fun b c => b.address < c.address) (h : firstFit? total bs = some b) :
    ∀ c ∈ bs, c.Fits total → b.address ≤ c.address := by
  obtain ⟨-,pre,post,rfl,hpre⟩ := List.find?_eq_some_iff_append.mp h
  intro c hc hf
  rcases List.mem_append.mp hc with hc | hc
  · have hn := hpre c hc
    simp [hf.1, hf.2] at hn
  · rcases List.mem_cons.mp hc with rfl | hc
    · exact Nat.le_refl _
    · have hlt := (List.pairwise_cons.mp (List.pairwise_append.mp ho).2.1).1 c hc
      exact Nat.le_of_lt hlt

/-- Block `b` of a list gives way to a block in use at its address, with a free
block behind it where at least a header and one unit are left. -/
def Taken (total : Nat) (b : Block) (bs bs' : List Block) : Prop :=
  ∃ pre post held tail, bs = pre ++ b :: post ∧
    bs' = pre ++ ⟨b.address,held,false⟩ :: (tail ++ post) ∧ total ≤ held ∧ held < total + 32 ∧
    (tail = [] ∧ held = b.size ∨
      ∃ left, 32 ≤ left ∧ held = total ∧ total + left = b.size ∧
        tail = [⟨b.address + total,left,true⟩])

theorem carve_taken {total : Nat} {b : Block} (ht : total ≤ b.size) (pre post : List Block) :
    Taken total b (pre ++ b :: post) (pre ++ b.carve total ++ post) := by
  unfold Block.carve
  by_cases hs : minSplit ≤ b.size - total
  · rw [if_pos hs]
    refine ⟨pre,post,total,_,rfl,by simp,Nat.le_refl _,by omega,
      Or.inr ⟨b.size - total,hs,rfl,by omega,rfl⟩⟩
  · rw [if_neg hs]
    simp only [minSplit] at hs
    exact ⟨pre,post,b.size,[],rfl,by simp,ht,by omega,Or.inl ⟨rfl,rfl⟩⟩

def Inserted (b : Block) (bs bs' : List Block) : Prop :=
  ∃ pre post, bs = pre ++ post ∧ bs' = pre ++ b :: post ∧
    (∀ c ∈ pre, c.address < b.address) ∧ ∀ c ∈ post, b.address < c.address

theorem insertBlock_eq (b : Block) (bs : List Block) :
    ∃ pre post, bs = pre ++ post ∧ insertBlock b bs = pre ++ b :: post := by
  induction bs with
  | nil => exact ⟨[],[],rfl,rfl⟩
  | cons c bs ih =>
    unfold insertBlock
    split
    · exact ⟨[],c :: bs,rfl,rfl⟩
    · obtain ⟨pre,post,hbs,hin⟩ := ih
      exact ⟨c :: pre,post,by rw [hbs]; rfl,by rw [hin]; rfl⟩

theorem inserted_of_ordered {b : Block} {bs : List Block}
    (ho : (insertBlock b bs).Pairwise fun b c => b.address < c.address) :
    Inserted b bs (insertBlock b bs) := by
  obtain ⟨pre,post,hbs,hin⟩ := insertBlock_eq b bs
  rw [hin] at ho
  obtain ⟨-,hpost,hpre⟩ := List.pairwise_append.mp ho
  exact ⟨pre,post,hbs,hin,fun c hc => hpre c hc b (by simp),(List.pairwise_cons.mp hpost).1⟩

/-! ## What an allocation can do -/

variable {σ : Type}

theorem occupy_taken {h : Heap σ} (ha : Arranged h.regions h.blocks) {b : Block}
    (hb : b ∈ h.blocks) {total : Nat} (ht : total ≤ b.size) (size : Nat) :
    Taken total b h.blocks (h.occupy b.address size total).2.blocks := by
  obtain ⟨pre,post,he,hn⟩ := ha.split hb
  show Taken total b h.blocks (carveAt b.address total h.blocks)
  rw [he, carveAt_split total hn]
  exact carve_taken ht pre post

theorem block_lt_wordLimit {h : Heap σ} (ha : Arranged h.regions h.blocks)
    (hr : ∀ r ∈ h.regions, r.size < wordLimit) : ∀ b ∈ h.blocks, b.size < wordLimit := by
  intro b hb
  obtain ⟨r,hm,hw⟩ := laid_within ha.laid hb
  have hlt := hr r hm
  simp only [Block.finish, Region.finish] at hw
  omega

variable [Store σ]

theorem Sound.granted {h : Heap σ} (hs : Sound h) {total bytes : Nat} (hm : minSplit ≤ total)
    (hg : growth? h.config.increment total = some bytes) {r : Region} {store : σ}
    (ha : Store.acquire bytes h.store = (.ok r, store)) :
    r.size = bytes ∧ total ≤ bytes ∧
      Arranged (insertRegion r h.regions) (insertBlock r.whole h.blocks) := by
  obtain ⟨hal,hle⟩ := growth?_spec hg hs.increment_aligned hs.increment_pos
  obtain ⟨hans,hap,-⟩ := hs.lawful.granted ha
  have hsize := hans.size_eq
  exact ⟨hsize,hle,hs.arranged.insert hans.aligned (hsize ▸ hal) (by omega) hans.bounded hap⟩

theorem grow_granted {h : Heap σ} {total : Nat} {r : Region} {store : σ}
    (hg : growth? h.config.increment total = some r.size)
    (ha : Store.acquire r.size h.store = (.ok r, store)) (size : Nat) :
    ∃ h', h.grow size total = (.ok r.start, h') ∧ h'.store = store ∧
      h'.regions = insertRegion r h.regions ∧ h'.blocks = insertBlock r.whole h.blocks ∧
      h'.counters.growths = h.counters.growths + 1 := by
  simp only [grow, hg, ha]
  exact ⟨_,rfl,rfl,rfl,rfl,rfl⟩

section

variable {h : Heap σ} {size : Nat}

theorem allocate_fitted (hs : Sound h) (hr : ∀ r ∈ h.regions, r.size < wordLimit) (hn : 0 < size)
    {b : Block} (hfit : firstFit? (needed size) h.blocks = some b) :
    ∃ h', h.allocate size = (.ok b.payload, h') ∧ h'.store = h.store ∧ h'.regions = h.regions ∧
      h'.counters.growths = h.counters.growths ∧ Taken (needed size) b h.blocks h'.blocks := by
  obtain ⟨hmem,-,hle⟩ := firstFit?_spec hfit
  have hw : needed size < wordLimit :=
    Nat.lt_of_le_of_lt hle (block_lt_wordLimit hs.arranged hr b hmem)
  have heq : h.allocate size = h.occupy b.address size (needed size) := by
    simp only [allocate, if_neg (Nat.ne_of_gt hn), blockSize?_eq, if_pos hw, hfit]
  rw [heq]
  exact ⟨_,rfl,rfl,rfl,rfl,occupy_taken hs.arranged hmem hle size⟩

theorem needed_lt_of_growth {increment bytes : Nat}
    (hg : growth? increment (needed size) = some bytes) : needed size < wordLimit := by
  by_contra hw
  rw [growth?_none.mpr (by omega)] at hg
  cases hg

theorem allocate_grown (hs : Sound h) (hn : 0 < size)
    (hfit : firstFit? (needed size) h.blocks = none) {bytes : Nat}
    (hg : growth? h.config.increment (needed size) = some bytes) {r : Region} {store : σ}
    (ha : Store.acquire bytes h.store = (.ok r, store)) :
    ∃ h', h.allocate size = (.ok r.whole.payload, h') ∧ h'.store = store ∧
      h'.regions = insertRegion r h.regions ∧
      h'.counters.growths = h.counters.growths + 1 ∧
      Taken (needed size) r.whole (insertBlock r.whole h.blocks) h'.blocks := by
  obtain ⟨rfl,hle,harr⟩ := hs.granted (needed_spec size hn).2 hg ha
  obtain ⟨h₁,hgrow,hstore,hregions,hblocks,hgrowths⟩ := grow_granted hg ha size
  rw [← hregions, ← hblocks] at harr
  have hmem : r.whole ∈ h₁.blocks := by
    rw [hblocks]
    exact mem_insertBlock.mpr (Or.inl rfl)
  have heq : h.allocate size = h₁.occupy r.whole.address size (needed size) := by
    simp only [allocate, if_neg (Nat.ne_of_gt hn), blockSize?_eq, if_pos (needed_lt_of_growth hg),
      hfit, hgrow]
    rfl
  rw [heq, ← hblocks]
  exact ⟨_,rfl,hstore,hregions,hgrowths,occupy_taken harr hmem hle size⟩

theorem allocate_refused (hn : 0 < size) (hfit : firstFit? (needed size) h.blocks = none)
    {bytes : Nat} (hg : growth? h.config.increment (needed size) = some bytes)
    {cause : StoreError} {store : σ} (ha : Store.acquire bytes h.store = (.error cause, store)) :
    ∃ h', h.allocate size = (.error ({ h with store }.outOfMemory size), h') ∧
      h'.store = store := by
  simp only [allocate, if_neg (Nat.ne_of_gt hn), blockSize?_eq, if_pos (needed_lt_of_growth hg),
    hfit, grow, hg, ha]
  exact ⟨_,rfl,rfl⟩

theorem allocate_overflowed (hn : 0 < size) (hfit : firstFit? (needed size) h.blocks = none)
    (hg : growth? h.config.increment (needed size) = none) :
    ∃ h', h.allocate size = (.error (h.outOfMemory size), h') ∧ h'.store = h.store := by
  by_cases hw : needed size < wordLimit
  · simp only [allocate, if_neg (Nat.ne_of_gt hn), blockSize?_eq, if_pos hw, hfit, grow, hg]
    exact ⟨_,rfl,rfl⟩
  · simp only [allocate, if_neg (Nat.ne_of_gt hn), blockSize?_eq, if_neg hw]
    exact ⟨_,rfl,rfl⟩

end

/-! ## First fit -/

/-- How a heap meets a request of `size` bytes. A free block that is large
enough is used, the lowest one. Otherwise the store is asked once, and what it
is asked for is the least multiple of the increment that is large enough, unless
computing that leaves the machine word: no region has such a size. -/
structure FirstFit (increment : Nat) (h : Heap σ) (size : Nat) : Prop where
  fits : (∃ b ∈ h.blocks, b.Fits (needed size)) → ∃ b ∈ h.blocks, b.Fits (needed size) ∧
    (∀ c ∈ h.blocks, c.Fits (needed size) → b.address ≤ c.address) ∧
    ∃ h', h.allocate size = (.ok b.payload, h') ∧ h'.store = h.store ∧
      h'.regions = h.regions ∧ Taken (needed size) b h.blocks h'.blocks
  grows : (∀ b ∈ h.blocks, ¬b.Fits (needed size)) → needed size + (increment - 1) < wordLimit →
    ∃ bytes, IsLeast {m | increment ∣ m ∧ needed size ≤ m} bytes ∧
      (h.allocate size).2.store = (Store.acquire bytes h.store).2 ∧
      ∀ r store, Store.acquire bytes h.store = (.ok r, store) →
        ∃ bs h', h.allocate size = (.ok (r.start + 24), h') ∧
          h'.regions = insertRegion r h.regions ∧ Inserted r.whole h.blocks bs ∧
          Taken (needed size) r.whole bs h'.blocks
  overflows : (∀ b ∈ h.blocks, ¬b.Fits (needed size)) →
    wordLimit ≤ needed size + (increment - 1) → (h.allocate size).2.store = h.store ∧
      ∀ m, increment ∣ m → needed size ≤ m → Metered.greatestSize < m
  short : (∃ s, (h.allocate size).1 = .error (.outOfMemory s)) ↔
    (∀ b ∈ h.blocks, ¬b.Fits (needed size)) ∧ (wordLimit ≤ needed size + (increment - 1) ∨
      ∃ bytes, IsLeast {m | increment ∣ m ∧ needed size ≤ m} bytes ∧
        ∃ cause store, Store.acquire bytes h.store = (.error cause, store))
  fails : ∀ e h', h.allocate size = (.error e, h') → ∃ s, e = .outOfMemory s

section

variable {h : Heap σ} {size : Nat}

theorem fits_lowest (hs : Sound h) (hr : ∀ r ∈ h.regions, r.size < wordLimit) (hn : 0 < size)
    (hf : ∃ b ∈ h.blocks, b.Fits (needed size)) : ∃ b ∈ h.blocks, b.Fits (needed size) ∧
      (∀ c ∈ h.blocks, c.Fits (needed size) → b.address ≤ c.address) ∧
      ∃ h', h.allocate size = (.ok b.payload, h') ∧ h'.store = h.store ∧
        h'.regions = h.regions ∧ Taken (needed size) b h.blocks h'.blocks := by
  cases hfit : firstFit? (needed size) h.blocks with
  | none =>
    obtain ⟨c,hc,hf⟩ := hf
    exact absurd hf (firstFit?_none.mp hfit c hc)
  | some b =>
    obtain ⟨hmem,hb⟩ := firstFit?_spec hfit
    obtain ⟨h',ha,hst,hre,-,ht⟩ := allocate_fitted hs hr hn hfit
    exact ⟨b,hmem,hb,firstFit?_lowest hs.arranged.address_lt hfit,h',ha,hst,hre,ht⟩

theorem grows_once (hs : Sound h) (hn : 0 < size) (hno : ∀ b ∈ h.blocks, ¬b.Fits (needed size))
    (hw : needed size + (h.config.increment - 1) < wordLimit) :
    ∃ bytes, IsLeast {m | h.config.increment ∣ m ∧ needed size ≤ m} bytes ∧
      (h.allocate size).2.store = (Store.acquire bytes h.store).2 ∧
      ∀ r store, Store.acquire bytes h.store = (.ok r, store) →
        ∃ bs h', h.allocate size = (.ok (r.start + 24), h') ∧
          h'.regions = insertRegion r h.regions ∧ Inserted r.whole h.blocks bs ∧
          Taken (needed size) r.whole bs h'.blocks := by
  have hfit := firstFit?_none.mpr hno
  cases hg : growth? h.config.increment (needed size) with
  | none =>
    have := growth?_none.mp hg
    omega
  | some bytes =>
    refine ⟨bytes,growth?_least hs.increment_pos hg,?_⟩
    rcases hacq : Store.acquire bytes h.store with ⟨cause | r,store⟩
    · obtain ⟨h',ha,hst⟩ := allocate_refused hn hfit hg hacq
      rw [ha]
      exact ⟨hst,fun r store hr => by cases hr⟩
    · obtain ⟨h',ha,hst,hre,-,ht⟩ := allocate_grown hs hn hfit hg hacq
      obtain ⟨-,-,harr⟩ := hs.granted (needed_spec size hn).2 hg hacq
      refine ⟨by rw [ha, hst],?_⟩
      intro r' store' hr
      cases hr
      exact ⟨_,h',ha,hre,inserted_of_ordered harr.address_lt,ht⟩

theorem no_region_large_enough (hs : Sound h) (hn : 0 < size)
    (hw : wordLimit ≤ needed size + (h.config.increment - 1)) {m : Nat}
    (hd : h.config.increment ∣ m) (hm : needed size ≤ m) : Metered.greatestSize < m := by
  obtain ⟨hal,hmin⟩ := needed_spec size hn
  have hia := hs.increment_aligned
  have him : h.config.increment ≤ m := Nat.le_of_dvd (by simp only [minSplit] at hmin; omega) hd
  simp only [alignment, wordLimit, Metered.greatestSize] at *
  omega

theorem short_iff (hs : Sound h) (hr : ∀ r ∈ h.regions, r.size < wordLimit) (hn : 0 < size) :
    (∃ s, (h.allocate size).1 = .error (.outOfMemory s)) ↔
      (∀ b ∈ h.blocks, ¬b.Fits (needed size)) ∧
        (wordLimit ≤ needed size + (h.config.increment - 1) ∨
          ∃ bytes, IsLeast {m | h.config.increment ∣ m ∧ needed size ≤ m} bytes ∧
            ∃ cause store, Store.acquire bytes h.store = (.error cause, store)) := by
  rw [← firstFit?_none, ← growth?_none]
  constructor
  · rintro ⟨s,he⟩
    cases hfit : firstFit? (needed size) h.blocks with
    | some b =>
      obtain ⟨h',ha,-⟩ := allocate_fitted hs hr hn hfit
      rw [ha] at he
      cases he
    | none =>
      refine ⟨rfl,?_⟩
      cases hg : growth? h.config.increment (needed size) with
      | none => exact Or.inl rfl
      | some bytes =>
        rcases hacq : Store.acquire bytes h.store with ⟨cause | r,store⟩
        · exact Or.inr ⟨bytes,growth?_least hs.increment_pos hg,cause,store,hacq⟩
        · obtain ⟨h',ha,-⟩ := allocate_grown hs hn hfit hg hacq
          rw [ha] at he
          cases he
  · rintro ⟨hfit,hover⟩
    cases hg : growth? h.config.increment (needed size) with
    | none =>
      obtain ⟨h',ha,-⟩ := allocate_overflowed hn hfit hg
      exact ⟨_,by rw [ha]; rfl⟩
    | some bytes =>
      rw [hg] at hover
      obtain ⟨bytes',hleast,cause,store,hacq⟩ := hover.resolve_left (by simp)
      rw [hleast.unique (growth?_least hs.increment_pos hg)] at hacq
      obtain ⟨h',ha,-⟩ := allocate_refused hn hfit hg hacq
      exact ⟨_,by rw [ha]; rfl⟩

end

theorem firstFit_of_sound {h : Heap σ} (hs : Sound h) (hr : ∀ r ∈ h.regions, r.size < wordLimit)
    {size : Nat} (hn : 0 < size) : FirstFit h.config.increment h size where
  fits := fits_lowest hs hr hn
  grows := grows_once hs hn
  overflows := by
    intro hno hw
    obtain ⟨h',ha,hst⟩ := allocate_overflowed hn (firstFit?_none.mpr hno) (growth?_none.mpr hw)
    rw [ha]
    exact ⟨hst,fun m => no_region_large_enough hs hn hw⟩
  short := short_iff hs hr hn
  fails := by
    intro e h' ha
    obtain ⟨-,-,⟨hz,-⟩ | ⟨-,he,-⟩⟩ := allocate_failed ha
    · exact absurd hz (Nat.ne_of_gt hn)
    · exact ⟨_,he⟩

/-- In every heap that a run can reach, over any lawful store and with any
configuration, allocation is first fit and grows by as little as it can. -/
theorem allocation_is_first_fit (config : Config) (store : σ) (hl : Lawful [] store)
    (requests : List Request) (size : Nat) (hn : 0 < size) :
    FirstFit config.normalise.increment ((Heap.empty config store).after requests) size := by
  rw [← after_config config hl requests]
  exact firstFit_of_sound (after_sound (empty_sound config hl) requests)
    (after_threaded config hl requests).sizes hn

theorem odd_increment_is_first_fit :
    Lawful [] (Arena.bounded .ascending none) ∧
    let h := (Heap.empty { increment := 100 } (Arena.bounded .ascending none)).after
      [.allocate 40, .allocate 8, .free (some 35184372088856)]
    FirstFit 104 h 8 ∧ FirstFit 104 h 200 ∧
      (h.allocate 8).1 = .ok 35184372088856 ∧
      (h.allocate 8).2.blocks = [⟨35184372088832,32,false⟩, ⟨35184372088864,32,true⟩,
        ⟨35184372088896,40,false⟩] ∧
      (h.allocate 200).2.regions = [⟨35184372088832,104⟩, ⟨35184372088936,312⟩] := by
  have hl := Arena.bounded_lawful .ascending none
  refine ⟨hl,?_,?_,rfl,rfl,rfl⟩
  · exact allocation_is_first_fit { increment := 100 } _ hl _ 8 (by decide)
  · exact allocation_is_first_fit { increment := 100 } _ hl _ 200 (by decide)

end Freestanding.Heap
