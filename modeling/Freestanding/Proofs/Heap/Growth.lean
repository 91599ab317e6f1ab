import Freestanding.Proofs.Heap.Allocation

/-!
# Growth in machine arithmetic

Sizes are computed with machine words, whose sums, differences and products
wrap around. The computation is checked at its sums and nowhere else. That is
enough: for every request and every increment, what the words come to is what
the numbers come to, and a request whose size is no word ends in a shortage.
-/

set_option autoImplicit false

namespace Freestanding.Heap

/-! ## The computation in words -/

namespace Machine

def add? (a b : UInt64) : Option UInt64 := if a + b < a then none else some (a + b)

def alignUp? (size : UInt64) : Option UInt64 := (add? size 7).map (· &&& ~~~7)

def blockSize? (size : UInt64) : Option UInt64 := (alignUp? size).bind (add? · 24)

def growth? (increment total : UInt64) : Option UInt64 :=
  (add? total (increment - 1)).map fun t => t / increment * increment

def increment (configured : UInt64) : UInt64 :=
  (alignUp? (if configured < 8 then 8 else configured)).getD 4096

theorem add?_toNat (a b : UInt64) : (add? a b).map UInt64.toNat = wordAdd? a.toNat b.toNat := by
  have ha := a.toNat_lt
  have hb := b.toNat_lt
  have hsum := UInt64.toNat_add a b
  unfold add? wordAdd?
  by_cases hw : a.toNat + b.toNat < wordLimit
  · rw [Nat.mod_eq_of_lt hw] at hsum
    have hlt : ¬a + b < a := by
      rw [UInt64.lt_iff_toNat_lt]
      omega
    rw [if_neg hlt, if_pos hw, Option.map_some, hsum]
  · have hlt : a + b < a := by
      rw [UInt64.lt_iff_toNat_lt]
      simp only [wordLimit] at hw
      omega
    rw [if_pos hlt, if_neg hw, Option.map_none]

theorem toNat_cleared (a : UInt64) : (a &&& ~~~7).toNat = a.toNat / 8 * 8 := by
  have ha := a.toNat_lt
  rw [UInt64.toNat_and]
  have hlow : (a.toNat &&& (~~~7 : UInt64).toNat) % 8 = 0 :=
    (Nat.and_mod_two_pow (n := 3)).trans (Nat.and_zero _)
  have hhigh : (a.toNat &&& (~~~7 : UInt64).toNat) / 8 = a.toNat / 8 :=
    calc (a.toNat &&& (~~~7 : UInt64).toNat) / 8
      _ = a.toNat / 8 &&& 2305843009213693951 := Nat.and_div_two_pow (n := 3)
      _ = a.toNat / 8 % 2305843009213693952 := Nat.and_two_pow_sub_one_eq_mod _ 61
      _ = a.toNat / 8 := Nat.mod_eq_of_lt (by omega)
  omega

theorem alignUp?_toNat (size : UInt64) :
    (alignUp? size).map UInt64.toNat = Heap.alignUp? size.toNat := by
  have hsum := add?_toNat size 7
  unfold alignUp? Heap.alignUp?
  rw [show alignment - 1 = (7 : UInt64).toNat from rfl, ← hsum, Option.map_map, Option.map_map]
  congr 1
  funext t
  exact toNat_cleared t

theorem blockSize?_toNat (size : UInt64) :
    (blockSize? size).map UInt64.toNat = Heap.blockSize? size.toNat := by
  unfold blockSize? Heap.blockSize?
  rw [← alignUp?_toNat]
  cases alignUp? size with
  | none => rfl
  | some t => exact add?_toNat t 24

theorem growth?_toNat {increment : UInt64} (hp : 0 < increment.toNat) (total : UInt64) :
    (growth? increment total).map UInt64.toNat =
      Heap.growth? increment.toNat total.toNat := by
  have hone : 1 ≤ increment := UInt64.le_iff_toNat_le.mpr hp
  have hpred : (increment - 1).toNat = increment.toNat - 1 := UInt64.toNat_sub_of_le _ _ hone
  unfold growth? Heap.growth?
  rw [← hpred, ← add?_toNat, Option.map_map, Option.map_map]
  congr 1
  funext t
  have hle : t.toNat / increment.toNat * increment.toNat ≤ t.toNat := Nat.div_mul_le_self _ _
  simp only [Function.comp_apply]
  rw [UInt64.toNat_mul, UInt64.toNat_div, Nat.mod_eq_of_lt (Nat.lt_of_le_of_lt hle t.toNat_lt)]

theorem increment_toNat {config : Config} {configured : UInt64}
    (hc : config.increment = configured.toNat) :
    (increment configured).toNat = config.normalise.increment := by
  have hmax : (if configured < 8 then 8 else configured).toNat =
      max config.increment alignment := by
    have hlt : configured < 8 ↔ configured.toNat < alignment := UInt64.lt_iff_toNat_lt
    rw [hc]
    split_ifs with h
    · exact (Nat.max_eq_right (Nat.le_of_lt (hlt.mp h))).symm
    · exact (Nat.max_eq_left (Nat.not_lt.mp fun hn => h (hlt.mpr hn))).symm
  unfold increment Config.normalise
  rw [← hmax, ← alignUp?_toNat]
  cases alignUp? (if configured < 8 then 8 else configured) <;> rfl

end Machine

/-! ## Sizes of blocks and regions -/

/-- The size of a block for a request of `n` bytes, computed without wrapping
around: a header, and fewer than eight bytes more than were asked for. -/
structure BlockWord (n total : UInt64) : Prop where
  computed : Machine.blockSize? n = some total
  agrees : blockSize? n.toNat = some total.toNat
  header : n.toNat + 24 ≤ total.toNat
  padding : total.toNat ≤ n.toNat + 31
  aligned : 8 ∣ total.toNat

/-- The size of a region for a block, computed without wrapping around: less than
an increment more than the block, and neither zero nor out of alignment. -/
structure RegionWord (increment total bytes : UInt64) : Prop where
  computed : Machine.growth? increment total = some bytes
  agrees : growth? increment.toNat total.toNat = some bytes.toNat
  positive : 0 < bytes.toNat
  enough : total.toNat ≤ bytes.toNat
  least : bytes.toNat < total.toNat + increment.toNat
  multiple : increment.toNat ∣ bytes.toNat
  aligned : 8 ∣ bytes.toNat

structure Holds (total : UInt64) (b : Block) : Prop where
  enough : total.toNat ≤ b.size
  word : b.size < wordLimit
  left : (b.size.toUInt64 - total).toNat = b.size - total.toNat

theorem needed_bounds (size : Nat) :
    size + 24 ≤ needed size ∧ needed size ≤ size + 31 ∧ 8 ∣ needed size := by
  unfold needed
  omega

theorem blockWord_of_some {n total : UInt64} (h : Machine.blockSize? n = some total) :
    BlockWord n total ∧ total.toNat = needed n.toNat := by
  have hagrees := Machine.blockSize?_toNat n
  rw [h, Option.map_some] at hagrees
  have heq : total.toNat = needed n.toNat := by
    rw [blockSize?_eq] at hagrees
    split_ifs at hagrees with hw
    exact Option.some.inj hagrees
  obtain ⟨hheader,hpadding,haligned⟩ := needed_bounds n.toNat
  rw [← heq] at hheader hpadding haligned
  exact ⟨⟨h,hagrees.symm,hheader,hpadding,haligned⟩,heq⟩

theorem needed_of_none {n : UInt64} (h : Machine.blockSize? n = none) :
    wordLimit ≤ needed n.toNat := by
  have hagrees := Machine.blockSize?_toNat n
  rw [h, Option.map_none, blockSize?_eq] at hagrees
  split_ifs at hagrees with hw
  exact Nat.not_lt.mp hw

theorem regionWord_of_some {increment total bytes : UInt64} (hp : 0 < increment.toNat)
    (ha : 8 ∣ increment.toNat) (ht : 0 < total.toNat)
    (h : Machine.growth? increment total = some bytes) :
    RegionWord increment total bytes := by
  have hagrees := Machine.growth?_toNat hp total
  rw [h, Option.map_some] at hagrees
  obtain ⟨⟨hdvd,hle⟩,hleast⟩ := growth?_least hp hagrees.symm
  refine ⟨h,hagrees.symm,Nat.lt_of_lt_of_le ht hle,hle,?_,hdvd,Nat.dvd_trans ha hdvd⟩
  by_contra hge
  have hsub := hleast ⟨Nat.dvd_sub hdvd (Nat.dvd_refl increment.toNat),by omega⟩
  omega

theorem total_of_none {increment total : UInt64} (hp : 0 < increment.toNat)
    (h : Machine.growth? increment total = none) :
    wordLimit ≤ total.toNat + (increment.toNat - 1) := by
  have hagrees := Machine.growth?_toNat hp total
  rw [h, Option.map_none] at hagrees
  exact growth?_none.mp hagrees.symm

theorem holds_of_le {total : UInt64} {b : Block} (hle : total.toNat ≤ b.size)
    (hw : b.size < wordLimit) : Holds total b := by
  have hsize : b.size.toUInt64.toNat = b.size := Nat.mod_eq_of_lt hw
  refine ⟨hle,hw,?_⟩
  rw [UInt64.toNat_sub_of_le, hsize]
  rw [UInt64.le_iff_toNat_le, hsize]
  exact hle

/-! ## The course of a request -/

theorem Metered.acquire_badSize {π : Type} [Platform π] {s s' : Metered π} {bytes : Nat}
    (hp : 0 < bytes) (ha : 8 ∣ bytes) (h : s.acquire bytes = (.error .badSize, s')) :
    greatestSize < bytes := by
  unfold acquire at h
  split at h
  · cases h
  · split_ifs at h with hz
    · simp only [alignment] at hz
      omega
    · split at h
      · cases h
      · cases h

section

variable {π : Type} [Platform π]

def Short (h : Heap (Metered π)) (n : UInt64) : Prop :=
  ∃ s h', h.allocate n.toNat = (.error (.outOfMemory s), h')

/-- What can come of a request of `n` bytes. Each size on the way is a word that
was computed without wrapping around, and where there is no such word the
request ends in a shortage. A store never finds fault with the size that it is
asked for, unless no region can be as large. -/
inductive Course (increment n : UInt64) (h : Heap (Metered π)) : Prop
  | oversized (wraps : Machine.blockSize? n = none) (needs : wordLimit ≤ needed n.toNat)
      (short : Short h n)
  | fitted (total : UInt64) (block : BlockWord n total) (b : Block) (mem : b ∈ h.blocks)
      (room : Holds total b) (h' : Heap (Metered π))
      (met : h.allocate n.toNat = (.ok b.payload, h'))
      (taken : Taken total.toNat b h.blocks h'.blocks)
  | unbounded (total : UInt64) (block : BlockWord n total)
      (full : ∀ b ∈ h.blocks, ¬b.Fits total.toNat)
      (wraps : Machine.growth? increment total = none)
      (needs : wordLimit ≤ total.toNat + (increment.toNat - 1)) (short : Short h n)
  | refused (total : UInt64) (block : BlockWord n total)
      (full : ∀ b ∈ h.blocks, ¬b.Fits total.toNat) (bytes : UInt64)
      (region : RegionWord increment total bytes) (cause : StoreError) (store : Metered π)
      (answer : h.store.acquire bytes.toNat = (.error cause, store))
      (large : cause = .badSize → Metered.greatestSize < bytes.toNat) (short : Short h n)
  | grown (total : UInt64) (block : BlockWord n total)
      (full : ∀ b ∈ h.blocks, ¬b.Fits total.toNat) (bytes : UInt64)
      (region : RegionWord increment total bytes) (r : Region) (store : Metered π)
      (answer : h.store.acquire bytes.toNat = (.ok r, store)) (size : r.size = bytes.toNat)
      (room : Holds total r.whole) (h' : Heap (Metered π))
      (met : h.allocate n.toNat = (.ok r.whole.payload, h'))
      (taken : Taken total.toNat r.whole (insertBlock r.whole h.blocks) h'.blocks)

variable {h : Heap (Metered π)} {increment n total : UInt64}

theorem course_of_full (hs : Sound h) (hi : h.config.increment = increment.toNat)
    (hn : 0 < n.toNat) (hb : Machine.blockSize? n = some total)
    (hfit : firstFit? (needed n.toNat) h.blocks = none) : Course increment n h := by
  have hp : 0 < increment.toNat := hi ▸ hs.increment_pos
  have ha : 8 ∣ increment.toNat := Nat.dvd_of_mod_eq_zero (hi ▸ hs.increment_aligned)
  obtain ⟨hblock,htotal⟩ := blockWord_of_some hb
  have hfull : ∀ b ∈ h.blocks, ¬b.Fits total.toNat := htotal ▸ firstFit?_none.mp hfit
  cases hg : Machine.growth? increment total with
  | none =>
    have hwide := total_of_none hp hg
    have hgrow := growth?_none.mpr hwide
    rw [← hi, htotal] at hgrow
    obtain ⟨h',hshort,-⟩ := allocate_overflowed hn hfit hgrow
    exact .unbounded total hblock hfull hg hwide ⟨_,h',hshort⟩
  | some bytes =>
    have ht : 0 < total.toNat := Nat.lt_of_lt_of_le (by omega) hblock.header
    have hregion := regionWord_of_some hp ha ht hg
    have hgrow := hregion.agrees
    rw [← hi, htotal] at hgrow
    rcases hacq : h.store.acquire bytes.toNat with ⟨cause | r,store⟩
    · obtain ⟨h',hshort,-⟩ := allocate_refused hn hfit hgrow hacq
      apply Course.refused total hblock hfull bytes hregion cause store hacq _ ⟨_,h',hshort⟩
      rintro rfl
      exact Metered.acquire_badSize hregion.positive hregion.aligned hacq
    · obtain ⟨hsize,-,-⟩ := hs.granted (needed_spec n.toNat hn).2 hgrow hacq
      obtain ⟨h',hmet,-,-,-,htaken⟩ := allocate_grown hs hn hfit hgrow hacq
      have hroom : Holds total r.whole := by
        apply holds_of_le
        · show total.toNat ≤ r.size
          rw [hsize]
          exact hregion.enough
        · show r.size < wordLimit
          rw [hsize]
          exact bytes.toNat_lt
      rw [← htotal] at htaken
      exact .grown total hblock hfull bytes hregion r store hacq hsize hroom h' hmet htaken

theorem course_of_sound (hs : Sound h) (hr : ∀ r ∈ h.regions, r.size < wordLimit)
    (hi : h.config.increment = increment.toNat) (hn : 0 < n.toNat) : Course increment n h := by
  have hblocks := block_lt_wordLimit hs.arranged hr
  cases hfit : firstFit? (needed n.toNat) h.blocks with
  | some b =>
    obtain ⟨hm,-,hle⟩ := firstFit?_spec hfit
    have hlt := hblocks b hm
    obtain ⟨h',hmet,-,-,-,htaken⟩ := allocate_fitted hs hr hn hfit
    cases hb : Machine.blockSize? n with
    | none =>
      have hneed := needed_of_none hb
      omega
    | some total =>
      obtain ⟨hblock,htotal⟩ := blockWord_of_some hb
      rw [← htotal] at hle htaken
      exact .fitted total hblock b hm (holds_of_le hle hlt) h' hmet htaken
  | none =>
    cases hb : Machine.blockSize? n with
    | none =>
      have hneed := needed_of_none hb
      obtain ⟨h',hshort,-⟩ := allocate_overflowed hn hfit (growth?_none.mpr (by omega))
      exact .oversized hb hneed ⟨_,h',hshort⟩
    | some total => exact course_of_full hs hi hn hb hfit

end

/-- Whatever increment is configured, the one in use is a positive multiple of
eight, the same in words and in numbers. With it, over any lawful store, in every
heap that a run can reach and for every request, no size ever wraps around. -/
theorem growth_never_wraps {π : Type} [Platform π] (config : Config) (configured : UInt64)
    (hc : config.increment = configured.toNat) (store : Metered π) (hl : Lawful [] store)
    (requests : List Request) (n : UInt64) (hn : n ≠ 0) :
    (Machine.increment configured).toNat = config.normalise.increment ∧
      0 < config.normalise.increment ∧ 8 ∣ config.normalise.increment ∧
      Course (Machine.increment configured) n ((Heap.empty config store).after requests) := by
  have hincrement := Machine.increment_toNat hc
  have hconfig := after_config config hl requests
  have hpos : 0 < n.toNat := Nat.pos_of_ne_zero fun hz => hn (UInt64.toNat_inj.mp hz)
  obtain ⟨haligned,hp⟩ := normalise_increment config
  refine ⟨hincrement,hp,Nat.dvd_of_mod_eq_zero haligned,?_⟩
  apply course_of_sound (after_sound (empty_sound config hl) requests)
    (after_threaded config hl requests).sizes _ hpos
  rw [hconfig, hincrement]

theorem extreme_increments_never_wrap :
    Lawful [] (Arena.bounded .ascending none) ∧
    Machine.increment 18446744073709551608 = 18446744073709551608 ∧
    Course 18446744073709551608 1
      (Heap.empty { increment := 18446744073709551608 } (Arena.bounded .ascending none)) ∧
    Machine.increment 100 = 104 ∧
    let h := (Heap.empty { increment := 100 } (Arena.bounded .ascending none)).after [.allocate 40]
    Course 104 200 h ∧ Course 104 9223372036854775800 h := by
  have hl := Arena.bounded_lawful .ascending none
  obtain ⟨-,-,-,hgreatest⟩ :=
    growth_never_wraps { increment := 18446744073709551608 } 18446744073709551608 rfl _ hl [] 1
      (by decide)
  obtain ⟨-,-,-,hsmall⟩ :=
    growth_never_wraps { increment := 100 } 100 rfl _ hl [.allocate 40] 200 (by decide)
  obtain ⟨-,-,-,hlarge⟩ :=
    growth_never_wraps { increment := 100 } 100 rfl _ hl [.allocate 40] 9223372036854775800
      (by decide)
  exact ⟨hl,rfl,hgreatest,rfl,hsmall,hlarge⟩

end Freestanding.Heap
