import Freestanding.Heap.Block
import Freestanding.Proofs.Heap.Search
import Mathlib.Data.List.Chain

/-!
# Blocks laid out in regions

The blocks of a heap tile its regions one after the other. Cutting a block,
joining two of them inside a region and adding a region with a block of its
own keep the tiling. The order of the blocks, and that no two overlap, follow
from the order of the regions.
-/

set_option autoImplicit false

namespace Freestanding.Heap

/-- Blocks that follow one another without a gap from one address to another. -/
def Tile (start finish : Nat) : List Block → Prop
  | [] => start = finish
  | b :: bs => b.address = start ∧ Tile b.finish finish bs

/-- The blocks of all regions, those of each region together and in the order
of the regions. -/
def Laid : List Region → List Block → Prop
  | [], bs => bs = []
  | r :: rs, bs => ∃ own rest, bs = own ++ rest ∧ Tile r.start r.finish own ∧ Laid rs rest

def Block.Sized (b : Block) : Prop := b.size % alignment = 0 ∧ minSplit ≤ b.size

def Block.Before (b c : Block) : Prop := b.finish ≤ c.address

def Region.Before (r s : Region) : Prop := r.finish ≤ s.start

def Region.Apart (r s : Region) : Prop := ∀ a, r.contains a = true → s.contains a = false

theorem Region.contains_iff (r : Region) (a : Nat) :
    r.contains a = true ↔ r.start ≤ a ∧ a < r.finish := by
  simp [Region.contains]

theorem Region.Apart.symm {r s : Region} (h : r.Apart s) : s.Apart r := by
  intro a hs
  by_contra hr
  rw [h a (by simpa using hr)] at hs
  simp at hs

theorem Region.Apart.before {r s : Region} (h : r.Apart s) (hr : 0 < r.size) (hs : 0 < s.size) :
    r.Before s ∨ s.Before r := by
  have hrs := h s.start
  have hsr := h.symm r.start
  rw [contains_iff, ← Bool.not_eq_true, contains_iff] at hrs hsr
  simp only [Region.Before, Region.finish] at *
  omega

theorem Region.Before.start_le {r s : Region} (h : r.Before s) : r.start ≤ s.start :=
  Nat.le_trans (Nat.le_add_right _ _) h

theorem ascending_of_before {rs : List Region} (h : rs.Pairwise Region.Before) : Ascending rs :=
  h.imp Region.Before.start_le

theorem tile_append (start finish : Nat) (bs cs : List Block) :
    Tile start finish (bs ++ cs) ↔ ∃ middle, Tile start middle bs ∧ Tile middle finish cs := by
  induction bs generalizing start with
  | nil => simp [Tile]
  | cons b bs ih => simp [Tile, ih, and_assoc]

theorem tile_le {start finish : Nat} {bs : List Block} (h : Tile start finish bs) :
    start ≤ finish := by
  induction bs generalizing start with
  | nil => exact Nat.le_of_eq h
  | cons b bs ih =>
    have := ih h.2
    simp only [Block.finish, h.1] at this
    omega

theorem tile_within {start finish : Nat} {bs : List Block} (h : Tile start finish bs)
    {b : Block} (hb : b ∈ bs) : start ≤ b.address ∧ b.finish ≤ finish := by
  induction bs generalizing start with
  | nil => simp at hb
  | cons c bs ih =>
    rcases List.mem_cons.mp hb with rfl | hb
    · exact ⟨Nat.le_of_eq h.1.symm,tile_le h.2⟩
    · have := ih h.2 hb
      simp only [Block.finish, h.1] at this ⊢
      omega

theorem tile_before {start finish : Nat} {bs : List Block} (h : Tile start finish bs) :
    bs.Pairwise Block.Before := by
  induction bs generalizing start with
  | nil => exact .nil
  | cons b bs ih => exact .cons (fun c hc => (tile_within h.2 hc).1) (ih h.2)

theorem tile_aligned {start finish : Nat} {bs : List Block} (h : Tile start finish bs)
    (hs : start % alignment = 0) (hz : ∀ b ∈ bs, b.Sized) {b : Block} (hb : b ∈ bs) :
    b.address % alignment = 0 := by
  induction bs generalizing start with
  | nil => simp at hb
  | cons c bs ih =>
    rcases List.mem_cons.mp hb with rfl | hb
    · rw [h.1]
      exact hs
    · have hc := (hz c (by simp)).1
      refine ih h.2 ?_ (fun d hd => hz d (by simp [hd])) hb
      simp only [Block.finish, h.1, alignment] at hs hc ⊢
      omega

theorem laid_within {rs : List Region} {bs : List Block} (h : Laid rs bs) {b : Block}
    (hb : b ∈ bs) : ∃ r ∈ rs, r.start ≤ b.address ∧ b.finish ≤ r.finish := by
  induction rs generalizing bs with
  | nil =>
    rw [h] at hb
    simp at hb
  | cons r rs ih =>
    obtain ⟨own,rest,rfl,ho,hr⟩ := h
    rcases List.mem_append.mp hb with hb | hb
    · exact ⟨r,by simp,tile_within ho hb⟩
    · obtain ⟨s,hs,hw⟩ := ih hr hb
      exact ⟨s,by simp [hs],hw⟩

theorem laid_before {rs : List Region} {bs : List Block} (h : Laid rs bs)
    (ho : rs.Pairwise Region.Before) : bs.Pairwise Block.Before := by
  induction rs generalizing bs with
  | nil =>
    rw [h]
    exact .nil
  | cons r rs ih =>
    obtain ⟨own,rest,rfl,ht,hr⟩ := h
    obtain ⟨hf,ho⟩ := List.pairwise_cons.mp ho
    refine List.pairwise_append.mpr ⟨tile_before ht,ih hr ho,fun b hb c hc => ?_⟩
    obtain ⟨s,hs,hw⟩ := laid_within hr hc
    have hrs := hf s hs
    have hbr := tile_within ht hb
    simp only [Region.Before, Block.Before] at *
    omega

theorem laid_aligned {rs : List Region} {bs : List Block} (h : Laid rs bs)
    (hr : ∀ r ∈ rs, r.start % alignment = 0) (hz : ∀ b ∈ bs, b.Sized) {b : Block}
    (hb : b ∈ bs) : b.address % alignment = 0 := by
  induction rs generalizing bs with
  | nil =>
    rw [h] at hb
    simp at hb
  | cons r rs ih =>
    obtain ⟨own,rest,rfl,ho,hl⟩ := h
    rcases List.mem_append.mp hb with hb | hb
    · exact tile_aligned ho (hr r (by simp)) (fun c hc => hz c (by simp [hc])) hb
    · exact ih hl (fun s hs => hr s (by simp [hs])) (fun c hc => hz c (by simp [hc])) hb

theorem laid_head {rs : List Region} {b : Block} {bs : List Block} (h : Laid rs (b :: bs)) :
    ∃ r ∈ rs, r.start = b.address := by
  induction rs with
  | nil => simp [Laid] at h
  | cons r rs ih =>
    obtain ⟨own,rest,he,ho,hr⟩ := h
    cases own with
    | nil =>
      obtain ⟨s,hs,ha⟩ := ih (by simpa [he] using hr)
      exact ⟨s,by simp [hs],ha⟩
    | cons c own =>
      obtain ⟨rfl,-⟩ := List.cons.inj he
      exact ⟨r,by simp,ho.1.symm⟩

theorem laid_replace {rs : List Region} {pre post : List Block} {b : Block}
    (h : Laid rs (pre ++ b :: post)) {bs : List Block} (hb : Tile b.address b.finish bs) :
    Laid rs (pre ++ bs ++ post) := by
  induction rs generalizing pre with
  | nil => simp [Laid] at h
  | cons r rs ih =>
    obtain ⟨own,rest,he,ho,hr⟩ := h
    rcases List.append_eq_append_iff.mp he with ⟨mid,rfl,hm⟩ | ⟨mid,rfl,hm⟩
    · cases mid with
      | nil =>
        obtain rfl : b :: post = rest := by simpa using hm
        refine ⟨pre,bs ++ post,by simp,by simpa using ho,?_⟩
        simpa using @ih [] (by simpa using hr)
      | cons c mid =>
        obtain ⟨rfl,rfl⟩ := List.cons.inj hm
        refine ⟨pre ++ bs ++ mid,rest,by simp,?_,hr⟩
        rw [tile_append] at ho
        obtain ⟨m,hp,ha,hq⟩ := ho
        rw [List.append_assoc, tile_append]
        refine ⟨m,hp,?_⟩
        rw [tile_append]
        exact ⟨b.finish,ha ▸ hb,hq⟩
    · refine ⟨own,mid ++ bs ++ post,by simp,ho,ih ?_⟩
      rwa [hm] at hr

theorem laid_join {rs : List Region} {pre post : List Block} {b c : Block}
    (h : Laid rs (pre ++ b :: c :: post)) (hc : ∀ r ∈ rs, r.start ≠ c.address) (free : Bool) :
    Laid rs (pre ++ ⟨b.address,b.size+c.size,free⟩ :: post) := by
  induction rs generalizing pre with
  | nil => simp [Laid] at h
  | cons r rs ih =>
    obtain ⟨own,rest,he,ho,hr⟩ := h
    have hrs := fun s hs => hc s (List.mem_cons_of_mem _ hs)
    rcases List.append_eq_append_iff.mp he with ⟨mid,rfl,hm⟩ | ⟨mid,rfl,hm⟩
    · match mid with
      | [] =>
        obtain rfl : b :: c :: post = rest := by simpa using hm
        exact ⟨pre,_,rfl,by simpa using ho,by simpa using @ih [] (by simpa using hr) hrs⟩
      | [d] =>
        obtain ⟨rfl,rfl⟩ := List.cons.inj hm
        obtain ⟨s,hs,ha⟩ := laid_head hr
        exact absurd ha (hrs s hs)
      | d :: e :: mid =>
        obtain ⟨rfl,rfl,rfl⟩ : b = d ∧ c = e ∧ post = mid ++ rest := by simpa using hm
        refine ⟨pre ++ ⟨b.address,b.size+c.size,free⟩ :: mid,rest,by simp,?_,hr⟩
        rw [tile_append] at ho ⊢
        obtain ⟨m,hp,ha,hb,hq⟩ := ho
        refine ⟨m,hp,ha,?_⟩
        simp only [Block.finish, ← Nat.add_assoc] at hb hq ⊢
        rwa [← hb]
    · rw [hm] at hr
      exact ⟨own,_,List.append_assoc _ _ _,ho,ih hr hrs⟩

theorem insertBlock_append {b : Block} {own : List Block} (rest : List Block)
    (h : ∀ c ∈ own, c.address ≤ b.address) :
    insertBlock b (own ++ rest) = own ++ insertBlock b rest := by
  induction own with
  | nil => rfl
  | cons c own ih =>
    have hc := h c (by simp)
    simp only [List.cons_append, insertBlock, if_neg (Nat.not_lt.mpr hc)]
    rw [ih (fun d hd => h d (by simp [hd]))]

theorem insertBlock_of_lt {b : Block} {bs : List Block} (h : ∀ c ∈ bs, b.address < c.address) :
    insertBlock b bs = b :: bs := by
  cases bs with
  | nil => rfl
  | cons c cs => simp [insertBlock, h c (by simp)]

theorem laid_insert {r : Region} {rs : List Region} {bs : List Block} (h : Laid rs bs)
    (ho : rs.Pairwise Region.Before) (hr : 0 < r.size)
    (hd : ∀ s ∈ rs, r.Before s ∨ s.Before r) (hz : ∀ s ∈ rs, 0 < s.size) (free : Bool) :
    Laid (insertRegion r rs) (insertBlock ⟨r.start,r.size,free⟩ bs) := by
  induction rs generalizing bs with
  | nil =>
    obtain rfl : bs = [] := h
    exact ⟨[⟨r.start,r.size,free⟩],[],rfl,⟨rfl,rfl⟩,rfl⟩
  | cons s rs ih =>
    have hasc := ascending_of_before ho
    obtain ⟨hs,ho⟩ := List.pairwise_cons.mp ho
    have hd' := hd s (by simp)
    have hsz := hz s (by simp)
    by_cases hle : r.start ≤ s.start
    · rw [insertRegion_of_le hasc hle, insertBlock_of_lt]
      · exact ⟨[⟨r.start,r.size,free⟩],bs,rfl,⟨rfl,rfl⟩,h⟩
      · intro c hc
        obtain ⟨t,ht,hw⟩ := laid_within h hc
        have hst : s.start ≤ t.start := by
          rcases List.mem_cons.mp ht with rfl | ht
          · exact Nat.le_refl _
          · exact (hs t ht).start_le
        simp only [Region.Before, Region.finish] at *
        omega
    · rw [insertRegion_of_lt (ascending_of_before ho) (Nat.lt_of_not_le hle)]
      obtain ⟨own,rest,rfl,ht,hl⟩ := h
      rw [insertBlock_append]
      · exact ⟨own,_,rfl,ht,ih hl ho (fun t ht => hd t (by simp [ht]))
          (fun t ht => hz t (by simp [ht]))⟩
      · intro c hc
        have hw := tile_within ht hc
        simp only [Region.Before, Region.finish, Block.finish] at *
        omega

end Freestanding.Heap
