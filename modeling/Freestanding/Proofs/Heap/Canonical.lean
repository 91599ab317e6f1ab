import Freestanding.Proofs.Heap.Check

/-!
# Blocks are determined by those in use

In an arrangement the free blocks are what the blocks in use leave over, and
no two of them touch within a region. So regions and blocks in use determine
all blocks. With no block in use, every region is one free block.
-/

set_option autoImplicit false

namespace Freestanding.Heap

def Parted (rs : List Region) (b c : Block) : Prop := ∀ r ∈ rs,
  r.contains b.address = true → r.contains c.address = true → ¬(b.free = true ∧ c.free = true)

theorem used_cons_free {b : Block} (hb : b.free = true) (bs : List Block) :
    used (b :: bs) = used bs := by
  rw [used_cons, if_pos hb]

theorem used_cons_used {b : Block} (hb : b.free = false) (bs : List Block) :
    used (b :: bs) = b :: used bs := by
  rw [used_cons, hb]
  rfl

theorem tile_head_used {start finish : Nat} {b c : Block} {bs cs : List Block}
    (hb : Tile start finish (b :: bs)) (hc : Tile start finish (c :: cs)) (hz : 0 < c.size)
    (hu : used (b :: bs) = used (c :: cs)) (hf : b.free = false) : c.free = false := by
  by_contra hn
  rw [used_cons_used hf, used_cons_free (by simpa using hn)] at hu
  have hm : b ∈ cs := (mem_used.mp (hu ▸ List.mem_cons_self)).1
  have hw := tile_within hc.2 hm
  have hba := hb.1
  have hca := hc.1
  simp only [Block.finish] at hw
  omega

theorem tile_head_free {start finish : Nat} {b c : Block} {bs cs : List Block}
    (hb : Tile start finish (b :: bs)) (hc : Tile start finish (c :: cs))
    (hp : (b :: bs).IsChain fun d e => ¬(d.free = true ∧ e.free = true))
    (hu : used bs = used cs) (hf : b.free = true) : c.size ≤ b.size := by
  have hba := hb.1
  have hca := hc.1
  cases bs with
  | nil =>
    have hfin : b.finish = finish := hb.2
    have hle := tile_le hc.2
    simp only [Block.finish] at hfin hle
    omega
  | cons d bs =>
    have hd : d.free = false := by
      have hn := (List.isChain_cons_cons.mp hp).1
      simpa [hf] using hn
    rw [used_cons_used hd] at hu
    have hm : d ∈ cs := (mem_used.mp (hu ▸ List.mem_cons_self)).1
    have hw := tile_within hc.2 hm
    have hda := hb.2.1
    simp only [Block.finish] at hw hda
    omega

theorem tile_head_unique {start finish : Nat} {b c : Block} {bs cs : List Block}
    (hb : Tile start finish (b :: bs)) (hc : Tile start finish (c :: cs))
    (hbz : 0 < b.size) (hcz : 0 < c.size)
    (hbp : (b :: bs).IsChain fun d e => ¬(d.free = true ∧ e.free = true))
    (hcp : (c :: cs).IsChain fun d e => ¬(d.free = true ∧ e.free = true))
    (hu : used (b :: bs) = used (c :: cs)) : b = c ∧ used bs = used cs := by
  cases hbf : b.free with
  | false =>
    have hcf := tile_head_used hb hc hcz hu hbf
    rw [used_cons_used hbf, used_cons_used hcf] at hu
    exact List.cons.inj hu
  | true =>
    have hcf : c.free = true := by
      by_contra hn
      have hbu := tile_head_used hc hb hbz hu.symm (by simpa using hn)
      rw [hbf] at hbu
      cases hbu
    rw [used_cons_free hbf, used_cons_free hcf] at hu
    have hsize : b.size = c.size := Nat.le_antisymm (tile_head_free hc hb hcp hu.symm hcf)
      (tile_head_free hb hc hbp hu hbf)
    refine ⟨?_,hu⟩
    calc b = ⟨b.address,b.size,b.free⟩ := rfl
      _ = ⟨c.address,c.size,c.free⟩ := by rw [hb.1, hc.1, hsize, hbf, hcf]

theorem tile_ne_nil {start : Nat} {b : Block} {bs : List Block} (hz : 0 < b.size) :
    ¬Tile start start (b :: bs) := by
  intro h
  have hle := tile_le h.2
  have ha := h.1
  simp only [Block.finish] at hle
  omega

theorem tile_unique {start finish : Nat} {bs cs : List Block} (hb : Tile start finish bs)
    (hc : Tile start finish cs) (hbz : ∀ b ∈ bs, 0 < b.size) (hcz : ∀ c ∈ cs, 0 < c.size)
    (hbp : bs.IsChain fun d e => ¬(d.free = true ∧ e.free = true))
    (hcp : cs.IsChain fun d e => ¬(d.free = true ∧ e.free = true))
    (hu : used bs = used cs) : bs = cs := by
  induction bs generalizing start cs with
  | nil =>
    obtain rfl : start = finish := hb
    cases cs with
    | nil => rfl
    | cons c cs => exact absurd hc (tile_ne_nil (hcz c (by simp)))
  | cons b bs ih =>
    cases cs with
    | nil =>
      obtain rfl : start = finish := hc
      exact absurd hb (tile_ne_nil (hbz b (by simp)))
    | cons c cs =>
      obtain ⟨rfl,ht⟩ := tile_head_unique hb hc (hbz b (by simp)) (hcz c (by simp)) hbp hcp hu
      rw [ih hb.2 hc.2 (fun d hd => hbz d (by simp [hd])) (fun d hd => hcz d (by simp [hd]))
        hbp.tail hcp.tail ht]

theorem append_inj_of_split {α : Type} {p : α → Bool} {xs ys zs ws : List α}
    (h : xs ++ ys = zs ++ ws) (hx : ∀ x ∈ xs, p x = true) (hy : ∀ y ∈ ys, ¬p y = true)
    (hz : ∀ z ∈ zs, p z = true) (hw : ∀ w ∈ ws, ¬p w = true) : xs = zs ∧ ys = ws := by
  have hf := congrArg (List.filter p) h
  rw [List.filter_append, List.filter_append, List.filter_eq_self.mpr hx,
    List.filter_eq_self.mpr hz, List.filter_eq_nil_iff.mpr hy, List.filter_eq_nil_iff.mpr hw,
    List.append_nil, List.append_nil] at hf
  subst hf
  exact ⟨rfl,List.append_cancel_left h⟩

theorem Parted.isChain_tile {rs : List Region} {r : Region} (hr : r ∈ rs) {bs : List Block}
    (hp : bs.IsChain (Parted rs)) (ht : Tile r.start r.finish bs) (hz : ∀ b ∈ bs, 0 < b.size) :
    bs.IsChain fun d e => ¬(d.free = true ∧ e.free = true) := by
  have hin : ∀ b ∈ bs, r.contains b.address = true := by
    intro b hb
    have hw := tile_within ht hb
    have hbz := hz b hb
    rw [Region.contains_iff]
    simp only [Block.finish] at hw
    omega
  refine hp.imp_of_mem_imp fun d e hd he hde => ?_
  exact hde r hr (hin d hd) (hin e he)

theorem isChain_parted_tail {r : Region} {rs : List Region} {own rest : List Block}
    (h : (own ++ rest).IsChain (Parted (r :: rs))) : rest.IsChain (Parted rs) :=
  (List.isChain_append.mp h).2.1.imp fun _ _ hde s hs => hde s (List.mem_cons_of_mem r hs)

theorem laid_split {r : Region} {rs : List Region} {own rest : List Block}
    (hr : ∀ s ∈ rs, r.Before s) (ht : Tile r.start r.finish own) (hl : Laid rs rest)
    (hz : ∀ b ∈ own, 0 < b.size) :
    (∀ b ∈ used own, decide (b.address < r.finish) = true) ∧
      ∀ b ∈ used rest, ¬decide (b.address < r.finish) = true := by
  constructor
  · intro b hb
    have hb := (mem_used.mp hb).1
    have hw := tile_within ht hb
    have hbz := hz b hb
    simp only [Block.finish] at hw
    exact decide_eq_true (by omega)
  · intro b hb
    obtain ⟨s,hs,hw⟩ := laid_within hl (mem_used.mp hb).1
    have hrs := hr s hs
    simp only [Region.Before] at hrs
    simp only [decide_eq_true_eq]
    omega

theorem laid_unique {rs : List Region} {bs cs : List Block} (ho : rs.Pairwise Region.Before)
    (hb : Laid rs bs) (hc : Laid rs cs) (hbz : ∀ b ∈ bs, 0 < b.size) (hcz : ∀ c ∈ cs, 0 < c.size)
    (hbp : bs.IsChain (Parted rs)) (hcp : cs.IsChain (Parted rs)) (hu : used bs = used cs) :
    bs = cs := by
  induction rs generalizing bs cs with
  | nil => rw [hb, hc]
  | cons r rs ih =>
    obtain ⟨own,rest,rfl,ht,hl⟩ := hb
    obtain ⟨own',rest',rfl,ht',hl'⟩ := hc
    obtain ⟨hr,ho⟩ := List.pairwise_cons.mp ho
    have hz := fun b hb => hbz b (List.mem_append_left rest hb)
    have hz' := fun b hb => hcz b (List.mem_append_left rest' hb)
    obtain ⟨hown,hrest⟩ := laid_split hr ht hl hz
    obtain ⟨hown',hrest'⟩ := laid_split hr ht' hl' hz'
    rw [used_append, used_append] at hu
    obtain ⟨huo,hur⟩ := append_inj_of_split hu hown hrest hown' hrest'
    have hpo := Parted.isChain_tile (by simp) (List.isChain_append.mp hbp).1 ht hz
    have hpo' := Parted.isChain_tile (by simp) (List.isChain_append.mp hcp).1 ht' hz'
    rw [tile_unique ht ht' hz hz' hpo hpo' huo,
      ih ho hl hl' (fun b hb => hbz b (by simp [hb])) (fun b hb => hcz b (by simp [hb]))
        (isChain_parted_tail hbp) (isChain_parted_tail hcp) hur]

/-- Two arrangements over the same regions with the same blocks in use are one
and the same. -/
theorem Arranged.unique {rs : List Region} {bs cs : List Block} (hb : Arranged rs bs)
    (hc : Arranged rs cs) (hu : used bs = used cs) : bs = cs :=
  laid_unique hb.ordered hb.laid hc.laid (fun b h => (hb.sized b h).size_pos)
    (fun c h => (hc.sized c h).size_pos) hb.coherent.separated hc.coherent.separated hu

/-! ## No block in use -/

def Region.whole (r : Region) : Block := ⟨r.start,r.size,true⟩

theorem used_eq_nil {bs : List Block} (h : used bs = []) : ∀ b ∈ bs, b.free = true := by
  intro b hb
  simpa using List.filter_eq_nil_iff.mp h b hb

theorem laid_whole {rs : List Region} {bs : List Block} (hl : Laid rs bs)
    (hn : ∀ r ∈ rs, 0 < r.size) (hz : ∀ b ∈ bs, 0 < b.size) (hp : bs.IsChain (Parted rs))
    (hf : ∀ b ∈ bs, b.free = true) : bs = rs.map Region.whole := by
  induction rs generalizing bs with
  | nil => exact hl
  | cons r rs ih =>
    obtain ⟨own,rest,rfl,ht,hr⟩ := hl
    have hone : own = [r.whole] := by
      have hoz := fun b hb => hz b (List.mem_append_left rest hb)
      have hop := Parted.isChain_tile (by simp) (List.isChain_append.mp hp).1 ht hoz
      have htw : Tile r.start r.finish [r.whole] := ⟨rfl,rfl⟩
      apply tile_unique ht htw hoz (by simpa [Region.whole] using hn r (by simp)) hop
        (List.isChain_singleton _)
      rw [used, List.filter_eq_nil_iff.mpr fun b hb => by simp [hf b (by simp [hb])]]
      rfl
    rw [hone, ih hr (fun s hs => hn s (by simp [hs])) (fun b hb => hz b (by simp [hb]))
      (isChain_parted_tail hp) (fun b hb => hf b (by simp [hb]))]
    rfl

theorem Arranged.whole {rs : List Region} {bs : List Block} (h : Arranged rs bs)
    (hu : used bs = []) : bs = rs.map Region.whole :=
  laid_whole h.laid h.nonempty (fun b hb => (h.sized b hb).size_pos) h.coherent.separated
    (used_eq_nil hu)

end Freestanding.Heap
