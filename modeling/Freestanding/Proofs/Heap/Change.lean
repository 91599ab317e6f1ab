import Freestanding.Heap.Operations
import Freestanding.Proofs.Heap.Linked
import Freestanding.Proofs.Heap.Lookup
import Freestanding.Proofs.Heap.Store

/-!
# What operations change

A sound heap is an arrangement of blocks over a lawful store. Every operation
leads from one sound heap to another. What it does to the blocks in use is
named by two lists, the blocks that are gone and the fresh ones. The headers
that it writes fall into no payload of another block in use, and they keep the
list of blocks in memory.
-/

set_option autoImplicit false

namespace Freestanding.Heap

variable {σ : Type} [Store σ]

structure Sound (h : Heap σ) : Prop where
  arranged : Arranged h.regions h.blocks
  lawful : Lawful h.regions h.store
  increment_aligned : h.config.increment % alignment = 0
  increment_pos : 0 < h.config.increment

/-- A heap whose blocks are linked in its memory. -/
structure Threaded (h : Heap σ) : Prop where
  sizes : ∀ r ∈ h.regions, r.size < wordLimit
  linked : Linked h.memory none h.blocks

structure Change (h : Heap σ) (gone fresh : List Block) (h' : Heap σ) : Prop where
  sound : Sound h'
  used_perm : (gone ++ used h'.blocks).Perm (fresh ++ used h.blocks)
  kept : ∀ b ∈ used h'.blocks, b ∉ fresh → ∀ a, b.payload ≤ a → a < b.finish →
    h'.memory.byte a = h.memory.byte a
  threaded : Threaded h → Threaded h'
  config : h'.config = h.config

def HeapError.Blameless (e : HeapError) : Prop :=
  ∀ a, e ≠ .invalidPointer a ∧ e ≠ .doubleFree a

/-! ## Sizes -/

theorem blockSize?_spec {size total : Nat} (h : blockSize? size = some total) (hs : 0 < size) :
    total % alignment = 0 ∧ minSplit ≤ total ∧ size + headerSize ≤ total := by
  simp only [blockSize?, alignUp?, wordAdd?, Option.map_eq_some_iff, Option.bind_eq_some_iff,
    Option.ite_none_right_eq_some, Option.some.injEq] at h
  obtain ⟨s,⟨t,⟨-,rfl⟩,rfl⟩,-,rfl⟩ := h
  simp only [alignment, minSplit, headerSize]
  omega

theorem growth?_eq_some {increment total bytes : Nat} :
    growth? increment total = some bytes ↔ total + (increment - 1) < wordLimit ∧
      (total + (increment - 1)) / increment * increment = bytes := by
  simp [growth?, wordAdd?]

theorem growth?_ge {increment total bytes : Nat} (h : growth? increment total = some bytes)
    (hp : 0 < increment) : total ≤ bytes := by
  obtain ⟨-,rfl⟩ := growth?_eq_some.mp h
  have hd := Nat.div_add_mod' (total + (increment - 1)) increment
  have hm := Nat.mod_lt (total + (increment - 1)) hp
  omega

theorem growth?_lt {increment total bytes : Nat} (h : growth? increment total = some bytes) :
    bytes < wordLimit := by
  obtain ⟨hlt,rfl⟩ := growth?_eq_some.mp h
  exact Nat.lt_of_le_of_lt (Nat.div_mul_le_self _ _) hlt

theorem growth?_spec {increment total bytes : Nat} (h : growth? increment total = some bytes)
    (ha : increment % alignment = 0) (hp : 0 < increment) :
    bytes % alignment = 0 ∧ total ≤ bytes := by
  refine ⟨?_,growth?_ge h hp⟩
  obtain ⟨-,rfl⟩ := growth?_eq_some.mp h
  rw [Nat.mul_mod, ha]
  simp

theorem normalise_increment (c : Config) :
    c.normalise.increment % alignment = 0 ∧ 0 < c.normalise.increment := by
  unfold Config.normalise alignUp? wordAdd?
  split_ifs with h
  · simp only [Option.map_some, Option.getD_some, alignment]
    omega
  · simp [alignment]

theorem empty_sound (config : Config) {store : σ} (h : Lawful [] store) :
    Sound (Heap.empty config store) where
  arranged := ⟨.nil,by simp [Heap.empty],by simp [Heap.empty],by simp [Heap.empty],rfl,
    by simp [Heap.empty],.nil⟩
  lawful := h
  increment_aligned := (normalise_increment config).1
  increment_pos := (normalise_increment config).2

/-! ## Changes -/

namespace Change

variable {h h' h'' : Heap σ} {gone fresh : List Block} {b : Block}

theorem refl (hs : Sound h) : Change h [] [] h :=
  ⟨hs,List.Perm.refl _,fun _ _ _ _ _ _ => rfl,id,rfl⟩

theorem congr (hc : Change h gone fresh h') (hb : h''.blocks = h'.blocks)
    (hr : h''.regions = h'.regions) (hm : h''.memory = h'.memory) (hf : h''.config = h'.config)
    (hl : Lawful h'.regions h''.store) : Change h gone fresh h'' := by
  constructor
  case sound =>
    refine ⟨?_,?_,?_,?_⟩
    · rw [hr, hb]
      exact hc.sound.arranged
    · rw [hr]
      exact hl
    · rw [hf]
      exact hc.sound.increment_aligned
    · rw [hf]
      exact hc.sound.increment_pos
  case used_perm =>
    rw [hb]
    exact hc.used_perm
  case kept =>
    rw [hb, hm]
    exact hc.kept
  case threaded =>
    intro ht
    refine ⟨?_,?_⟩
    · rw [hr]
      exact (hc.threaded ht).sizes
    · rw [hm, hb]
      exact (hc.threaded ht).linked
  case config => exact hf.trans hc.config

theorem note (hc : Change h gone fresh h') (e : Event) : Change h gone fresh (h'.note e) :=
  hc.congr rfl rfl rfl rfl hc.sound.lawful

theorem count (hc : Change h gone fresh h') (c : Counters) :
    Change h gone fresh { h' with counters := c } :=
  hc.congr rfl rfl rfl rfl hc.sound.lawful

theorem countFailure (hc : Change h gone fresh h') : Change h gone fresh h'.countFailure :=
  hc.count _

theorem mem_iff (hc : Change h gone fresh h') :
    b ∈ gone ∨ b ∈ used h'.blocks ↔ b ∈ fresh ∨ b ∈ used h.blocks := by
  simpa using hc.used_perm.mem_iff

theorem store (hc : Change h gone fresh h') (hf : ∀ c ∈ fresh, c ∈ used h'.blocks) (m : Memory)
    (hm : ∀ a, (∀ b ∈ fresh, a < b.payload ∨ b.finish ≤ a) → m.byte a = h'.memory.byte a) :
    Change h gone fresh { h' with memory := m } := by
  have ha := hc.sound.arranged
  constructor
  case sound => exact ⟨ha,hc.sound.lawful,hc.sound.increment_aligned,hc.sound.increment_pos⟩
  case used_perm => exact hc.used_perm
  case kept =>
    intro b hb hn a hl hu
    refine (hm a fun c hcf => ?_).trans (hc.kept b hb hn a hl hu)
    have hcb : c ≠ b := fun he => hn (he ▸ hcf)
    have hap := ha.apart (mem_used.mp (hf c hcf)).1 (mem_used.mp hb).1 hcb
    simp only [Block.Apart, Block.Before, Block.payload, Block.finish] at *
    omega
  case threaded =>
    intro ht
    refine ⟨(hc.threaded ht).sizes,(hc.threaded ht).linked.congr fun b hb => ?_⟩
    apply Memory.header_congr
    intro x hl hu
    refine hm x fun c hcf => ?_
    have := ha.header_apart (mem_used.mp (hf c hcf)).1 hb
    omega
  case config => exact hc.config

theorem trans {fresh' gone' : List Block} (hc : Change h gone fresh h')
    (hd : Change h' gone' fresh' h'') : Change h (gone ++ gone') (fresh' ++ fresh) h'' := by
  constructor
  case sound => exact hd.sound
  case used_perm =>
    have h1 := (hd.used_perm.append_left gone).trans (List.perm_append_comm_assoc _ _ _)
    rw [List.append_assoc, List.append_assoc]
    exact h1.trans (hc.used_perm.append_left fresh')
  case kept =>
    intro b hb hn a hl hu
    simp only [List.mem_append, not_or] at hn
    have hb' := (hd.mem_iff.mp (Or.inr hb)).resolve_left hn.1
    exact (hd.kept b hb hn.1 a hl hu).trans (hc.kept b hb' hn.2 a hl hu)
  case threaded => exact fun ht => hd.threaded (hc.threaded ht)
  case config => exact hd.config.trans hc.config

end Change

theorem carve_head (b : Block) (total : Nat) :
    ∃ rest, b.carve total = ⟨b.address,b.heldSize total,false⟩ :: rest := by
  unfold Block.carve Block.heldSize
  split <;> simp

theorem heldSize_ge {b : Block} {total : Nat} (h : total ≤ b.size) : total ≤ b.heldSize total := by
  unfold Block.heldSize
  split <;> omega

theorem carve_change {h : Heap σ} (hs : Sound h) {pre post : List Block} {b : Block}
    (he : h.blocks = pre ++ b :: post) (hf : b.free = true) {total : Nat} (ht : total ≤ b.size)
    (ha : total % alignment = 0) (hm : minSplit ≤ total) :
    Change h [] [⟨b.address,b.heldSize total,false⟩]
      { h with
        blocks := pre ++ b.carve total ++ post
        memory := h.memory.carve b total (firstAddress? post) } := by
  have harr := he ▸ hs.arranged
  have hb : b ∈ pre ++ b :: post := by simp
  have hz := harr.sized b hb
  constructor
  case sound => exact ⟨harr.carve hf ht ha hm,hs.lawful,hs.increment_aligned,hs.increment_pos⟩
  case used_perm =>
    rw [he, used_append, used_append, carve_used, used_append, used_cons, if_pos hf]
    simp only [List.nil_append, List.append_assoc, List.singleton_append]
    exact List.perm_middle
  case kept =>
    intro c hc hn a hl hu
    apply carve_outside _ _ (Nat.le_of_lt hz.header_lt)
    have hold : c ∈ pre ++ b :: post ∧ c ≠ b := by
      obtain ⟨hmem,hused⟩ := mem_used.mp hc
      refine ⟨?_,fun hcb => by simp [hcb, hf] at hused⟩
      rw [used_append, used_append, carve_used] at hc
      simp only [List.mem_append, List.mem_singleton, or_assoc] at hc hn ⊢
      rcases hc with hc | hc | hc
      · exact Or.inl (mem_used.mp hc).1
      · exact absurd hc hn
      · exact Or.inr (List.mem_cons_of_mem _ (mem_used.mp hc).1)
    have hap := harr.apart hold.1 hb hold.2
    simp only [Block.Apart, Block.Before, Block.payload, Block.finish] at *
    omega
  case threaded =>
    intro hth
    have hsize : b.size < wordLimit := by
      obtain ⟨r,hr,hlow,hhigh⟩ := laid_within harr.laid hb
      have := hth.sizes r hr
      simp only [Block.finish, Region.finish] at hlow hhigh
      omega
    have hlinked := hth.linked
    rw [he] at hlinked
    exact ⟨hth.sizes,hlinked.carve harr hsize (Nat.le_trans (by decide) hm)⟩
  case config => rfl

theorem occupy_change {h : Heap σ} (hs : Sound h) {b : Block} (hb : b ∈ h.blocks)
    (hf : b.free = true) {total : Nat} (ht : total ≤ b.size) (ha : total % alignment = 0)
    (hm : minSplit ≤ total) (size : Nat) :
    ∃ h', h.occupy b.address size total = (.ok b.payload, h') ∧
      Change h [] [⟨b.address,b.heldSize total,false⟩] h' := by
  obtain ⟨pre,post,he,hn⟩ := hs.arranged.split hb
  have hcarve : carveAt b.address total h.blocks = pre ++ b.carve total ++ post := by
    rw [he, carveAt_split total hn]
  have hwrite : carveHeaders b.address total h.blocks h.memory =
      h.memory.carve b total (firstAddress? post) := by
    rw [he, carveHeaders_split total h.memory hn]
  have hheld : sizeAt b.address (carveAt b.address total h.blocks) = b.heldSize total := by
    obtain ⟨rest,hc⟩ := carve_head b total
    rw [hcarve, hc, List.append_assoc]
    exact @sizeAt_split pre (rest ++ post) ⟨b.address,b.heldSize total,false⟩ hn
  have hge := heldSize_ge ht
  have hc := carve_change hs he hf ht ha hm
  rw [occupy, hheld, hcarve, hwrite]
  refine ⟨_,rfl,((hc.store ?_ _ ?_).count _).note _⟩
  · simp [used_append, carve_used]
  · intro a hout
    have hout := hout _ (List.mem_singleton.mpr rfl)
    cases h.config.fill with
    | none => rfl
    | some c =>
      apply Memory.fill_outside
      simp only [Block.payload, Block.finish, headerSize, minSplit] at *
      omega

theorem outOfMemory_blameless (h : Heap σ) (size : Nat) : (h.outOfMemory size).Blameless := by
  intro a
  simp [outOfMemory]

theorem addRegion_change {h : Heap σ} (hs : Sound h) {r : Region} {store : σ} {bytes : Nat}
    (hacq : Store.acquire bytes h.store = (.ok r, store)) (hal : bytes % alignment = 0)
    (hm : minSplit ≤ bytes) (hw : bytes < wordLimit) :
    Change h [] [] ({ h with store }.addRegion r bytes) := by
  obtain ⟨hans,hap,hlaw⟩ := hs.lawful.granted hacq
  obtain rfl := hans.size_eq
  have hpos : 0 < r.size := Nat.lt_of_lt_of_le (by decide) hm
  have harr := hs.arranged.insert hans.aligned hal hm hans.bounded hap
  have hused := @insertBlock_used ⟨r.start,r.size,true⟩ h.blocks rfl
  constructor
  case sound =>
    have hperm := (List.perm_append_singleton r h.regions).trans
      (insertRegion_perm r h.regions).symm
    exact ⟨harr,hlaw.perm hperm,hs.increment_aligned,hs.increment_pos⟩
  case used_perm =>
    simp only [addRegion, List.nil_append, hused]
    exact List.Perm.refl _
  case kept =>
    intro b hb hn a hl hu
    simp only [addRegion, hused] at hb ⊢
    have hb := (mem_used.mp hb).1
    have hsame := newHeader_sameBut ⟨r.start,r.size,true⟩ ⟨r.size,true,none⟩ h.blocks
      (h.memory.overlay r (Store.contents store))
    rw [harr.payload_same hsame (mem_insertBlock.mpr (Or.inr hb)) hl hu]
    apply Memory.overlay_outside
    have hout := hs.arranged.outside_region hpos hap hb
    simp only [Block.payload] at hl
    omega
  case threaded =>
    intro ht
    refine ⟨?_,ht.linked.insert hs.arranged harr hap hw _⟩
    simpa [addRegion, mem_insertRegion, hw] using ht.sizes
  case config => rfl

/-- Growth adds one free block of the size asked for, or changes nothing. -/
theorem grow_change {h : Heap σ} (hs : Sound h) (size : Nat) {total : Nat}
    (hm : minSplit ≤ total) :
    (∃ b h', h.grow size total = (.ok b.address, h') ∧ Change h [] [] h' ∧ b ∈ h'.blocks ∧
      b.free = true ∧ total ≤ b.size) ∨
    ∃ e h', h.grow size total = (.error e, h') ∧ e.Blameless ∧ Change h [] [] h' := by
  cases hg : growth? h.config.increment total with
  | none =>
    exact Or.inr ⟨h.outOfMemory size,h,by simp only [grow, hg],h.outOfMemory_blameless size,
      Change.refl hs⟩
  | some bytes =>
    obtain ⟨hal,hle⟩ := growth?_spec hg hs.increment_aligned hs.increment_pos
    rcases hacq : Store.acquire bytes h.store with ⟨e | r,store⟩
    · have heq : h.grow size total =
          (.error ({ h with store }.outOfMemory size), { h with store }.note (.refused bytes e)) := by
        simp only [grow, hg, hacq]
      have hc : Change h [] [] { h with store } :=
        (Change.refl hs).congr rfl rfl rfl rfl (hs.lawful.refused hacq)
      exact Or.inr ⟨_,_,heq,outOfMemory_blameless _ size,hc.note _⟩
    · obtain ⟨e,heq⟩ : ∃ e, h.grow size total =
          (.ok r.start, ({ h with store }.addRegion r bytes).note e) := by
        simp only [grow, hg, hacq]
        exact ⟨_,rfl⟩
      have hc := addRegion_change hs hacq hal (Nat.le_trans hm hle) (growth?_lt hg)
      exact Or.inl ⟨⟨r.start,bytes,true⟩,_,heq,hc.note _,mem_insertBlock.mpr (Or.inl rfl),rfl,hle⟩

/-- Allocation hands out one fresh block that is large enough, or changes
nothing. -/
theorem allocate_change {h : Heap σ} (hs : Sound h) (size : Nat) :
    (∃ b h', h.allocate size = (.ok b.payload, h') ∧ size ≤ b.capacity ∧ Change h [] [b] h') ∨
    ∃ e h', h.allocate size = (.error e, h') ∧ e.Blameless ∧ Change h [] [] h' := by
  by_cases hz : size = 0
  · exact Or.inr ⟨.zeroSize,h,by simp only [allocate, if_pos hz],fun a => ⟨by simp,by simp⟩,
      Change.refl hs⟩
  cases ht : blockSize? size with
  | none =>
    have heq : h.allocate size =
        (.error (h.outOfMemory size), h.countFailure.note (.sizeOverflowed size)) := by
      simp only [allocate, if_neg hz, ht]
    exact Or.inr ⟨_,_,heq,h.outOfMemory_blameless size,((Change.refl hs).countFailure).note _⟩
  | some total =>
    obtain ⟨hal,hm,hle⟩ := blockSize?_spec ht (Nat.pos_of_ne_zero hz)
    have hroom : ∀ b : Block, total ≤ b.size →
        size ≤ (⟨b.address,b.heldSize total,false⟩ : Block).capacity := by
      intro b hb
      have := heldSize_ge hb
      simp only [Block.capacity]
      omega
    cases hfit : firstFit? total h.blocks with
    | some b =>
      obtain ⟨hb,hf,hsz⟩ := firstFit?_spec hfit
      obtain ⟨h',ho,hc⟩ := occupy_change hs hb hf hsz hal hm size
      refine Or.inl ⟨_,h',?_,hroom b hsz,hc⟩
      simp only [allocate, if_neg hz, ht, hfit]
      exact ho
    | none =>
      rcases grow_change hs size hm with ⟨b,h',hg,hc,hb,hf,hsz⟩ | ⟨e,h',hg,he,hc⟩
      · obtain ⟨h'',ho,hc'⟩ := occupy_change hc.sound hb hf hsz hal hm size
        refine Or.inl ⟨_,h'',?_,hroom b hsz,hc.trans hc'⟩
        simp only [allocate, if_neg hz, ht, hfit, hg]
        exact ho
      · refine Or.inr ⟨e,_,?_,he,hc.countFailure.note (.failed size e)⟩
        simp only [allocate, if_neg hz, ht, hfit, hg]

/-! ## Blocks that stay -/

theorem used_nodup {h : Heap σ} (hs : Sound h) : (used h.blocks).Nodup := by
  apply hs.arranged.used_address_lt.imp
  intro b c hbc he
  rw [he] at hbc
  exact Nat.lt_irrefl _ hbc

namespace Change

variable {h h' : Heap σ} {gone fresh : List Block} {b : Block}

theorem stays (hc : Change h gone fresh h') (hb : b ∈ used h.blocks) (hg : b ∉ gone) :
    b ∈ used h'.blocks :=
  (hc.mem_iff.mpr (Or.inr hb)).resolve_left hg

theorem fresh_mem (hc : Change h [] [b] h') : b ∈ used h'.blocks :=
  (hc.mem_iff.mpr (Or.inl (by simp))).resolve_left (by simp)

theorem fresh_new (hc : Change h [] [b] h') : b ∉ used h.blocks := by
  have hn := (hc.used_perm.nodup_iff).mp (used_nodup hc.sound)
  exact (List.nodup_cons.mp hn).1

end Change

theorem Block.Sized.payload_add_capacity {b : Block} (h : b.Sized) :
    b.payload + b.capacity = b.finish := by
  have := h.header_lt
  simp only [Block.payload, Block.capacity, Block.finish]
  omega

/-! ## Freeing -/

theorem freeAt_eq {h : Heap σ} (hs : Sound h) {b : Block} (hb : b ∈ used h.blocks) :
    ∃ h', h.freeAt b.payload = (.ok (), h') ∧
      h'.blocks = (coalesce h.regions (releaseAt b.address h.blocks)).1 ∧
      h'.memory = mergeHeaders (joins h.regions) (releaseAt b.address h.blocks)
        (h.memory.setFree b.address true) ∧
      h'.regions = h.regions ∧ h'.config = h.config ∧ h'.store = h.store := by
  obtain ⟨hm,hu⟩ := mem_used.mp hb
  have hfind := (findBlock_ok_iff hs.arranged b.payload b).mpr ⟨hm,rfl⟩
  have htakes := takesIn_eq_joins (ascending_of_before hs.arranged.ordered)
  simp only [freeAt, hfind, hu, Bool.false_eq_true, if_false, htakes]
  exact ⟨_,rfl,rfl,rfl,rfl,rfl,rfl⟩

theorem freeAt_change {h : Heap σ} (hs : Sound h) {b : Block} (hb : b ∈ used h.blocks) :
    ∃ h', h.freeAt b.payload = (.ok (), h') ∧ Change h [b] [] h' := by
  obtain ⟨h',heq,hbs,hms,hrs,hcs,hss⟩ := freeAt_eq hs hb
  obtain ⟨hm,hu⟩ := mem_used.mp hb
  obtain ⟨pre,post,he,hn⟩ := hs.arranged.split hm
  have harr := he ▸ hs.arranged
  have hrel : releaseAt b.address h.blocks = pre ++ { b with free := true } :: post := by
    rw [he, releaseAt_split hn]
  have haddr : (releaseAt b.address h.blocks).map Block.address =
      h.blocks.map Block.address := by
    rw [hrel, he]
    simp
  have hused : (b :: used h'.blocks).Perm (used h.blocks) := by
    rw [hbs, hrel, coalesce_used, he, used_append, used_append, used_cons, used_cons, hu]
    simp only [if_true, Bool.false_eq_true, if_false]
    exact List.perm_middle.symm
  refine ⟨h',heq,?_⟩
  constructor
  case sound =>
    refine ⟨?_,?_,?_,?_⟩
    · rw [hbs, hrs, hrel]
      exact harr.release
    · rw [hrs, hss]
      exact hs.lawful
    · rw [hcs]
      exact hs.increment_aligned
    · rw [hcs]
      exact hs.increment_pos
  case used_perm => exact hused
  case kept =>
    intro c hc _ a hl hu
    have hc := (mem_used.mp (hused.mem_iff.mp (List.mem_cons_of_mem b hc))).1
    rw [hms]
    refine hs.arranged.payload_same ?_ hc hl hu
    rw [← haddr]
    refine ((h.memory.setFree_sameBut b.address true).mono ?_).trans
      (mergeHeaders_sameBut _ _ _)
    rw [haddr]
    simpa using ⟨b,hm,rfl⟩
  case threaded =>
    intro ht
    refine ⟨hrs ▸ ht.sizes,?_⟩
    have hlaid := @laid_replace h.regions pre post b harr.laid [{ b with free := true }] ⟨rfl,rfl⟩
    have hlinked := ht.linked
    rw [he] at hlinked
    rw [hms, hbs]
    apply mergeHeaders_linked ht.sizes
    · rw [hrel]
      simpa using hlaid
    · exact hs.arranged.spaced.congr haddr
    · rw [hrel]
      exact hlinked.release harr.spaced
  case config => exact hcs

theorem freeAt_free {h : Heap σ} (hs : Sound h) {b : Block} (hb : b ∈ h.blocks)
    (hf : b.free = true) : h.freeAt b.payload = (.error (.doubleFree b.payload), h) := by
  have hfind := (findBlock_ok_iff hs.arranged b.payload b).mpr ⟨hb,rfl⟩
  simp only [freeAt, hfind, hf, if_true]

theorem freeAt_absent {h : Heap σ} (hs : Sound h) {q : Nat}
    (hq : ∀ b ∈ h.blocks, b.payload ≠ q) : h.freeAt q = (.error (.invalidPointer q), h) := by
  cases hfind : h.findBlock q with
  | ok b =>
    obtain ⟨hb,hp⟩ := (findBlock_ok_iff hs.arranged q b).mp hfind
    exact absurd hp (hq b hb)
  | error e =>
    rw [findBlock_error hfind] at hfind
    simp only [freeAt, hfind]

end Freestanding.Heap
