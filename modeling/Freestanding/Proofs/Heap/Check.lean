import Freestanding.Heap.Check
import Freestanding.Proofs.Heap.Lookup

/-!
# The check accepts coherent blocks

Coherence is said region by region: the blocks found in a region tile it. The
check walks all blocks once. At every point of the walk its counts are the
bytes that the blocks passed so far cover in each region.
-/

set_option autoImplicit false

namespace Freestanding.Heap

def blocksIn (r : Region) (bs : List Block) : List Block :=
  bs.filter fun b => r.contains b.address

structure Coherent (rs : List Region) (bs : List Block) : Prop where
  held : ∀ b ∈ bs, ∃ r ∈ rs, r.contains b.address = true
  sized : ∀ b ∈ bs, headerSize ≤ b.size ∧ b.size % alignment = 0
  increasing : bs.Pairwise fun b c => b.address < c.address
  tiled : ∀ r ∈ rs, Tile r.start r.finish (blocksIn r bs)
  separated : bs.IsChain fun b c => ∀ r ∈ rs,
    r.contains b.address = true → r.contains c.address = true → ¬(b.free = true ∧ c.free = true)

def coverage (rs : List Region) (bs : List Block) : List Nat :=
  rs.map fun r => totalSize (blocksIn r bs)

theorem coverage_nil (rs : List Region) : coverage rs [] = List.replicate rs.length 0 := by
  simp [coverage, blocksIn, totalSize]

theorem totalSize_append (bs cs : List Block) :
    totalSize (bs ++ cs) = totalSize bs + totalSize cs := by
  induction bs with
  | nil => simp [totalSize]
  | cons b bs ih => simp [totalSize, ih, Nat.add_assoc]

theorem tile_totalSize {start finish : Nat} {bs : List Block} (h : Tile start finish bs) :
    start + totalSize bs = finish := by
  induction bs generalizing start with
  | nil => exact h
  | cons b bs ih =>
    have := ih h.2
    simp only [Block.finish, h.1] at this
    simp only [totalSize]
    omega

theorem blocksIn_append (r : Region) (bs cs : List Block) :
    blocksIn r (bs ++ cs) = blocksIn r bs ++ blocksIn r cs := by
  simp [blocksIn]

theorem blocksIn_cons (r : Region) (b : Block) (bs : List Block) :
    blocksIn r (b :: bs) = if r.contains b.address then b :: blocksIn r bs else blocksIn r bs := by
  simp [blocksIn, List.filter_cons]

theorem locate?_region {rs : List Region} (ho : rs.Pairwise Region.Before) {r : Region}
    (hr : r ∈ rs) :
    ∃ i, rs[i]? = some r ∧ ∀ a, r.contains a = true → locate? a rs = some (i,r) := by
  obtain ⟨i,hi⟩ := List.mem_iff_getElem?.mp hr
  exact ⟨i,hi,fun a ha => (locate?_eq_some_iff ho).mpr ⟨hi,ha⟩⟩

theorem locate?_of_mem {rs : List Region} (ho : rs.Pairwise Region.Before) {r : Region}
    (hr : r ∈ rs) {a : Nat} (ha : r.contains a = true) :
    ∃ i, locate? a rs = some (i,r) ∧ rs[i]? = some r := by
  obtain ⟨i,hi,hl⟩ := locate?_region ho hr
  exact ⟨i,hl a ha,hi⟩

theorem region_unique {rs : List Region} (ho : rs.Pairwise Region.Before) {r s : Region}
    (hr : r ∈ rs) (hs : s ∈ rs) {a : Nat} (hra : r.contains a = true)
    (hsa : s.contains a = true) : r = s := by
  obtain ⟨i,hi,-⟩ := locate?_of_mem ho hr hra
  obtain ⟨j,hj,-⟩ := locate?_of_mem ho hs hsa
  rw [hi] at hj
  exact (Prod.mk.inj (Option.some.inj hj)).2

theorem coverage_snoc {rs : List Region} (ho : rs.Pairwise Region.Before) (bs : List Block)
    {b : Block} {i : Nat} {r : Region} (hl : locate? b.address rs = some (i,r)) :
    (coverage rs bs).modify i (· + b.size) = coverage rs (bs ++ [b]) := by
  obtain ⟨hi,hr⟩ := locate?_spec hl
  have hcov : ∀ t : Region, totalSize (blocksIn t (bs ++ [b])) =
      totalSize (blocksIn t bs) + if t.contains b.address then b.size else 0 := by
    intro t
    rw [blocksIn_append, totalSize_append, blocksIn_cons]
    split_ifs <;> simp [blocksIn, totalSize]
  apply List.ext_getElem?
  intro j
  simp only [List.getElem?_modify, coverage, List.getElem?_map, hcov]
  cases hj : rs[j]? with
  | none => rfl
  | some t =>
    by_cases ht : t.contains b.address = true
    · rw [(locate?_eq_some_iff ho).mpr ⟨hj,ht⟩] at hl
      obtain ⟨rfl,rfl⟩ := Prod.mk.inj (Option.some.inj hl)
      simp [ht]
    · have hij : i ≠ j := by
        rintro rfl
        rw [hj] at hi
        exact ht (Option.some.inj hi ▸ hr)
      simp [ht, hij]

theorem coverage_getD {rs : List Region} (bs : List Block) {i : Nat} {r : Region}
    (hi : rs[i]? = some r) : (coverage rs bs).getD i 0 = totalSize (blocksIn r bs) := by
  simp [coverage, List.getD_eq_getElem?_getD, hi]

theorem checkBlock_ok {rs : List Region} {done todo : List Block} {b : Block}
    (h : Coherent rs (done ++ b :: todo)) {r : Region} (hr : r ∈ rs)
    (hb : r.contains b.address = true) {i : Nat} (hl : locate? b.address rs = some (i,r))
    (hi : rs[i]? = some r) : checkBlock rs (coverage rs done) b = .ok i := by
  have hz := h.sized b (by simp)
  have ht := h.tiled r hr
  rw [blocksIn_append, blocksIn_cons, if_pos hb, tile_append] at ht
  obtain ⟨m,hd,ha,-⟩ := ht
  -- The blocks passed in this region tile it from its start up to this block.
  have hm := tile_totalSize hd
  have hp : b.address - r.start = (coverage rs done).getD i 0 := by
    rw [coverage_getD done hi]
    omega
  have hbad : ¬(b.size < headerSize ∨ b.size % alignment ≠ 0) := by
    rintro (hlt | hne)
    · exact Nat.not_le_of_lt hlt hz.1
    · exact hne hz.2
  simp only [checkBlock, hl, if_neg hbad, hp, ne_eq, not_true_eq_false, if_false]

theorem checkPair_ok {rs : List Region} {b c : Block} {r : Region} (hr : r ∈ rs)
    (hb : r.contains b.address = true) {i : Nat} (hi : rs[i]? = some r)
    (hlt : b.address < c.address)
    (hs : ∀ r ∈ rs, r.contains b.address = true → r.contains c.address = true →
      ¬(b.free = true ∧ c.free = true)) : checkPair rs i b c = .ok () := by
  have hn : ¬(b.free = true ∧ c.free = true ∧ (locate? c.address rs).map Prod.fst = some i) := by
    rintro ⟨hbf,hcf,hl⟩
    obtain ⟨⟨j,s⟩,hj,rfl⟩ := Option.map_eq_some_iff.mp hl
    obtain ⟨hjs,hsc⟩ := locate?_spec hj
    rw [hi] at hjs
    obtain rfl := Option.some.inj hjs
    exact hs r hr hb hsc ⟨hbf,hcf⟩
  simp only [checkPair, if_neg (Nat.not_le_of_lt hlt), if_neg hn]

theorem checkBlocks_ok {rs : List Region} (ho : rs.Pairwise Region.Before)
    (done todo : List Block) (h : Coherent rs (done ++ todo)) :
    checkBlocks rs (coverage rs done) todo = .ok (coverage rs (done ++ todo)) := by
  induction todo generalizing done with
  | nil => simp [checkBlocks]
  | cons b todo ih =>
    obtain ⟨r,hr,hb⟩ := h.held b (by simp)
    obtain ⟨i,hl,hi⟩ := locate?_of_mem ho hr hb
    have hpair : todo.head?.elim (.ok ()) (checkPair rs i b) = .ok () := by
      cases todo with
      | nil => rfl
      | cons c todo =>
        have hlt := (List.pairwise_append.mp h.increasing).2.1
        have hsep := (List.isChain_append.mp h.separated).2.1
        exact checkPair_ok hr hb hi ((List.pairwise_cons.mp hlt).1 c (by simp))
          (List.isChain_cons_cons.mp hsep).1
    have hrec := ih (done ++ [b]) (by simpa using h)
    simp only [checkBlocks, checkBlock_ok h hr hb hl hi, hpair]
    rw [coverage_snoc ho done hl, hrec]
    simp

theorem checkCover_ok {rs : List Region} {f : Region → Nat} (h : ∀ r ∈ rs, r.size = f r) :
    checkCover rs (rs.map f) = .ok () := by
  induction rs with
  | nil => rfl
  | cons r rs ih =>
    simp only [List.map_cons, checkCover, if_pos (h r (by simp))]
    exact ih fun s hs => h s (by simp [hs])

/-- A heap whose blocks are coherent passes the check. -/
theorem check_ok_of_coherent {σ : Type} {h : Heap σ} (ho : h.regions.Pairwise Region.Before)
    (hc : Coherent h.regions h.blocks) : h.check = .ok () := by
  have hcover : checkCover h.regions (coverage h.regions h.blocks) = .ok () := by
    apply checkCover_ok
    intro r hr
    have := tile_totalSize (hc.tiled r hr)
    simp only [Region.finish] at this
    omega
  have hwalk := checkBlocks_ok ho [] h.blocks hc
  simp only [check, findDefect, ← coverage_nil, hwalk, List.nil_append, hcover]

/-! ## Arranged blocks are coherent -/

theorem blocksIn_eq_self {r : Region} {bs : List Block} (h : ∀ b ∈ bs, r.contains b.address = true) :
    blocksIn r bs = bs :=
  List.filter_eq_self.mpr h

theorem blocksIn_eq_nil {r : Region} {bs : List Block} (h : ∀ b ∈ bs, ¬r.contains b.address = true) :
    blocksIn r bs = [] :=
  List.filter_eq_nil_iff.mpr h

theorem laid_tiled {rs : List Region} {bs : List Block} (h : Laid rs bs)
    (ho : rs.Pairwise Region.Before) (hz : ∀ b ∈ bs, b.Sized) {r : Region} (hr : r ∈ rs) :
    Tile r.start r.finish (blocksIn r bs) := by
  induction rs generalizing bs with
  | nil => simp at hr
  | cons s rs ih =>
    obtain ⟨own,rest,rfl,ht,hl⟩ := h
    obtain ⟨hs,ho⟩ := List.pairwise_cons.mp ho
    rw [blocksIn_append]
    rcases List.mem_cons.mp hr with rfl | hr
    · rw [blocksIn_eq_self, blocksIn_eq_nil, List.append_nil]
      · exact ht
      · intro b hb
        obtain ⟨t,htr,hw⟩ := laid_within hl hb
        have := hs t htr
        rw [Region.contains_iff]
        simp only [Region.Before] at this
        omega
      · intro b hb
        have hw := tile_within ht hb
        have := (hz b (by simp [hb])).size_pos
        rw [Region.contains_iff]
        simp only [Block.finish] at hw
        omega
    · rw [blocksIn_eq_nil, List.nil_append]
      · exact ih hl ho (fun b hb => hz b (by simp [hb])) hr
      · intro b hb
        have hw := tile_within ht hb
        have := (hz b (by simp [hb])).size_pos
        have := hs r hr
        rw [Region.contains_iff]
        simp only [Region.Before, Block.finish] at *
        omega

theorem Arranged.joins_of_free {rs : List Region} {bs : List Block} (h : Arranged rs bs)
    {pre post : List Block} {b c : Block} (he : bs = pre ++ b :: c :: post) {r : Region}
    (hr : r ∈ rs) (hb : r.contains b.address = true) (hc : r.contains c.address = true)
    (hf : b.free = true ∧ c.free = true) : joins rs b c = true := by
  have ht := laid_tiled h.laid h.ordered h.sized hr
  rw [he, blocksIn_append, blocksIn_cons, if_pos hb, blocksIn_cons, if_pos hc, tile_append] at ht
  obtain ⟨m,-,-,hbc,-⟩ := ht
  have hbz := (h.sized b (by simp [he])).size_pos
  refine joins_iff.mpr ⟨hf.1,hf.2,hbc.symm,fun s hs hstart => ?_⟩
  have hsc : s.contains c.address = true := by
    have := h.nonempty s hs
    rw [Region.contains_iff]
    simp only [Region.finish]
    omega
  obtain rfl := region_unique h.ordered hr hs hc hsc
  rw [Region.contains_iff] at hb
  simp only [Block.finish] at hbc
  omega

theorem Arranged.coherent {rs : List Region} {bs : List Block} (h : Arranged rs bs) :
    Coherent rs bs where
  held := by
    intro b hb
    obtain ⟨r,hr,hs,hf⟩ := laid_within h.laid hb
    have := (h.sized b hb).size_pos
    refine ⟨r,hr,(Region.contains_iff _ _).mpr ?_⟩
    simp only [Block.finish] at hf
    omega
  sized := fun b hb => ⟨Nat.le_of_lt (h.sized b hb).header_lt,(h.sized b hb).1⟩
  increasing := h.address_lt
  tiled := fun r hr => laid_tiled h.laid h.ordered h.sized hr
  separated := by
    refine List.isChain_iff_forall_rel_of_append_cons_cons.mpr ?_
    intro b c pre post he r hr hb hc hf
    have hn := List.isChain_iff_forall_rel_of_append_cons_cons.mp h.separated he
    rw [h.joins_of_free he hr hb hc hf] at hn
    cases hn

end Freestanding.Heap
