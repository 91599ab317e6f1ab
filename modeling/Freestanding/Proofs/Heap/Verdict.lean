import Freestanding.Heap.Links
import Freestanding.Proofs.Heap.Check
import Mathlib.Data.List.Perm.Subperm

/-!
# The check accepts nothing but coherent blocks

The tests of the check are local: the place of a block against the count of its
region, a block against the next one, and the counts at the end. The invariant
of the walk is that the blocks passed so far fill every region from its start
without a gap. So blocks that pass are coherent, whatever state the headers were
in, and a chain of headers that ends is walked to its end.
-/

set_option autoImplicit false

namespace Freestanding.Heap

/-! ## One block -/

theorem checkBlock_eq_ok {rs : List Region} {covered : List Nat} {b : Block} {i : Nat}
    (h : checkBlock rs covered b = .ok i) : ∃ r, locate? b.address rs = some (i,r) ∧
      (headerSize ≤ b.size ∧ b.size % alignment = 0) ∧
      b.address - r.start = covered.getD i 0 := by
  rw [checkBlock] at h
  cases hl : locate? b.address rs with
  | none =>
    rw [hl] at h
    cases h
  | some found =>
    obtain ⟨j,r⟩ := found
    simp only [hl] at h
    by_cases hbad : b.size < headerSize ∨ b.size % alignment ≠ 0
    · rw [if_pos hbad] at h
      cases h
    · rw [if_neg hbad] at h
      by_cases hplace : b.address - r.start ≠ covered.getD j 0
      · rw [if_pos hplace] at h
        cases h
      · rw [if_neg hplace] at h
        obtain rfl := Except.ok.inj h
        simp only [not_or, Nat.not_lt, ne_eq, not_not] at hbad hplace
        exact ⟨r,rfl,hbad,hplace⟩

def Follows (rs : List Region) (b c : Block) : Prop :=
  b.address < c.address ∧ ∀ r ∈ rs, r.contains b.address = true → r.contains c.address = true →
    ¬(b.free = true ∧ c.free = true)

theorem checkPair_eq_ok {rs : List Region} (ho : rs.Pairwise Region.Before) {b c : Block} {i : Nat}
    {r : Region} (hb : locate? b.address rs = some (i,r)) (h : checkPair rs i b c = .ok ()) :
    Follows rs b c := by
  rw [checkPair] at h
  by_cases hle : c.address ≤ b.address
  · rw [if_pos hle] at h
    cases h
  rw [if_neg hle] at h
  refine ⟨Nat.lt_of_not_le hle,fun s hs hsb hsc hfree => ?_⟩
  obtain ⟨j,-,hj⟩ := locate?_region ho hs
  have hi : i = j := by
    rw [hj b.address hsb] at hb
    exact (Prod.mk.inj (Option.some.inj hb)).1.symm
  have hsame : (locate? c.address rs).map Prod.fst = some i := by
    rw [hj c.address hsc, hi]
    rfl
  rw [if_pos ⟨hfree.1,hfree.2,hsame⟩] at h
  cases h

theorem checkBlocks_cons {rs : List Region} (ho : rs.Pairwise Region.Before) {covered out : List Nat}
    {b : Block} {bs : List Block} (h : checkBlocks rs covered (b :: bs) = .ok out) :
    ∃ i r, locate? b.address rs = some (i,r) ∧ (headerSize ≤ b.size ∧ b.size % alignment = 0) ∧
      b.address - r.start = covered.getD i 0 ∧ (∀ c ∈ bs.head?, Follows rs b c) ∧
      checkBlocks rs (covered.modify i (· + b.size)) bs = .ok out := by
  rw [checkBlocks] at h
  cases hb : checkBlock rs covered b with
  | error d =>
    rw [hb] at h
    cases h
  | ok i =>
    simp only [hb] at h
    obtain ⟨r,hl,hz,hplace⟩ := checkBlock_eq_ok hb
    cases hp : bs.head?.elim (.ok ()) (checkPair rs i b) with
    | error d =>
      simp only [hp] at h
      cases h
    | ok u =>
      simp only [hp] at h
      refine ⟨i,r,hl,hz,hplace,fun c hc => ?_,h⟩
      rw [hc] at hp
      exact checkPair_eq_ok ho hl hp

/-! ## The whole walk -/

/-- Blocks that fill every region from its start without a gap, as far as they go. -/
def Packed (rs : List Region) (bs : List Block) : Prop :=
  ∀ r ∈ rs, Tile r.start (r.start + totalSize (blocksIn r bs)) (blocksIn r bs)

theorem packed_nil (rs : List Region) : Packed rs [] := fun _ _ => rfl

theorem packed_snoc {rs : List Region} (ho : rs.Pairwise Region.Before) {bs : List Block}
    (hp : Packed rs bs) {b : Block} {i : Nat} {r : Region}
    (hl : locate? b.address rs = some (i,r))
    (hb : b.address - r.start = totalSize (blocksIn r bs)) : Packed rs (bs ++ [b]) := by
  obtain ⟨hi,hrb⟩ := locate?_spec hl
  intro s hs
  rw [blocksIn_append, blocksIn_cons]
  by_cases hsb : s.contains b.address = true
  · obtain rfl := region_unique ho hs (List.mem_of_getElem? hi) hsb hrb
    rw [if_pos hsb, totalSize_append, tile_append]
    refine ⟨_,hp s hs,?_,?_⟩
    · rw [Region.contains_iff] at hsb
      omega
    · have hnil : blocksIn s [] = [] := rfl
      rw [Region.contains_iff] at hsb
      simp only [hnil, Tile, totalSize, Block.finish]
      omega
  · rw [if_neg hsb]
    simpa [blocksIn] using hp s hs

section Walk

variable {rs : List Region} (ho : rs.Pairwise Region.Before)
include ho

theorem checkBlocks_packed {done todo : List Block} {out : List Nat} (hp : Packed rs done)
    (h : checkBlocks rs (coverage rs done) todo = .ok out) :
    out = coverage rs (done ++ todo) ∧ Packed rs (done ++ todo) := by
  induction todo generalizing done with
  | nil =>
    rw [List.append_nil]
    exact ⟨(Except.ok.inj h).symm,hp⟩
  | cons b todo ih =>
    obtain ⟨i,r,hl,-,hplace,-,hrest⟩ := checkBlocks_cons ho h
    rw [coverage_getD done (locate?_spec hl).1] at hplace
    rw [coverage_snoc ho done hl] at hrest
    have hboth := ih (packed_snoc ho hp hl hplace) hrest
    rwa [List.append_assoc] at hboth

theorem checkBlocks_each {todo : List Block} {covered out : List Nat}
    (h : checkBlocks rs covered todo = .ok out) : ∀ b ∈ todo,
      (∃ r ∈ rs, r.contains b.address = true) ∧ headerSize ≤ b.size ∧ b.size % alignment = 0 := by
  induction todo generalizing covered with
  | nil => simp
  | cons b todo ih =>
    obtain ⟨i,r,hl,hz,-,-,hrest⟩ := checkBlocks_cons ho h
    obtain ⟨hi,hrb⟩ := locate?_spec hl
    intro c hc
    rcases List.mem_cons.mp hc with rfl | hc
    · exact ⟨⟨r,List.mem_of_getElem? hi,hrb⟩,hz⟩
    · exact ih hrest c hc

theorem checkBlocks_follows {todo : List Block} {covered out : List Nat}
    (h : checkBlocks rs covered todo = .ok out) : todo.IsChain (Follows rs) := by
  induction todo generalizing covered with
  | nil => exact .nil
  | cons b todo ih =>
    obtain ⟨i,r,-,-,-,hnext,hrest⟩ := checkBlocks_cons ho h
    exact List.isChain_cons.mpr ⟨hnext,ih hrest⟩

end Walk

theorem checkCover_eq_ok {rs : List Region} {f : Region → Nat}
    (h : checkCover rs (rs.map f) = .ok ()) : ∀ r ∈ rs, r.size = f r := by
  induction rs with
  | nil => simp
  | cons r rs ih =>
    rw [List.map_cons, checkCover] at h
    by_cases hr : r.size = f r
    · rw [if_pos hr] at h
      intro s hs
      rcases List.mem_cons.mp hs with rfl | hs
      · exact hr
      · exact ih h s hs
    · rw [if_neg hr] at h
      cases h

theorem findDefect_eq_ok {rs : List Region} (ho : rs.Pairwise Region.Before) {bs : List Block}
    (h : findDefect rs bs = .ok ()) : Coherent rs bs := by
  rw [findDefect, ← coverage_nil] at h
  cases hw : checkBlocks rs (coverage rs []) bs with
  | error d =>
    rw [hw] at h
    cases h
  | ok out =>
    simp only [hw] at h
    obtain ⟨rfl,hp⟩ := checkBlocks_packed ho (packed_nil rs) hw
    have hsize := checkCover_eq_ok h
    have heach := checkBlocks_each ho hw
    have hchain := checkBlocks_follows ho hw
    refine ⟨fun b hb => (heach b hb).1,fun b hb => (heach b hb).2,?_,fun r hr => ?_,?_⟩
    · exact (hchain.imp fun b c hbc => hbc.1).pairwise
    · have ht := hp r hr
      rw [List.nil_append] at ht hsize
      rwa [← hsize r hr] at ht
    · exact hchain.imp fun b c hbc => hbc.2

theorem check_eq_ok_iff {σ : Type} {h : Heap σ} (ho : h.regions.Pairwise Region.Before) :
    h.check = .ok () ↔ Coherent h.regions h.blocks := by
  constructor
  · intro hc
    rw [check] at hc
    cases hd : findDefect h.regions h.blocks with
    | error d =>
      rw [hd] at hc
      cases hc
    | ok u => exact findDefect_eq_ok ho hd
  · exact check_ok_of_coherent ho

/-! ## Chains of headers -/

/-- The blocks met from a link on until a header has no next. -/
inductive Links.Chain (l : Links) : Option Nat → List Block → Prop
  | finish : Chain l none []
  | link {a : Nat} {bs : List Block} (h : Chain l (l.get a).next bs) :
      Chain l (some a) (⟨a,(l.get a).size,(l.get a).free⟩ :: bs)

namespace Links.Chain

variable {l : Links}

theorem walk_eq {x : Option Nat} {bs : List Block} (h : l.Chain x bs) {n : Nat}
    (hn : bs.length ≤ n) : walk l.get n x = bs := by
  induction h generalizing n with
  | finish => cases n <;> rfl
  | link _ ih =>
    cases n with
    | zero => simp at hn
    | succ n => rw [walk, ih (Nat.le_of_succ_le_succ hn)]

theorem length_unique {x : Option Nat} {bs cs : List Block} (h : l.Chain x bs)
    (h' : l.Chain x cs) : bs.length = cs.length := by
  induction h generalizing cs with
  | finish =>
    cases h'
    rfl
  | link _ ih =>
    cases h' with
    | link h' => simp [ih h']

theorem from_block {x : Option Nat} {bs : List Block} (h : l.Chain x bs) {b : Block} (hb : b ∈ bs) :
    ∃ cs, l.Chain (some b.address) cs ∧ cs.length ≤ bs.length := by
  induction h with
  | finish => simp at hb
  | @link a bs h ih =>
    rcases List.mem_cons.mp hb with rfl | hb
    · exact ⟨_,.link h,Nat.le_refl _⟩
    · obtain ⟨cs,hcs,hle⟩ := ih hb
      exact ⟨cs,hcs,Nat.le_succ_of_le hle⟩

theorem nodup {x : Option Nat} {bs : List Block} (h : l.Chain x bs) :
    (bs.map Block.address).Nodup := by
  induction h with
  | finish => simp
  | @link a bs h ih =>
    refine List.nodup_cons.mpr ⟨fun hmem => ?_,ih⟩
    obtain ⟨b,hb,rfl⟩ := List.mem_map.mp hmem
    obtain ⟨cs,hcs,hle⟩ := h.from_block hb
    have hlen := (Chain.link h).length_unique hcs
    simp only [List.length_cons] at hlen
    omega

theorem headers_of_dropLast {x : Option Nat} {bs : List Block} (h : l.Chain x bs) :
    bs.dropLast.map Block.address ⊆ l.headers.map Prod.fst := by
  induction h with
  | finish => simp
  | @link a bs h ih =>
    cases bs with
    | nil => simp
    | cons b bs =>
      rw [List.dropLast_cons_cons, List.map_cons]
      refine List.cons_subset.mpr ⟨?_,ih⟩
      by_contra hn
      have hnone : l.headers.lookup a = none := by
        rw [List.lookup_eq_none_iff]
        intro p hp
        rw [bne_iff_ne]
        rintro rfl
        exact hn (List.mem_map_of_mem hp)
      rw [get, hnone] at h
      cases h

theorem blocks_eq {bs : List Block} (h : l.Chain l.first bs) : l.blocks = bs := by
  apply h.walk_eq
  have hle := (List.subperm_of_subset (h.nodup.sublist (bs.dropLast_sublist.map _))
    h.headers_of_dropLast).length_le
  simp only [List.length_map, List.length_dropLast] at hle
  omega

end Links.Chain

/-- The check passes exactly the coherent blocks. A chain of headers passes, whatever
is in them, exactly if the blocks met from the first to the last are coherent. -/
theorem check_passes_exactly_coherent {σ : Type} (h : Heap σ)
    (ho : h.regions.Pairwise Region.Before) :
    (h.check = .ok () ↔ Coherent h.regions h.blocks) ∧
    ∀ (l : Links) (bs : List Block), l.Chain l.first bs →
      ({ h with blocks := l.blocks }.check = .ok () ↔ Coherent h.regions bs) := by
  refine ⟨check_eq_ok_iff ho,fun l bs hl => ?_⟩
  rw [hl.blocks_eq]
  exact check_eq_ok_iff (h := { h with blocks := bs }) ho

theorem free_blocks_meet_between_regions :
    (⟨(),{},[⟨4096,64⟩,⟨4160,48⟩],[⟨4096,32,false⟩,⟨4128,32,true⟩,⟨4160,48,true⟩],.blank,{},[]⟩ :
      Heap Unit).check = .ok () ∧
    Coherent [⟨4096,64⟩,⟨4160,48⟩] [⟨4096,32,false⟩,⟨4128,32,true⟩,⟨4160,48,true⟩] ∧
    ((Links.ofBlocks [⟨4096,32,false⟩,⟨4128,32,true⟩,⟨4160,48,true⟩]).damage 4096 (.free true)).Chain
      (some 4096) [⟨4096,32,true⟩,⟨4128,32,true⟩,⟨4160,48,true⟩] ∧
    ¬Coherent [⟨4096,64⟩,⟨4160,48⟩] [⟨4096,32,true⟩,⟨4128,32,true⟩,⟨4160,48,true⟩] := by
  have ho : [(⟨4096,64⟩ : Region),⟨4160,48⟩].Pairwise Region.Before := by
    simp [Region.Before, Region.finish]
  have hpass : (⟨(),{},[⟨4096,64⟩,⟨4160,48⟩],[⟨4096,32,false⟩,⟨4128,32,true⟩,⟨4160,48,true⟩],
      .blank,{},[]⟩ : Heap Unit).check = .ok () := rfl
  have hchain : ((Links.ofBlocks [⟨4096,32,false⟩,⟨4128,32,true⟩,⟨4160,48,true⟩]).damage 4096
      (.free true)).Chain (some 4096) [⟨4096,32,true⟩,⟨4128,32,true⟩,⟨4160,48,true⟩] :=
    .link (.link (.link .finish))
  obtain ⟨hwhole,hdamaged⟩ := check_passes_exactly_coherent (⟨(),{},[⟨4096,64⟩,⟨4160,48⟩],
    [⟨4096,32,false⟩,⟨4128,32,true⟩,⟨4160,48,true⟩],.blank,{},[]⟩ : Heap Unit) ho
  refine ⟨hpass,hwhole.mp hpass,hchain,fun hc => ?_⟩
  cases (hdamaged _ _ hchain).mpr hc

end Freestanding.Heap
