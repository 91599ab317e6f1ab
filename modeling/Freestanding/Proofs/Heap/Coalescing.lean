import Freestanding.Proofs.Heap.FreeOrder

/-!
# One pass of joining

A pass looks at each block once, with what it has taken in so far. Since a grown
block ends where the last block taken in ended, it joins the next exactly if that
last block would have joined it. So a pass works on each run of joining blocks by
itself and leaves one block of it, and a second pass finds nothing to do. For
blocks in order of address, each inside one of some regions that do not overlap,
the runs are those of free blocks that follow each other without a gap in one
region, whether or not a heap could have got there.
-/

set_option autoImplicit false

namespace Freestanding.Heap

variable {rs : List Region}

/-! ## Runs that join -/

def Joining (rs : List Region) (run : List Block) : Prop :=
  run.IsChain fun b c => joins rs b c = true

def Severed (rs : List Region) (bs cs : List Block) : Prop :=
  ∀ b ∈ bs.getLast?, ∀ c ∈ cs.head?, joins rs b c = false

theorem joining_cons {b c : Block} {bs : List Block} :
    Joining rs (b :: c :: bs) ↔ joins rs b c = true ∧ Joining rs (c :: bs) :=
  List.isChain_cons_cons

theorem finish_grown {b c : Block} (h : joins rs b c = true) :
    (⟨b.address,b.size + c.size,true⟩ : Block).finish = c.finish := by
  obtain ⟨-,-,hfinish,-⟩ := joins_iff.mp h
  simp only [Block.finish] at *
  omega

theorem joins_grown {b c : Block} (h : joins rs b c = true) (d : Block) :
    joins rs ⟨b.address,b.size + c.size,true⟩ d = joins rs c d :=
  joins_congr rs (finish_grown h) (joins_iff.mp h).2.1.symm rfl rfl

theorem Severed.grown {b c : Block} {cs ds : List Block} (h : Severed rs (b :: c :: cs) ds)
    (hj : joins rs b c = true) : Severed rs (⟨b.address,b.size + c.size,true⟩ :: cs) ds := by
  intro x hx d hd
  cases cs with
  | nil =>
    obtain rfl := Option.mem_some_iff.mp hx
    exact (joins_grown hj d).trans (h c rfl d hd)
  | cons e cs => exact h x (by simpa using hx) d hd

theorem coalesceFrom_append {b : Block} {cs ds : List Block} (h : Severed rs (b :: cs) ds) :
    (coalesceFrom rs b (cs ++ ds)).1 = (coalesceFrom rs b cs).1 ++ (coalesce rs ds).1 := by
  induction cs generalizing b with
  | nil =>
    cases ds with
    | nil => rfl
    | cons d ds => exact congrArg Prod.fst (coalesceFrom_of_severed (h b rfl d rfl) ds)
  | cons c cs ih =>
    cases hj : joins rs b c with
    | true => rw [List.cons_append, coalesceFrom_of_joins hj, coalesceFrom_of_joins hj, ih (h.grown hj)]
    | false =>
      have hc : Severed rs (c :: cs) ds := fun x hx => h x (by simpa using hx)
      rw [List.cons_append, coalesceFrom_of_severed hj, coalesceFrom_of_severed hj, ih hc,
        List.cons_append]

theorem coalesce_append {bs cs : List Block} (h : Severed rs bs cs) :
    (coalesce rs (bs ++ cs)).1 = (coalesce rs bs).1 ++ (coalesce rs cs).1 := by
  cases bs with
  | nil => rfl
  | cons b bs => exact coalesceFrom_append h

theorem coalesceFrom_joining {b : Block} {bs : List Block} (h : Joining rs (b :: bs)) :
    (coalesceFrom rs b bs).1 = [⟨b.address,totalSize (b :: bs),b.free⟩] := by
  induction bs generalizing b with
  | nil => rfl
  | cons c bs ih =>
    obtain ⟨hj,hrest⟩ := joining_cons.mp h
    have hgrown : Joining rs (⟨b.address,b.size + c.size,true⟩ :: bs) := by
      refine List.isChain_cons.mpr ⟨fun d hd => ?_,hrest.tail⟩
      rw [joins_grown hj]
      exact (List.isChain_cons.mp hrest).1 d hd
    rw [coalesceFrom_of_joins hj, ih hgrown, (joins_iff.mp hj).1]
    simp only [totalSize, Nat.add_assoc]

theorem coalesce_run {front run back : List Block} {b : Block} (hrun : Joining rs (b :: run))
    (hfront : Severed rs front (b :: run)) (hback : Severed rs (b :: run) back) :
    (coalesce rs (front ++ (b :: run ++ back))).1 =
      (coalesce rs front).1 ++ ⟨b.address,totalSize (b :: run),b.free⟩ :: (coalesce rs back).1 := by
  rw [coalesce_append (by simpa [Severed] using hfront), coalesce_append hback]
  exact congrArg _ (congrArg (· ++ _) (coalesceFrom_joining hrun))

theorem coalesceFrom_of_separated {b : Block} {bs : List Block} (h : Separated rs (b :: bs)) :
    coalesceFrom rs b bs = (b :: bs,0) := by
  induction bs generalizing b with
  | nil => rfl
  | cons c bs ih =>
    obtain ⟨hj,hrest⟩ := List.isChain_cons_cons.mp h
    rw [coalesceFrom_of_severed hj, ih hrest]

theorem coalesce_of_separated {bs : List Block} (h : Separated rs bs) :
    coalesce rs bs = (bs,0) := by
  cases bs with
  | nil => rfl
  | cons b bs => exact coalesceFrom_of_separated h

theorem separated_coalesce (rs : List Region) (bs : List Block) :
    Separated rs (coalesce rs bs).1 := by
  cases bs with
  | nil => exact .nil
  | cons b bs => exact coalesceFrom_separated rs b bs

theorem exists_first_run (rs : List Region) (b : Block) (bs : List Block) : ∃ run rest,
    bs = run ++ rest ∧ Joining rs (b :: run) ∧ Severed rs (b :: run) rest := by
  induction bs generalizing b with
  | nil => exact ⟨[],[],rfl,List.isChain_singleton b,fun _ _ _ hc => by simp at hc⟩
  | cons c bs ih =>
    cases hj : joins rs b c with
    | true =>
      obtain ⟨run,rest,rfl,hrun,hrest⟩ := ih c
      refine ⟨c :: run,rest,rfl,joining_cons.mpr ⟨hj,hrun⟩,fun x hx => hrest x ?_⟩
      simpa using hx
    | false =>
      refine ⟨[],c :: bs,rfl,List.isChain_singleton b,fun x hx d hd => ?_⟩
      obtain rfl := Option.mem_some_iff.mp hx
      obtain rfl := Option.mem_some_iff.mp hd
      exact hj

theorem mem_coalesce {bs : List Block} {d : Block} (hd : d ∈ (coalesce rs bs).1) :
    ∃ front b run back, bs = front ++ (b :: run ++ back) ∧ Joining rs (b :: run) ∧
      Severed rs front (b :: run) ∧ Severed rs (b :: run) back ∧
      d = ⟨b.address,totalSize (b :: run),b.free⟩ := by
  induction hk : bs.length using Nat.strongRecOn generalizing bs with
  | ind k ih =>
    cases bs with
    | nil => simp [coalesce, merge] at hd
    | cons b bs =>
      obtain ⟨run,rest,rfl,hrun,hrest⟩ := exists_first_run rs b bs
      have hout := coalesceFrom_append hrest
      rw [coalesceFrom_joining hrun] at hout
      rcases List.mem_cons.mp (hout ▸ hd) with rfl | hd
      · exact ⟨[],b,run,rest,rfl,hrun,fun _ hx => by simp at hx,hrest,rfl⟩
      · have hshort : rest.length < k := by
          rw [← hk]
          simp only [List.length_cons, List.length_append]
          omega
        obtain ⟨front,c,next,back,rfl,hnext,hfront,hback,rfl⟩ := ih rest.length hshort hd rfl
        refine ⟨b :: run ++ front,c,next,back,by simp,hnext,fun x hx => ?_,hback,rfl⟩
        -- What stands before the run is the end of `front`, or of the first run if it is empty.
        cases front with
        | nil => exact hrest x (by simpa using hx)
        | cons e front =>
          rw [List.getLast?_append_of_ne_nil _ (List.cons_ne_nil e front)] at hx
          exact hfront x hx

/-! ## Runs of free blocks -/

/-- Two regions of which one ends before the other starts. Regions of some size that are
`Apart` are so; an empty one inside another is not, though no address is in both. -/
def Region.Beside (r s : Region) : Prop := r.Before s ∨ s.Before r

instance : Std.Symm Region.Beside := ⟨fun _ _ => Or.symm⟩

def Block.Inside (b : Block) (r : Region) : Prop :=
  r.contains b.address = true ∧ b.finish ≤ r.finish

/-- Blocks in order of address that do not overlap, each inside one of some regions
that do not overlap. -/
structure Chained (rs : List Region) (bs : List Block) : Prop where
  beside : rs.Pairwise Region.Beside
  increasing : bs.Pairwise fun b c => b.address < c.address ∧ b.Before c
  inside : ∀ b ∈ bs, ∃ r ∈ rs, b.Inside r

/-- Free blocks that follow each other without a gap in one region. -/
structure FreeRun (rs : List Region) (run : List Block) : Prop where
  nonempty : run ≠ []
  free : ∀ b ∈ run, b.free = true
  contiguous : run.IsChain fun b c => b.finish = c.address
  together : ∃ r ∈ rs, ∀ b ∈ run, b.Inside r

/-- A run of free blocks that the block in front and the block behind do not extend. -/
structure MaximalRun (rs : List Region) (front run back : List Block) : Prop
    extends FreeRun rs run where
  front : ∀ b ∈ front.getLast?, ¬FreeRun rs (b :: run)
  back : ∀ c ∈ back.head?, ¬FreeRun rs (run ++ [c])

theorem Chained.sublist {bs cs : List Block} (h : Chained rs bs) (hs : cs.Sublist bs) :
    Chained rs cs :=
  ⟨h.beside,h.increasing.sublist hs,fun b hb => h.inside b (hs.subset hb)⟩

theorem Chained.region_eq {bs : List Block} (h : Chained rs bs) {r s : Region} (hr : r ∈ rs)
    (hs : s ∈ rs) {a : Nat} (hra : r.contains a = true) (hsa : s.contains a = true) : r = s := by
  by_contra hne
  have hbeside := h.beside.forall hr hs hne
  simp only [Region.contains_iff, Region.Beside, Region.Before] at *
  omega

theorem Chained.joins_iff {b c : Block} {bs : List Block} (h : Chained rs (b :: c :: bs)) :
    joins rs b c = true ↔ b.free = true ∧ c.free = true ∧ b.finish = c.address ∧
      ∃ r ∈ rs, b.Inside r ∧ c.Inside r := by
  have hlt := ((List.pairwise_cons.mp h.increasing).1 c (by simp)).1
  rw [Heap.joins_iff]
  refine and_congr_right fun _ => and_congr_right fun _ => and_congr_right fun hfinish => ?_
  constructor
  · intro hstart
    obtain ⟨r,hr,hb⟩ := h.inside b (by simp)
    obtain ⟨s,hs,hc⟩ := h.inside c (by simp)
    have hne := hstart s hs
    by_cases hrs : r = s
    · exact ⟨r,hr,hb,hrs ▸ hc⟩
    · have hbeside := h.beside.forall hr hs hrs
      simp only [Block.Inside, Region.contains_iff, Region.Beside, Region.Before, Block.finish] at *
      omega
  · rintro ⟨r,hr,hb,hc⟩ s hs hstart
    by_cases hrs : r = s
    · obtain rfl := hrs
      simp only [Block.Inside, Region.contains_iff] at *
      omega
    · have hbeside := h.beside.forall hr hs hrs
      simp only [Block.Inside, Region.contains_iff, Region.Beside, Region.Before, Region.finish] at *
      omega

theorem freeRun_singleton {b : Block} (h : Chained rs [b]) : FreeRun rs [b] ↔ b.free = true := by
  constructor
  · intro hrun
    exact hrun.free b (by simp)
  · intro hb
    obtain ⟨r,hr,hi⟩ := h.inside b (by simp)
    exact ⟨by simp,by simpa using hb,List.isChain_singleton b,r,hr,by simpa using hi⟩

theorem freeRun_cons {b c : Block} {bs : List Block} (h : Chained rs (b :: c :: bs)) :
    FreeRun rs (b :: c :: bs) ↔ joins rs b c = true ∧ FreeRun rs (c :: bs) := by
  rw [h.joins_iff]
  constructor
  · intro hrun
    obtain ⟨r,hr,hi⟩ := hrun.together
    obtain ⟨hfinish,hrest⟩ := List.isChain_cons_cons.mp hrun.contiguous
    refine ⟨⟨hrun.free b (by simp),hrun.free c (by simp),hfinish,r,hr,hi b (by simp),
      hi c (by simp)⟩,by simp,fun d hd => hrun.free d (by simp [hd]),hrest,r,hr,
      fun d hd => hi d (by simp [hd])⟩
  · rintro ⟨⟨hb,-,hfinish,r,hr,hbr,hcr⟩,hrun⟩
    obtain ⟨s,hs,hi⟩ := hrun.together
    obtain rfl := h.region_eq hr hs hcr.1 (hi c (by simp)).1
    refine ⟨by simp,?_,List.isChain_cons_cons.mpr ⟨hfinish,hrun.contiguous⟩,r,hr,?_⟩
    · intro d hd
      rcases List.mem_cons.mp hd with rfl | hd
      · exact hb
      · exact hrun.free d hd
    · intro d hd
      rcases List.mem_cons.mp hd with rfl | hd
      · exact hbr
      · exact hi d hd

theorem freeRun_iff {b : Block} {bs : List Block} (h : Chained rs (b :: bs)) :
    FreeRun rs (b :: bs) ↔ b.free = true ∧ Joining rs (b :: bs) := by
  induction bs generalizing b with
  | nil => simp [freeRun_singleton h, Joining]
  | cons c bs ih =>
    have hc : Chained rs (c :: bs) := h.sublist (List.sublist_cons_self b _)
    rw [freeRun_cons h, ih hc, joining_cons]
    constructor
    · rintro ⟨hj,-,hrest⟩
      exact ⟨(Heap.joins_iff.mp hj).1,hj,hrest⟩
    · rintro ⟨-,hj,hrest⟩
      exact ⟨hj,(Heap.joins_iff.mp hj).2.1,hrest⟩

theorem front_iff {front run : List Block} {b : Block} (h : Chained rs (front ++ b :: run))
    (hrun : FreeRun rs (b :: run)) :
    (∀ a ∈ front.getLast?, ¬FreeRun rs (a :: b :: run)) ↔ Severed rs front (b :: run) := by
  refine forall₂_congr fun a ha => ?_
  obtain ⟨before,rfl⟩ := List.getLast?_eq_some_iff.mp ha
  rw [List.append_assoc] at h
  rw [freeRun_cons (h.sublist (List.sublist_append_right _ _))]
  simp [hrun]

theorem back_iff {run back : List Block} {b : Block} (h : Chained rs (b :: run ++ back))
    (hrun : FreeRun rs (b :: run)) :
    (∀ c ∈ back.head?, ¬FreeRun rs (b :: run ++ [c])) ↔ Severed rs (b :: run) back := by
  obtain ⟨hb,hjoining⟩ := (freeRun_iff (h.sublist (List.sublist_append_left _ _))).mp hrun
  have hlast := List.getLast?_eq_some_getLast (List.cons_ne_nil b run)
  generalize (b :: run).getLast (List.cons_ne_nil b run) = last at hlast
  have hextend (c : Block) (hc : c ∈ back.head?) :
      FreeRun rs (b :: run ++ [c]) ↔ joins rs last c = true := by
    obtain ⟨after,rfl⟩ := List.head?_eq_some_iff.mp hc
    have hsub : Chained rs (b :: run ++ [c]) := h.sublist ((List.Sublist.refl _).append (by simp))
    have happend : Joining rs (b :: run ++ [c]) ↔ joins rs last c = true := by
      rw [Joining, List.isChain_append, hlast, ← Joining]
      simp [hjoining]
    rw [List.cons_append] at hsub happend ⊢
    rw [freeRun_iff hsub, happend]
    exact and_iff_right hb
  rw [Severed, hlast]
  simp only [Option.mem_some_iff, forall_eq']
  exact forall₂_congr fun c hc => by rw [hextend c hc, Bool.not_eq_true]

theorem maximalRun_iff {front run back : List Block} {b : Block}
    (h : Chained rs (front ++ (b :: run ++ back))) :
    MaximalRun rs front (b :: run) back ↔ b.free = true ∧ Joining rs (b :: run) ∧
      Severed rs front (b :: run) ∧ Severed rs (b :: run) back := by
  have hback : Chained rs (b :: run ++ back) := h.sublist (List.sublist_append_right _ _)
  have hfront : Chained rs (front ++ b :: run) := by
    rw [← List.append_assoc] at h
    exact h.sublist (List.sublist_append_left _ _)
  have hrun : Chained rs (b :: run) := hback.sublist (List.sublist_append_left _ _)
  rw [← and_assoc, ← freeRun_iff hrun]
  constructor
  · intro hm
    have hf := hm.toFreeRun
    exact ⟨hf,(front_iff hfront hf).mp hm.front,(back_iff hback hf).mp hm.back⟩
  · rintro ⟨hf,hfr,hba⟩
    exact ⟨hf,(front_iff hfront hf).mpr hfr,(back_iff hback hf).mpr hba⟩

/-! ## What a join keeps, a pass keeps -/

theorem coalesce_keeps {P : List Block → Prop}
    (hjoin : ∀ front b c back, P (front ++ b :: c :: back) → joins rs b c = true →
      P (front ++ ⟨b.address,b.size + c.size,true⟩ :: back))
    {bs : List Block} (h : P bs) : P (coalesce rs bs).1 := by
  suffices hfrom : ∀ cs front b, P (front ++ b :: cs) → P (front ++ (coalesceFrom rs b cs).1) by
    cases bs with
    | nil => exact h
    | cons b cs => exact hfrom cs [] b h
  intro cs
  induction cs with
  | nil => exact fun _ _ h => h
  | cons c cs ih =>
    intro front b h
    cases hj : joins rs b c with
    | true =>
      rw [coalesceFrom_of_joins hj]
      exact ih front _ (hjoin front b c cs h hj)
    | false =>
      rw [coalesceFrom_of_severed hj, List.append_cons]
      rw [List.append_cons] at h
      exact ih _ c h

structure SameEdges (r : Region) (bs cs : List Block) : Prop where
  first : (blocksIn r cs).head?.map Block.address = (blocksIn r bs).head?.map Block.address
  last : (blocksIn r cs).getLast?.map Block.finish = (blocksIn r bs).getLast?.map Block.finish
  bytes : totalSize (blocksIn r cs) = totalSize (blocksIn r bs)

section Join

variable {front back : List Block} {b c : Block} (h : Chained rs (front ++ b :: c :: back))
  (hj : joins rs b c = true)
include h hj

theorem Chained.together : ∃ r ∈ rs, b.Inside r ∧ c.Inside r :=
  have hbc := h.sublist (List.sublist_append_right front _)
  (hbc.joins_iff.mp hj).2.2.2

theorem Chained.join : Chained rs (front ++ ⟨b.address,b.size + c.size,true⟩ :: back) := by
  obtain ⟨r,hr,hb,hc⟩ := h.together hj
  have hend := finish_grown hj
  obtain ⟨hfront,htail,hcross⟩ := List.pairwise_append.mp h.increasing
  obtain ⟨hbs,htail⟩ := List.pairwise_cons.mp htail
  obtain ⟨hcs,hback⟩ := List.pairwise_cons.mp htail
  refine ⟨h.beside,List.pairwise_append.mpr ⟨hfront,List.pairwise_cons.mpr ⟨?_,hback⟩,?_⟩,?_⟩
  · intro d hd
    exact ⟨(hbs d (by simp [hd])).1,hend.trans_le (hcs d hd).2⟩
  · intro a ha d hd
    rcases List.mem_cons.mp hd with rfl | hd
    · exact hcross a ha b (by simp)
    · exact hcross a ha d (by simp [hd])
  · intro d hd
    simp only [List.mem_append, List.mem_cons] at hd
    rcases hd with hd | rfl | hd
    · exact h.inside d (by simp [hd])
    · exact ⟨r,hr,hb.1,hend.trans_le hc.2⟩
    · exact h.inside d (by simp [hd])

theorem Chained.join_edges {r : Region} (hr : r ∈ rs) : SameEdges r (front ++ b :: c :: back)
    (front ++ ⟨b.address,b.size + c.size,true⟩ :: back) := by
  obtain ⟨s,hs,hb,hc⟩ := h.together hj
  by_cases hrs : r = s
  · obtain rfl := hrs
    have hsplit : blocksIn r (front ++ b :: c :: back) =
        blocksIn r front ++ b :: c :: blocksIn r back := by
      rw [blocksIn_append, blocksIn_cons, if_pos hb.1, blocksIn_cons, if_pos hc.1]
    have hjoined : blocksIn r (front ++ ⟨b.address,b.size + c.size,true⟩ :: back) =
        blocksIn r front ++ ⟨b.address,b.size + c.size,true⟩ :: blocksIn r back := by
      rw [blocksIn_append, blocksIn_cons, if_pos hb.1]
    constructor <;> rw [hsplit, hjoined]
    · cases blocksIn r front <;> rfl
    · rw [List.getLast?_append_of_ne_nil _ (by simp), List.getLast?_append_of_ne_nil _ (by simp)]
      cases blocksIn r back with
      | nil => exact congrArg some (finish_grown hj)
      | cons d ds => rfl
    · simp only [totalSize_append, totalSize, Nat.add_assoc]
  · have hout : ∀ a, s.contains a = true → ¬r.contains a = true :=
      fun a hsa hra => hrs (h.region_eq hr hs hra hsa)
    have hsame : blocksIn r (front ++ ⟨b.address,b.size + c.size,true⟩ :: back) =
        blocksIn r (front ++ b :: c :: back) := by
      rw [blocksIn_append, blocksIn_append, blocksIn_cons, blocksIn_cons, blocksIn_cons,
        if_neg (hout _ hb.1), if_neg (hout _ hb.1), if_neg (hout _ hc.1)]
    constructor <;> rw [hsame]

end Join

theorem SameEdges.trans {r : Region} {bs cs ds : List Block} (h : SameEdges r bs cs)
    (h' : SameEdges r cs ds) : SameEdges r bs ds :=
  ⟨h'.first.trans h.first,h'.last.trans h.last,h'.bytes.trans h.bytes⟩

theorem Chained.coalesce {bs : List Block} (h : Chained rs bs) :
    Chained rs (Heap.coalesce rs bs).1 ∧ ∀ r ∈ rs, SameEdges r bs (Heap.coalesce rs bs).1 := by
  refine coalesce_keeps (P := fun cs => Chained rs cs ∧ ∀ r ∈ rs, SameEdges r bs cs) ?_
    ⟨h,fun r _ => ⟨rfl,rfl,rfl⟩⟩
  rintro front b c back ⟨hc,hedges⟩ hj
  exact ⟨hc.join hj,fun r hr => (hedges r hr).trans (hc.join_edges hj hr)⟩

/-- One pass is enough, whatever the blocks are that it starts from. Every run of free
blocks that cannot be extended has become one block with its start and all its bytes, and
there are no other free blocks. The blocks in use are the same, and so are the edges of the
blocks in each region. What is counted is how many blocks there are less, and another pass
changes nothing. Where the regions are in order, as a heap keeps them, this is the pass that
looks for the start of a region by halving. -/
theorem one_pass_joins_every_run {rs : List Region} {bs : List Block} (h : Chained rs bs) :
    (Ascending rs → merge (takesIn rs) bs = coalesce rs bs) ∧
    (∀ front b run back, bs = front ++ (b :: run ++ back) → MaximalRun rs front (b :: run) back →
      (coalesce rs bs).1 = (coalesce rs front).1 ++
        ⟨b.address,totalSize (b :: run),true⟩ :: (coalesce rs back).1) ∧
    (∀ d ∈ (coalesce rs bs).1, d.free = true → ∃ front b run back,
      bs = front ++ (b :: run ++ back) ∧ MaximalRun rs front (b :: run) back ∧
        d = ⟨b.address,totalSize (b :: run),true⟩) ∧
    used (coalesce rs bs).1 = used bs ∧
    Chained rs (coalesce rs bs).1 ∧ (∀ r ∈ rs, SameEdges r bs (coalesce rs bs).1) ∧
    (coalesce rs bs).1.length + (coalesce rs bs).2 = bs.length ∧
    coalesce rs (coalesce rs bs).1 = ((coalesce rs bs).1,0) := by
  refine ⟨fun ho => by rw [takesIn_eq_joins ho, coalesce],?_,?_,coalesce_used rs bs,h.coalesce.1,h.coalesce.2,merge_length (joins rs) bs,
    coalesce_of_separated (separated_coalesce rs bs)⟩
  · rintro front b run back rfl hmaximal
    obtain ⟨hb,hrun,hfront,hback⟩ := (maximalRun_iff h).mp hmaximal
    rw [coalesce_run hrun hfront hback, hb]
  · intro d hd hfree
    obtain ⟨front,b,run,back,rfl,hrun,hfront,hback,rfl⟩ := mem_coalesce hd
    have hb : b.free = true := hfree
    exact ⟨front,b,run,back,rfl,(maximalRun_iff h).mpr ⟨hb,hrun,hfront,hback⟩,by rw [hb]⟩

theorem run_ends_with_region :
    Chained [⟨4096,96⟩,⟨4192,64⟩] [⟨4096,32,true⟩,⟨4128,32,true⟩,⟨4160,32,true⟩,⟨4192,32,true⟩,
      ⟨4224,32,false⟩] ∧
    MaximalRun [⟨4096,96⟩,⟨4192,64⟩] [] [⟨4096,32,true⟩,⟨4128,32,true⟩,⟨4160,32,true⟩]
      [⟨4192,32,true⟩,⟨4224,32,false⟩] ∧
    (coalesce [⟨4096,96⟩,⟨4192,64⟩] [⟨4096,32,true⟩,⟨4128,32,true⟩,⟨4160,32,true⟩,⟨4192,32,true⟩,
      ⟨4224,32,false⟩]).1 = ⟨4096,96,true⟩ ::
        (coalesce [⟨4096,96⟩,⟨4192,64⟩] [⟨4192,32,true⟩,⟨4224,32,false⟩]).1 ∧
    coalesce [⟨4096,96⟩,⟨4192,64⟩] [⟨4096,96,true⟩,⟨4192,32,true⟩,⟨4224,32,false⟩] =
      ([⟨4096,96,true⟩,⟨4192,32,true⟩,⟨4224,32,false⟩],0) ∧
    merge (takesIn [⟨4096,96⟩,⟨4192,64⟩]) [⟨4096,32,true⟩,⟨4128,32,true⟩,⟨4160,32,true⟩,
      ⟨4192,32,true⟩,⟨4224,32,false⟩] =
      ([⟨4096,96,true⟩,⟨4192,32,true⟩,⟨4224,32,false⟩],2) := by
  have h : Chained [⟨4096,96⟩,⟨4192,64⟩] [⟨4096,32,true⟩,⟨4128,32,true⟩,⟨4160,32,true⟩,
      ⟨4192,32,true⟩,⟨4224,32,false⟩] := by
    refine ⟨?_,?_,?_⟩
    · simp [Region.Beside, Region.Before, Region.finish]
    · simp [Block.Before, Block.finish]
    · simp [Block.Inside, Region.contains_iff, Block.finish, Region.finish]
  have hmaximal : MaximalRun [⟨4096,96⟩,⟨4192,64⟩] []
      [⟨4096,32,true⟩,⟨4128,32,true⟩,⟨4160,32,true⟩] [⟨4192,32,true⟩,⟨4224,32,false⟩] := by
    refine (@maximalRun_iff _ [] _ _ _ h).mpr ⟨rfl,?_,?_,?_⟩
    · simp [Joining, joins, Block.finish]
    · simp [Severed]
    · simp [Severed, joins]
  obtain ⟨hsearch,hruns,-,-,-,-,-,hagain⟩ := one_pass_joins_every_run h
  exact ⟨h,hmaximal,hruns [] _ _ _ rfl hmaximal,hagain,hsearch (by simp [Ascending])⟩

end Freestanding.Heap
