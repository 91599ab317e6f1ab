import Freestanding.Proofs.Heap.Failure
import Freestanding.Proofs.Heap.FreeOrder

/-!
# The accounts of a heap

A heap counts what it does, its store counts what it hands out, and both can be
counted again from the regions and blocks. Over every run on a metered store
these counts agree. Requests that fail are accounted for by what they may
change. For requests that are met it is said what one allocation and one free
do to the counts, and every operation is made of these.
-/

set_option autoImplicit false

namespace Freestanding.Heap

/-! ## Bytes -/

theorem regionBytes_perm {rs ss : List Region} (h : rs.Perm ss) :
    regionBytes rs = regionBytes ss := by
  induction h with
  | nil => rfl
  | cons r _ ih => rw [regionBytes, regionBytes, ih]
  | swap r s _ =>
    simp only [regionBytes]
    omega
  | trans _ _ ih ih' => exact ih.trans ih'

theorem regionBytes_insertRegion (r : Region) (rs : List Region) :
    regionBytes (insertRegion r rs) = r.size + regionBytes rs := by
  rw [regionBytes_perm (insertRegion_perm r rs), regionBytes]

theorem length_insertRegion (r : Region) (rs : List Region) :
    (insertRegion r rs).length = rs.length + 1 := by
  rw [(insertRegion_perm r rs).length_eq, List.length_cons]

theorem laid_totalSize {rs : List Region} {bs : List Block} (h : Laid rs bs) :
    totalSize bs = regionBytes rs := by
  induction rs generalizing bs with
  | nil =>
    rw [h]
    rfl
  | cons r rs ih =>
    obtain ⟨own,rest,rfl,ht,hl⟩ := h
    have hown := tile_totalSize ht
    rw [totalSize_append, ih hl, regionBytes]
    simp only [Region.finish] at hown
    omega

theorem totalSize_used_free (bs : List Block) :
    totalSize (used bs) + totalSize (bs.filter (·.free)) = totalSize bs := by
  induction bs with
  | nil => rfl
  | cons b bs ih =>
    rw [used_cons]
    cases hb : b.free with
    | true =>
      rw [List.filter_cons_of_pos (by simpa using hb)]
      simp only [if_true, totalSize]
      omega
    | false =>
      rw [List.filter_cons_of_neg (by simp [hb])]
      simp only [Bool.false_eq_true, if_false, totalSize]
      omega

/-! ## What one allocation and one free count -/

section Steps

variable {σ : Type}

theorem freeAt_store {h h' : Heap σ} {p : Nat} (hf : h.freeAt p = (.ok (), h')) :
    h'.store = h.store := by
  unfold freeAt at hf
  split at hf
  · cases hf
  · split_ifs at hf
    · cases hf
    · cases hf
      rfl

variable [Store σ]

structure Issued (h h' : Heap σ) : Prop where
  counters : h'.counters = { h.counters with
    allocations := h.counters.allocations + 1
    growths := h'.counters.growths }
  drawn : (h'.regions = h.regions ∧ h'.store = h.store ∧
      h'.counters.growths = h.counters.growths) ∨
    ∃ bytes r, Store.acquire bytes h.store = (.ok r, h'.store) ∧
      h'.regions = insertRegion r h.regions ∧
      h'.counters.growths = h.counters.growths + 1

theorem grow_ok {h h' : Heap σ} {size total address : Nat}
    (hg : h.grow size total = (.ok address, h')) :
    h'.counters = { h.counters with growths := h.counters.growths + 1 } ∧
      ∃ bytes r, Store.acquire bytes h.store = (.ok r, h'.store) ∧
        h'.regions = insertRegion r h.regions := by
  unfold grow at hg
  split at hg
  · cases hg
  · rename_i bytes _
    split at hg
    · cases hg
    · rename_i r store ha
      cases hg
      exact ⟨rfl,bytes,r,ha,rfl⟩

theorem allocate_issued {h h' : Heap σ} {size p : Nat} (ha : h.allocate size = (.ok p, h')) :
    Issued h h' := by
  unfold allocate at ha
  split_ifs at ha
  · cases ha
  · split at ha
    · cases ha
    · split at ha
      · cases ha
        exact ⟨rfl,Or.inl ⟨rfl,rfl,rfl⟩⟩
      · split at ha
        · cases ha
        · rename_i address h₁ hg
          obtain ⟨hc,bytes,r,hacq,hr⟩ := grow_ok hg
          cases ha
          refine ⟨?_,Or.inr ⟨bytes,r,hacq,hr,?_⟩⟩
          · simp only [Heap.note, hc]
          · simp only [Heap.note, hc]

theorem allocate_ok {h h' : Heap σ} (hs : Sound h) {size p : Nat}
    (ha : h.allocate size = (.ok p, h')) : ∃ b, Change h [] [b] h' := by
  rcases allocate_change hs size with ⟨b,h₁,hb,-,hc⟩ | ⟨e,h₁,he,-⟩
  · rw [ha] at hb
    cases hb
    exact ⟨b,hc⟩
  · rw [ha] at he
    cases he

theorem freeAt_ok {h h' : Heap σ} (hs : Sound h) {p : Nat} (hf : h.freeAt p = (.ok (), h')) :
    ∃ b, Change h [b] [] h' := by
  rcases freeAt_cases hs p with ⟨b,hb,rfl⟩ | ⟨e,he⟩
  · obtain ⟨h₁,hf₁,hc⟩ := freeAt_change hs hb
    rw [hf] at hf₁
    cases hf₁
    exact ⟨b,hc⟩
  · rw [hf] at he
    cases he

theorem Change.used_length {h h' : Heap σ} {gone fresh : List Block}
    (hc : Change h gone fresh h') :
    gone.length + (used h'.blocks).length = fresh.length + (used h.blocks).length := by
  have hl := hc.used_perm.length_eq
  rwa [List.length_append, List.length_append] at hl

end Steps

/-! ## Operations that are met -/

variable {π : Type}

/-- The accounts of a heap over a metered store with the given limit, when
`failed` requests have run out of memory. -/
structure Accounted (limit : Option Nat) (h : Heap (Metered π)) (failed : Nat) : Prop where
  growths : h.counters.growths = h.regions.length
  acquired : regionBytes h.regions = h.store.acquired
  limited : h.store.limit = limit
  within : ∀ n, limit = some n → h.store.acquired ≤ n
  issued : h.counters.allocations = h.counters.frees + (used h.blocks).length
  in_place : h.counters.resizedInPlace ≤ h.counters.resizes
  failures : h.counters.failures = failed

theorem empty_accounted (config : Config) (platform : π) (limit : Option Nat) :
    Accounted limit (Heap.empty config ({ platform, limit } : Metered π)) 0 :=
  ⟨rfl,rfl,rfl,fun _ _ => Nat.zero_le _,rfl,Nat.le_refl _,rfl⟩

namespace Accounted

variable {limit : Option Nat} {h h' : Heap (Metered π)} {failed : Nat}

theorem store (ha : Accounted limit h failed) (m : Memory) (es : List Event) :
    Accounted limit { h with memory := m, journal := es } failed :=
  ⟨ha.growths,ha.acquired,ha.limited,ha.within,ha.issued,ha.in_place,ha.failures⟩

theorem countResize (ha : Accounted limit h failed) : Accounted limit h.countResize failed :=
  ⟨ha.growths,ha.acquired,ha.limited,ha.within,ha.issued,Nat.le_succ_of_le ha.in_place,ha.failures⟩

theorem writeAt (ha : Accounted limit h failed) {p place : Nat} {s : Bytes} {done : Bool}
    (hp : h.writeAt p place s = (.ok done, h')) : Accounted limit h' failed := by
  unfold Heap.writeAt at hp
  split at hp
  · cases hp
  · split_ifs at hp
    · cases hp
      exact ha.store _ _
    · cases hp
      exact ha

variable [Platform π]

theorem issue (ha : Accounted limit h failed) (hs : Sound h) (hi : Issued h h') {b : Block}
    (hc : Change h [] [b] h') : Accounted limit h' failed := by
  have hlen : 0 + (used h'.blocks).length = 1 + (used h.blocks).length := hc.used_length
  have hcount := hi.counters
  have hissued : h'.counters.allocations = h'.counters.frees + (used h'.blocks).length := by
    have := ha.issued
    rw [hcount]
    simp only
    omega
  have hplace : h'.counters.resizedInPlace ≤ h'.counters.resizes := by
    rw [hcount]
    exact ha.in_place
  have hfail : h'.counters.failures = failed := by
    rw [hcount]
    exact ha.failures
  rcases hi.drawn with ⟨hr,hst,hg⟩ | ⟨bytes,r,hacq,hr,hg⟩
  · refine ⟨?_,?_,?_,?_,hissued,hplace,hfail⟩
    · rw [hg, hr, ha.growths]
    · rw [hr, hst, ha.acquired]
    · rw [hst, ha.limited]
    · rw [hst]
      exact ha.within
  · have hgrant := Metered.acquire_ok hacq
    have hsize := (hs.lawful.granted hacq).1.size_eq
    refine ⟨?_,?_,?_,?_,hissued,hplace,hfail⟩
    · rw [hg, hr, length_insertRegion, ha.growths]
    · rw [hr, regionBytes_insertRegion, ha.acquired, hgrant.acquired, hsize, Nat.add_comm]
    · rw [hgrant.limit, ha.limited]
    · intro n hn
      rw [hgrant.acquired]
      exact hgrant.within n (ha.limited.trans hn)

theorem allocate (ha : Accounted limit h failed) (hs : Sound h) {size p : Nat}
    (hp : h.allocate size = (.ok p, h')) : Accounted limit h' failed ∧ Sound h' := by
  obtain ⟨b,hc⟩ := allocate_ok hs hp
  exact ⟨ha.issue hs (allocate_issued hp) hc,hc.sound⟩

theorem free (ha : Accounted limit h failed) (hs : Sound h) {p : Nat}
    (hf : h.freeAt p = (.ok (), h')) : Accounted limit h' failed := by
  obtain ⟨b,hc⟩ := freeAt_ok hs hf
  have hlen : 1 + (used h'.blocks).length = 0 + (used h.blocks).length := hc.used_length
  have hfreed := freeAt_freed hf
  have hst := freeAt_store hf
  refine ⟨?_,?_,?_,?_,?_,?_,?_⟩
  · rw [hfreed.counters, hfreed.regions]
    exact ha.growths
  · rw [hfreed.regions, hst, ha.acquired]
  · rw [hst, ha.limited]
  · rw [hst]
    exact ha.within
  · have := ha.issued
    rw [hfreed.counters]
    simp only
    omega
  · rw [hfreed.counters]
    exact ha.in_place
  · rw [hfreed.counters]
    exact ha.failures

theorem allocateZeroed (ha : Accounted limit h failed) (hs : Sound h) {count size p : Nat}
    (hp : h.allocateZeroed count size = (.ok p, h')) : Accounted limit h' failed := by
  unfold Heap.allocateZeroed at hp
  split at hp
  · cases hp
  · split at hp
    · cases hp
    · rename_i q h₁ hq
      cases hp
      exact (ha.allocate hs hq).1.store _ _

theorem duplicateUpTo (ha : Accounted limit h failed) (hs : Sound h) {s : Bytes} {n p : Nat}
    (hp : h.duplicateUpTo s n = (.ok p, h')) : Accounted limit h' failed := by
  simp only [Heap.duplicateUpTo] at hp
  split at hp
  · cases hp
  · rename_i q h₁ hq
    split at hp
    · cases hp
    · cases hp
      exact (ha.allocate hs hq).1.store _ _

theorem relocate (ha : Accounted limit h failed) (hs : Sound h) {p kept size : Nat}
    {a : Option Nat} (hp : h.relocate p kept size = (.ok a, h')) : Accounted limit h' failed := by
  unfold Heap.relocate at hp
  split at hp
  · cases hp
  · rename_i q h₁ hq
    obtain ⟨ha₁,hs₁⟩ := ha.allocate hs hq
    split at hp
    · cases hp
    · rename_i h₂ hf
      cases hp
      have hs₂ : Sound { h₁ with memory := h₁.memory.copy q p (min kept size) } :=
        ⟨hs₁.arranged,hs₁.lawful,hs₁.increment_aligned,hs₁.increment_pos⟩
      exact ((ha₁.store _ _).free hs₂ hf).store _ _

theorem resizeAt (ha : Accounted limit h failed) (hs : Sound h) {p size : Nat} {a : Option Nat}
    (hp : h.resizeAt p size = (.ok a, h')) : Accounted limit h' failed := by
  unfold Heap.resizeAt at hp
  split at hp
  · cases hp
  · split_ifs at hp
    · cases hp
      exact ⟨ha.growths,ha.acquired,ha.limited,ha.within,ha.issued,
        Nat.succ_le_succ ha.in_place,ha.failures⟩
    · exact ha.countResize.relocate hs.countResize hp

theorem resize (ha : Accounted limit h failed) (hs : Sound h) {address : Option Nat} {size : Nat}
    {a : Option Nat} (hp : h.resize address size = (.ok a, h')) : Accounted limit h' failed := by
  cases address with
  | none =>
    simp only [Heap.resize] at hp
    split at hp
    · cases hp
    · rename_i q h₁ hq
      cases hp
      exact (ha.allocate hs hq).1
  | some q =>
    by_cases hz : size = 0
    · simp only [Heap.resize, if_pos hz] at hp
      split at hp
      · cases hp
      · rename_i h₁ hf
        cases hp
        exact ha.free hs hf
    · simp only [Heap.resize, if_neg hz] at hp
      exact ha.resizeAt hs hp

end Accounted

variable [Platform π]

theorem answered_met {σ α : Type} {f : α → Option Nat} {o : Outcome σ α} {a : Option Nat}
    {h' : Heap σ} (ho : answered f o = (.ok a, h')) : ∃ x, o = (.ok x, h') := by
  obtain ⟨b,h⟩ := o
  cases b with
  | ok x =>
    cases ho
    exact ⟨x,rfl⟩
  | error e => cases ho

theorem Accounted.met {limit : Option Nat} {h h' : Heap (Metered π)} {failed : Nat}
    (ha : Accounted limit h failed) (hs : Sound h) {r : Request} {a : Option Nat}
    (hp : h.perform r = (.ok a, h')) : Accounted limit h' failed := by
  cases r with
  | allocate size =>
    obtain ⟨p,hp⟩ := answered_met hp
    exact (ha.allocate hs hp).1
  | allocateZeroed count size =>
    obtain ⟨p,hp⟩ := answered_met hp
    exact ha.allocateZeroed hs hp
  | resize address size => exact ha.resize hs hp
  | free address =>
    obtain ⟨u,hp⟩ := answered_met hp
    cases address with
    | none =>
      cases hp
      exact ha
    | some p => exact ha.free hs hp
  | duplicate s =>
    obtain ⟨p,hp⟩ := answered_met hp
    exact ha.duplicateUpTo hs hp
  | duplicateUpTo s n =>
    obtain ⟨p,hp⟩ := answered_met hp
    exact ha.duplicateUpTo hs hp
  | write p place s =>
    obtain ⟨done,hp⟩ := answered_met hp
    exact ha.writeAt hp

/-! ## Operations that fail -/

def HeapError.isOutOfMemory : HeapError → Bool
  | .outOfMemory _ => true
  | _ => false

def Answer.isOutOfMemory : Answer → Bool
  | .ok _ => false
  | .error e => e.isOutOfMemory

theorem Counters.fail_failures (c : Counters) (r : Request) (e : HeapError) :
    (c.fail r e).failures = c.failures + if e.isOutOfMemory then 1 else 0 := by
  cases e with
  | outOfMemory s =>
    simp only [Counters.fail]
    split <;> rfl
  | _ => rfl

theorem Counters.fail_rest (c : Counters) (r : Request) (e : HeapError) :
    ∃ resizes, c.resizes ≤ resizes ∧
      c.fail r e = { c with resizes := resizes, failures := (c.fail r e).failures } := by
  cases e with
  | outOfMemory s =>
    simp only [Counters.fail]
    split
    · exact ⟨c.resizes + 1,Nat.le_succ _,rfl⟩
    · exact ⟨c.resizes,Nat.le_refl _,rfl⟩
  | _ => exact ⟨c.resizes,Nat.le_refl _,rfl⟩

theorem Refused.metered {s s' : Metered π} (h : Refused s s') :
    s'.acquired = s.acquired ∧ s'.limit = s.limit := by
  rcases h with rfl | ⟨bytes,cause,ha⟩
  · exact ⟨rfl,rfl⟩
  · have hw := Metered.acquire_error ha
    exact ⟨hw.acquired,hw.limit⟩

theorem Accounted.failed {limit : Option Nat} {h h' : Heap (Metered π)} {n : Nat}
    (ha : Accounted limit h n) {r : Request} {e : HeapError} (hf : Failed h r e h') :
    Accounted limit h' (n + if e.isOutOfMemory then 1 else 0) := by
  obtain ⟨hacq,hlim⟩ := hf.store.metered
  obtain ⟨resizes,hle,hrest⟩ := h.counters.fail_rest r e
  refine ⟨?_,?_,?_,?_,?_,?_,?_⟩
  · rw [hf.counters, hrest, hf.regions]
    exact ha.growths
  · rw [hf.regions, hacq, ha.acquired]
  · rw [hlim, ha.limited]
  · rw [hacq]
    exact ha.within
  · rw [hf.counters, hrest, hf.blocks]
    exact ha.issued
  · rw [hf.counters, hrest]
    exact Nat.le_trans ha.in_place hle
  · rw [hf.counters, Counters.fail_failures, ha.failures]

/-! ## Runs -/

theorem Accounted.step {limit : Option Nat} {h : Heap (Metered π)} {n : Nat}
    (ha : Accounted limit h n) (hs : Sound h) (r : Request) :
    Accounted limit (h.perform r).2 (n + if (h.perform r).1.isOutOfMemory then 1 else 0) := by
  cases hp : h.perform r with
  | mk answer h' =>
    cases answer with
    | ok a => exact ha.met hs hp
    | error e => exact ha.failed (perform_failed hs hp)

def shortages (h : Heap (Metered π)) (rs : List Request) : Nat :=
  (h.answers rs).countP fun e => e.2.isOutOfMemory

theorem Accounted.run {limit : Option Nat} {h : Heap (Metered π)} {n : Nat}
    (ha : Accounted limit h n) (hs : Sound h) (rs : List Request) :
    Accounted limit (h.after rs) (n + h.shortages rs) := by
  induction rs generalizing h n with
  | nil => exact ha
  | cons r rs ih =>
    have hstep := ih (ha.step hs r) (perform_step hs r).sound
    have hcount : h.shortages (r :: rs) = (h.perform r).2.shortages rs +
        if (h.perform r).1.isOutOfMemory then 1 else 0 := List.countP_cons
    rw [hcount, Nat.add_comm (Heap.shortages _ rs), ← Nat.add_assoc]
    exact hstep

/-- The statistics of a heap agree with each other and with its store, whose
total stays within the limit, and `failed` requests have run out of memory. -/
structure Balanced (limit : Option Nat) (h : Heap (Metered π)) (failed : Nat) : Prop where
  bytes : h.stats.usedBytes + h.stats.freeBytes = h.stats.backingBytes
  backing : h.stats.backingBytes = regionBytes h.regions
  acquired : h.stats.backingBytes = Store.acquired h.store
  limited : Store.limit h.store = limit
  within : ∀ n, limit = some n → Store.acquired h.store ≤ n
  growths : h.stats.counters.growths = h.stats.regions
  frees_le : h.stats.counters.frees ≤ h.stats.counters.allocations
  free_le : h.stats.freeBlocks ≤ h.stats.blocks
  used : h.stats.blocks - h.stats.freeBlocks =
    h.stats.counters.allocations - h.stats.counters.frees
  in_place : h.stats.counters.resizedInPlace ≤ h.stats.counters.resizes
  failures : h.stats.counters.failures = failed

theorem Accounted.balanced {limit : Option Nat} {h : Heap (Metered π)} {n : Nat}
    (ha : Accounted limit h n) (hs : Sound h) : Balanced limit h n := by
  have hbytes := totalSize_used_free h.blocks
  rw [laid_totalSize hs.arranged.laid] at hbytes
  have hblocks : h.blocks.length = (h.blocks.filter (·.free)).length + (used h.blocks).length :=
    List.length_eq_length_filter_add _
  have hissued := ha.issued
  constructor
  case bytes => exact hbytes
  case backing => rfl
  case acquired => exact ha.acquired
  case limited => exact ha.limited
  case within => exact ha.within
  case growths => exact ha.growths
  case frees_le =>
    simp only [stats]
    omega
  case free_le =>
    simp only [stats]
    omega
  case used =>
    simp only [stats]
    omega
  case in_place => exact ha.in_place
  case failures => exact ha.failures

/-- Over every run on a metered store, whatever the platform below it does, the
accounts balance. -/
theorem run_keeps_accounts (config : Config) (platform : π) (limit : Option Nat)
    (hl : Lawful [] ({ platform, limit } : Metered π)) (requests : List Request) :
    let h := Heap.empty config ({ platform, limit } : Metered π)
    Balanced limit (h.after requests) (h.shortages requests) := by
  intro h
  have hs : Sound h := empty_sound config hl
  have ha := (empty_accounted config platform limit).run hs requests
  rw [Nat.zero_add] at ha
  exact ha.balanced (after_sound hs requests)

theorem limited_run_keeps_accounts :
    ∃ requests : List Request, Lawful [] (Arena.bounded .alternating (some 128)) ∧
      ((Heap.empty { increment := 64 } (Arena.bounded .alternating (some 128))).after
        requests).counters =
          { allocations := 3, frees := 1, resizes := 2, resizedInPlace := 1, growths := 2,
            merges := 0, failures := 1 } ∧
      Balanced (some 128)
        ((Heap.empty { increment := 64 } (Arena.bounded .alternating (some 128))).after requests)
        ((Heap.empty { increment := 64 } (Arena.bounded .alternating (some 128))).shortages
          requests) := by
  have hl := Arena.bounded_lawful .alternating (some 128)
  refine ⟨[.allocate 40, .resize (some 35184380477464) 20,
      .duplicate [104, 105], .resize (some 35184380477464) 300, .free (some 35184380477464),
      .allocateZeroed 5 1, .free (some 1)],hl,?_,?_⟩
  · rfl
  · exact run_keeps_accounts { increment := 64 } (Span.bounded .alternating) (some 128) hl _

end Freestanding.Heap
