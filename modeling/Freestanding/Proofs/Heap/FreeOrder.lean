import Freestanding.Proofs.Heap.Canonical
import Freestanding.Proofs.Heap.Ledger

/-!
# The order of frees

Freeing allocations one after the other takes their blocks out of use, joins
what is free and counts every join. Each join makes the list of blocks one
shorter, so the joins of a run are the blocks that it lost. The blocks in use
that remain do not depend on the order, and they determine all the rest.
-/

set_option autoImplicit false

namespace Freestanding.Heap

variable {σ : Type}

/-! ## Counting joins -/

theorem mergeFrom_length (takes : Block → Block → Bool) (b : Block) (cs : List Block) :
    (mergeFrom takes b cs).1.length + (mergeFrom takes b cs).2 = cs.length + 1 := by
  induction cs generalizing b with
  | nil => rfl
  | cons c cs ih =>
    cases ht : takes b c with
    | true =>
      have := ih ⟨b.address,b.size + c.size,true⟩
      simp only [mergeFrom, ht, if_true, List.length_cons]
      omega
    | false =>
      have := ih c
      simp only [mergeFrom, ht, Bool.false_eq_true, if_false, List.length_cons]
      omega

theorem merge_length (takes : Block → Block → Bool) (bs : List Block) :
    (merge takes bs).1.length + (merge takes bs).2 = bs.length := by
  cases bs with
  | nil => rfl
  | cons b bs => exact mergeFrom_length takes b bs

theorem releaseAt_length (a : Nat) (bs : List Block) : (releaseAt a bs).length = bs.length := by
  induction bs with
  | nil => rfl
  | cons b bs ih =>
    unfold releaseAt
    split
    · rfl
    · simp [ih]

/-- What `n` frees leave and what they count. -/
structure Freed (h : Heap σ) (n : Nat) (h' : Heap σ) : Prop where
  regions : h'.regions = h.regions
  length_le : h'.blocks.length ≤ h.blocks.length
  counters : h'.counters = { h.counters with
    frees := h.counters.frees + n
    merges := h.counters.merges + (h.blocks.length - h'.blocks.length) }

theorem Freed.refl (h : Heap σ) : Freed h 0 h :=
  ⟨rfl,Nat.le_refl _,by simp⟩

theorem Freed.trans {h h' h'' : Heap σ} {n m : Nat} (hf : Freed h n h') (hg : Freed h' m h'') :
    Freed h (n + m) h'' where
  regions := hg.regions.trans hf.regions
  length_le := Nat.le_trans hg.length_le hf.length_le
  counters := by
    have h1 := hf.length_le
    have h2 := hg.length_le
    rw [hg.counters, hf.counters]
    simp only [Counters.mk.injEq, true_and, and_true]
    omega

theorem freeAt_freed {h h' : Heap σ} {p : Nat} (hf : h.freeAt p = (.ok (), h')) :
    Freed h 1 h' := by
  unfold freeAt at hf
  split at hf
  · cases hf
  · rename_i b _
    have hlen := merge_length (takesIn h.regions) (releaseAt b.address h.blocks)
    rw [releaseAt_length] at hlen
    dsimp only at hf
    generalize merge (takesIn h.regions) (releaseAt b.address h.blocks) = joined at hf hlen
    split_ifs at hf
    · cases hf
    · cases hf
      refine ⟨rfl,?_,?_⟩
      · simp only [Heap.note]
        omega
      · simp only [Heap.note, Counters.mk.injEq, true_and, and_true]
        omega

theorem stats_whole {h : Heap σ} (hb : h.blocks = h.regions.map Region.whole) :
    h.stats.usedBytes = 0 ∧ h.stats.freeBlocks = h.stats.blocks ∧
      h.stats.blocks = h.stats.regions := by
  have hfree : h.blocks.filter (·.free) = h.blocks := by
    apply List.filter_eq_self.mpr
    intro b hm
    rw [hb] at hm
    obtain ⟨r,-,rfl⟩ := List.mem_map.mp hm
    rfl
  have hused : h.blocks.filter (!·.free) = [] := by
    apply List.filter_eq_nil_iff.mpr
    intro b hm
    simpa using List.of_mem_filter (hfree ▸ hm)
  refine ⟨?_,?_,?_⟩
  · simp only [stats, hused]
    rfl
  · simp only [stats, hfree]
  · simp [stats, hb]

/-! ## Frees one after the other -/

def frees (ps : List Nat) : List Request := ps.map fun p => .free (some p)

variable [Store σ]

theorem freeAt_used {h : Heap σ} (hs : Sound h) {p : Nat} (hp : h.Live p) :
    ∃ h', h.freeAt p = (.ok (), h') ∧ Sound h' ∧
      used h'.blocks = (used h.blocks).filter (·.payload ≠ p) := by
  obtain ⟨b,hb,rfl⟩ := (live_iff hs.arranged p).mp hp
  obtain ⟨h',hf,hc⟩ := freeAt_change hs hb
  refine ⟨h',hf,hc.sound,?_⟩
  have hperm : (b :: used h'.blocks).Perm (used h.blocks) := hc.used_perm
  have hnd : (b :: used h'.blocks).Nodup := hperm.nodup_iff.mpr (used_nodup hs)
  have hkeep : (used h'.blocks).filter (·.payload ≠ b.payload) = used h'.blocks := by
    apply List.filter_eq_self.mpr
    intro c hc'
    have hcu : c ∈ used h.blocks := hperm.mem_iff.mp (List.mem_cons_of_mem b hc')
    have hne : c ≠ b := fun he => (List.nodup_cons.mp hnd).1 (he ▸ hc')
    have haddr : c.payload ≠ b.payload := fun he => hne
      (hs.arranged.eq_of_address (mem_used.mp hcu).1 (mem_used.mp hb).1 (Nat.add_right_cancel he))
    simpa using haddr
  have hfilter := hperm.filter (·.payload ≠ b.payload)
  rw [List.filter_cons_of_neg (by simp), hkeep] at hfilter
  apply hfilter.eq_of_pairwise _ hc.sound.arranged.used_address_lt
    (hs.arranged.used_address_lt.filter _)
  intro c d _ _ hcd hdc
  exact absurd hcd (Nat.lt_asymm hdc)

theorem perform_free {h h' : Heap σ} {p : Nat} (hf : h.freeAt p = (.ok (), h')) :
    h.perform (.free (some p)) = (.ok none, h') := by
  rw [perform, free, answered_ok hf]

theorem frees_run {h : Heap σ} (hs : Sound h) {ps : List Nat} (hn : ps.Nodup)
    (hl : ∀ p ∈ ps, h.Live p) :
    (∀ e ∈ h.answers (frees ps), e.2 = .ok none) ∧
      used (h.after (frees ps)).blocks = (used h.blocks).filter (·.payload ∉ ps) ∧
      Freed h ps.length (h.after (frees ps)) := by
  induction ps generalizing h with
  | nil => exact ⟨by simp [frees, answers],by simp [frees, after],Freed.refl h⟩
  | cons p ps ih =>
    obtain ⟨hp,hn⟩ := List.nodup_cons.mp hn
    obtain ⟨h',hf,hs',hu⟩ := freeAt_used hs (hl p (by simp))
    have hl' : ∀ q ∈ ps, h'.Live q := by
      intro q hq
      obtain ⟨b,hb,hbq⟩ := (live_iff hs.arranged q).mp (hl q (by simp [hq]))
      have hne : b.payload ≠ p := fun he => hp (he ▸ hbq ▸ hq)
      refine (live_iff hs'.arranged q).mpr ⟨b,?_,hbq⟩
      rw [hu]
      exact List.mem_filter.mpr ⟨hb,by simpa using hne⟩
    obtain ⟨ha,hu',hfr⟩ := ih hs' hn hl'
    have hstep := perform_free hf
    refine ⟨?_,?_,?_⟩
    · intro e he
      simp only [frees, List.map_cons, answers, hstep, List.mem_cons] at he
      rcases he with rfl | he
      · rfl
      · exact ha e he
    · simp only [frees, List.map_cons, after, hstep]
      rw [← frees, hu', hu, List.filter_filter]
      apply List.filter_congr
      intro b _
      simp [Bool.and_comm]
    · simp only [frees, List.map_cons, after, hstep, List.length_cons, Nat.add_comm ps.length]
      exact (freeAt_freed hf).trans hfr

theorem frees_same {h : Heap σ} (hs : Sound h) {ps qs : List Nat} (hn : ps.Nodup)
    (hl : ∀ p ∈ ps, h.Live p) (hp : qs.Perm ps) :
    (h.after (frees qs)).blocks = (h.after (frees ps)).blocks ∧
      (h.after (frees qs)).regions = (h.after (frees ps)).regions ∧
      (h.after (frees qs)).counters = (h.after (frees ps)).counters := by
  obtain ⟨-,hup,hfp⟩ := frees_run hs hn hl
  obtain ⟨-,huq,hfq⟩ := frees_run hs (hp.nodup_iff.mpr hn) fun q hq => hl q (hp.mem_iff.mp hq)
  have hused : used (h.after (frees qs)).blocks = used (h.after (frees ps)).blocks := by
    rw [hup, huq]
    apply List.filter_congr
    intro b _
    simp [hp.mem_iff]
  have hregions := hfq.regions.trans hfp.regions.symm
  have hblocks : (h.after (frees qs)).blocks = (h.after (frees ps)).blocks := by
    have haq := (after_sound hs (frees qs)).arranged
    rw [hregions] at haq
    exact haq.unique (after_sound hs (frees ps)).arranged hused
  exact ⟨hblocks,hregions,by rw [hfq.counters, hfp.counters, hblocks, hp.length_eq]⟩

theorem frees_all {h : Heap σ} (hs : Sound h) {ps : List Nat} (hn : ps.Nodup)
    (hl : ∀ p ∈ ps, h.Live p) (hall : ∀ p, h.Live p → p ∈ ps) :
    (h.after (frees ps)).blocks = h.regions.map Region.whole := by
  obtain ⟨-,hu,hf⟩ := frees_run hs hn hl
  have hnone : used (h.after (frees ps)).blocks = [] := by
    rw [hu]
    apply List.filter_eq_nil_iff.mpr
    intro b hb
    simpa using hall _ ((live_iff hs.arranged _).mpr ⟨b,hb,rfl⟩)
  rw [(after_sound hs (frees ps)).arranged.whole hnone, hf.regions]

/-- From every heap that a run can reach, allocations can be freed in any order.
Every free is answered, and two orders end with the same blocks, regions and
statistics. If no allocation is left out, each region ends as one free block. -/
theorem frees_in_any_order (config : Config) (store : σ) (hl : Lawful [] store)
    (requests : List Request) (ps qs : List Nat) (hn : ps.Nodup)
    (hlive : ∀ p ∈ ps, ((Heap.empty config store).after requests).Live p) (hp : qs.Perm ps) :
    let h := (Heap.empty config store).after requests
    (∀ e ∈ h.answers (frees qs), e.2 = .ok none) ∧
      (h.after (frees qs)).blocks = (h.after (frees ps)).blocks ∧
      (h.after (frees qs)).regions = (h.after (frees ps)).regions ∧
      (h.after (frees qs)).stats = (h.after (frees ps)).stats ∧
      ((∀ p, h.Live p → p ∈ ps) →
        (h.after (frees qs)).blocks = (h.after (frees qs)).regions.map Region.whole ∧
        (h.after (frees qs)).stats.usedBytes = 0 ∧
        (h.after (frees qs)).stats.freeBlocks = (h.after (frees qs)).stats.blocks ∧
        (h.after (frees qs)).stats.blocks = (h.after (frees qs)).stats.regions) := by
  intro h
  have hs : Sound h := after_sound (empty_sound config hl) requests
  have hnq : qs.Nodup := hp.nodup_iff.mpr hn
  have hlq : ∀ q ∈ qs, h.Live q := fun q hq => hlive q (hp.mem_iff.mp hq)
  obtain ⟨hanswers,-,hfreed⟩ := frees_run hs hnq hlq
  obtain ⟨hblocks,hregions,hcounters⟩ := frees_same hs hn hlive hp
  refine ⟨hanswers,hblocks,hregions,by simp only [stats, hblocks, hregions, hcounters],?_⟩
  intro hall
  have hwhole := frees_all hs hnq hlq fun p hlp => hp.mem_iff.mpr (hall p hlp)
  rw [← hfreed.regions] at hwhole
  exact ⟨hwhole,stats_whole hwhole⟩

theorem three_frees_in_any_order :
    ∃ store : Arena, ∃ requests : List Request, ∃ ps qs : List Nat,
      let h := (Heap.empty { increment := 64 } store).after requests
      Lawful [] store ∧ ps.Nodup ∧ (∀ p ∈ ps, h.Live p) ∧ qs.Perm ps ∧ ps ≠ qs ∧
        ps.length = 3 ∧ h.regions.length = 2 ∧
        (∀ e ∈ h.answers (frees qs), e.2 = .ok none) ∧
        (h.after (frees qs)).blocks = (h.after (frees ps)).blocks ∧
        (h.after (frees qs)).stats = (h.after (frees ps)).stats := by
  refine ⟨Arena.bounded .ascending none,[.allocate 40, .allocate 8, .allocate 1],
    [35184372088856, 35184372088920, 35184372088952],
    [35184372088920, 35184372088952, 35184372088856],?_⟩
  have hl := Arena.bounded_lawful .ascending none
  have hn : [35184372088856, 35184372088920, 35184372088952].Nodup := by decide
  have hp : [35184372088920, 35184372088952, 35184372088856].Perm
      [35184372088856, 35184372088920, 35184372088952] := by decide
  have hlive : ∀ p ∈ [35184372088856, 35184372088920, 35184372088952],
      ((Heap.empty { increment := 64 } (Arena.bounded .ascending none)).after
        [.allocate 40, .allocate 8, .allocate 1]).Live p := by
    intro p hp
    simp only [List.mem_cons, List.not_mem_nil, or_false] at hp
    rcases hp with rfl | rfl | rfl
    · exact ⟨40,rfl⟩
    · exact ⟨8,rfl⟩
    · exact ⟨8,rfl⟩
  have hany := frees_in_any_order { increment := 64 } (Arena.bounded .ascending none) hl
    [.allocate 40, .allocate 8, .allocate 1] _ _ hn hlive hp
  exact ⟨hl,hn,hlive,hp,by decide,rfl,rfl,hany.1,hany.2.1,hany.2.2.2.1⟩

end Freestanding.Heap
