import Freestanding.Proofs.Heap.Allocation
import Freestanding.Proofs.Heap.FreeOrder

/-!
# Allocating and freeing again

Freeing what has just been allocated leads back to the blocks the allocation
took its block from: those of the heap before, or, where the heap has grown,
those with the new region as one free block among them. The same request is
then placed where it was placed before.
-/

set_option autoImplicit false

namespace Freestanding.Heap

theorem Taken.used_perm {total : Nat} {b : Block} {bs bs' : List Block}
    (ht : Taken total b bs bs') (hf : b.free = true) :
    ∃ held, (used bs').Perm (⟨b.address,held,false⟩ :: used bs) := by
  obtain ⟨pre,post,held,tail,rfl,rfl,-,-,htail⟩ := ht
  have hnone : used tail = [] := by
    rcases htail with ⟨rfl,-⟩ | ⟨left,-,-,-,rfl⟩ <;> rfl
  refine ⟨held,?_⟩
  rw [used_append, used_append, used_cons_used rfl, used_append, hnone, used_cons_free hf]
  exact List.perm_middle

theorem firstFit?_insertBlock {total : Nat} {b : Block} {bs : List Block}
    (hno : firstFit? total bs = none) (hb : b.Fits total) :
    firstFit? total (insertBlock b bs) = some b := by
  obtain ⟨pre,post,rfl,hin⟩ := insertBlock_eq b bs
  have hpre : ∀ c ∈ pre, ¬c.Fits total := fun c hc => firstFit?_none.mp hno c (by simp [hc])
  rw [hin, firstFit?, List.find?_append, ← firstFit?, firstFit?_none.mpr hpre]
  simp [hb.1, hb.2]

variable {σ : Type} [Store σ]

theorem freeAt_taken {h : Heap σ} (hs : Sound h) {total : Nat} {b : Block} {bs : List Block}
    (ht : Taken total b bs h.blocks) (hf : b.free = true) (ha : Arranged h.regions bs) :
    ∃ h', h.freeAt b.payload = (.ok (), h') ∧ Sound h' ∧ h'.regions = h.regions ∧
      h'.blocks = bs := by
  obtain ⟨held,hperm⟩ := ht.used_perm hf
  have hmem : ⟨b.address,held,false⟩ ∈ used h.blocks := hperm.mem_iff.mpr (by simp)
  obtain ⟨h',hfree,hc⟩ := freeAt_change hs hmem
  have hregions := (freeAt_freed hfree).regions
  have harr := hc.sound.arranged
  have hused : used h'.blocks = used bs := by
    have hp : (used h'.blocks).Perm (used bs) :=
      (List.perm_cons _).mp (hc.used_perm.trans hperm)
    apply hp.eq_of_pairwise _ harr.used_address_lt ha.used_address_lt
    intro c d _ _ hcd hdc
    exact absurd hcd (Nat.lt_asymm hdc)
  rw [hregions] at harr
  exact ⟨h',hfree,hc.sound,hregions,harr.unique ha hused⟩

/-- What is left of an allocation that was freed at once: nothing, or the region
it grew the heap by. -/
def Undone (h h' h'' : Heap σ) : Prop :=
  (h'.counters.growths = h.counters.growths ∧ h''.regions = h.regions ∧ h''.blocks = h.blocks) ∨
  ∃ r, h'.counters.growths = h.counters.growths + 1 ∧ h''.regions = insertRegion r h.regions ∧
    Inserted r.whole h.blocks h''.blocks

section

variable {h h' : Heap σ} {size p : Nat}

theorem fitted_undone (hs : Sound h) (hr : ∀ r ∈ h.regions, r.size < wordLimit) (hn : 0 < size)
    {b : Block} (hfit : firstFit? (needed size) h.blocks = some b)
    (ha : h.allocate size = (.ok p, h')) :
    ∃ h'', h'.freeAt p = (.ok (), h'') ∧ Undone h h' h'' ∧ (h''.allocate size).1 = .ok p := by
  obtain ⟨h₁,hb,-,hregions,hgrowths,ht⟩ := allocate_fitted hs hr hn hfit
  have hs' : Sound (h.allocate size).2 := (perform_step hs (.allocate size)).sound
  rw [ha] at hb hs'
  cases hb
  obtain ⟨h'',hf,hs'',hr'',hblocks⟩ :=
    freeAt_taken hs' ht (firstFit?_spec hfit).2.1 (hregions ▸ hs.arranged)
  rw [hregions] at hr''
  refine ⟨h'',hf,Or.inl ⟨hgrowths,hr'',hblocks⟩,?_⟩
  rw [← hblocks] at hfit
  rw [← hr''] at hr
  obtain ⟨h₃,ha₃,-⟩ := allocate_fitted hs'' hr hn hfit
  rw [ha₃]

theorem grown_undone (hs : Sound h) (hr : ∀ r ∈ h.regions, r.size < wordLimit) (hn : 0 < size)
    (hfit : firstFit? (needed size) h.blocks = none) {bytes : Nat}
    (hg : growth? h.config.increment (needed size) = some bytes) {r : Region} {store : σ}
    (hacq : Store.acquire bytes h.store = (.ok r, store)) (ha : h.allocate size = (.ok p, h')) :
    ∃ h'', h'.freeAt p = (.ok (), h'') ∧ Undone h h' h'' ∧ (h''.allocate size).1 = .ok p := by
  obtain ⟨rfl,hle,harr⟩ := hs.granted (needed_spec size hn).2 hg hacq
  obtain ⟨h₁,hb,-,hregions,hgrowths,ht⟩ := allocate_grown hs hn hfit hg hacq
  have hs' : Sound (h.allocate size).2 := (perform_step hs (.allocate size)).sound
  rw [ha] at hb hs'
  cases hb
  obtain ⟨h'',hf,hs'',hr'',hblocks⟩ := freeAt_taken hs' ht rfl (hregions ▸ harr)
  rw [hregions] at hr''
  refine ⟨h'',hf,Or.inr ⟨r,hgrowths,hr'',?_⟩,?_⟩
  · rw [hblocks]
    exact inserted_of_ordered harr.address_lt
  · have hfits : r.whole.Fits (needed size) := ⟨rfl,hle⟩
    have hfit'' := firstFit?_insertBlock hfit hfits
    rw [← hblocks] at hfit''
    have hsmall : ∀ s ∈ h''.regions, s.size < wordLimit := by
      intro s hm
      rw [hr''] at hm
      rcases mem_insertRegion.mp hm with rfl | hm
      · exact growth?_lt hg
      · exact hr s hm
    obtain ⟨h₃,ha₃,-⟩ := allocate_fitted hs'' hsmall hn hfit''
    rw [ha₃]

end

/-- In every heap that a run can reach, freeing an allocation that was just made
undoes it, and making it again gives the same address. -/
theorem free_undoes_allocate (config : Config) (store : σ) (hl : Lawful [] store)
    (requests : List Request) (size : Nat) (hn : 0 < size) (p : Nat) (h' : Heap σ)
    (ha : ((Heap.empty config store).after requests).allocate size = (.ok p, h')) :
    ∃ h'', h'.free (some p) = (.ok (), h'') ∧
      Undone ((Heap.empty config store).after requests) h' h'' ∧
      (h''.allocate size).1 = .ok p := by
  have hs := after_sound (empty_sound config hl) requests
  have hr := (after_threaded config hl requests).sizes
  generalize (Heap.empty config store).after requests = h at ha hs hr
  cases hfit : firstFit? (needed size) h.blocks with
  | some b => exact fitted_undone hs hr hn hfit ha
  | none =>
    cases hg : growth? h.config.increment (needed size) with
    | none =>
      obtain ⟨h₁,he,-⟩ := allocate_overflowed hn hfit hg
      rw [ha] at he
      cases he
    | some bytes =>
      rcases hacq : Store.acquire bytes h.store with ⟨cause | r,store'⟩
      · obtain ⟨h₁,he,-⟩ := allocate_refused hn hfit hg hacq
        rw [ha] at he
        cases he
      · exact grown_undone hs hr hn hfit hg hacq ha

theorem growing_allocation_is_undone :
    Lawful [] (Arena.bounded .descending none) ∧
    let h := (Heap.empty { increment := 64 } (Arena.bounded .descending none)).after [.allocate 40]
    ∃ h' h'', h.allocate 100 = (.ok 35184388865880, h') ∧
      h'.counters.growths = h.counters.growths + 1 ∧
      h'.free (some 35184388865880) = (.ok (), h'') ∧ Undone h h' h'' ∧
      (h''.allocate 100).1 = .ok 35184388865880 := by
  have hl := Arena.bounded_lawful .descending none
  have ha : ((Heap.empty { increment := 64 } (Arena.bounded .descending none)).after
      [.allocate 40]).allocate 100 = (.ok 35184388865880, _) := rfl
  obtain ⟨h'',hundone⟩ := free_undoes_allocate _ _ hl _ 100 (by decide) _ _ ha
  exact ⟨hl,_,h'',ha,rfl,hundone⟩

end Freestanding.Heap
