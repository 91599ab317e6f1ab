import Freestanding.Proofs.Heap.Check
import Freestanding.Proofs.Heap.Request

/-!
# Runs

A run starts from a heap with no regions and carries out requests one after
the other, whatever they answer. Every heap on the way is well formed, for
every configuration and over every lawful store, and so passes the check.
-/

set_option autoImplicit false

namespace Freestanding.Heap

variable {σ : Type}

/-- Regions in order of address, and blocks in order of address that tile each
region from its start to its end. No block reaches out of its region, sizes
are multiples of the alignment and large enough to be split off, and of two
blocks next to each other in one region at most one is free. -/
structure WellFormed (h : Heap σ) : Prop where
  regions_increase : h.regions.Pairwise fun r s => r.start < s.start
  blocks_increase : h.blocks.Pairwise fun b c => b.address < c.address
  tiled : ∀ r ∈ h.regions,
    Tile r.start r.finish (h.blocks.filter fun b => r.contains b.address)
  held : ∀ b ∈ h.blocks, ∃ r ∈ h.regions, r.start ≤ b.address ∧ b.finish ≤ r.finish
  sized : ∀ b ∈ h.blocks, b.size % 8 = 0 ∧ 32 ≤ b.size
  separated : h.blocks.IsChain fun b c => ∀ r ∈ h.regions,
    r.contains b.address = true → r.contains c.address = true → ¬(b.free = true ∧ c.free = true)

theorem Arranged.well_formed {h : Heap σ} (ha : Arranged h.regions h.blocks) : WellFormed h where
  regions_increase := by
    refine ha.ordered.imp_of_mem fun {r s} hr _ hrs => ?_
    have := ha.nonempty r hr
    simp only [Region.Before, Region.finish] at hrs
    omega
  blocks_increase := ha.address_lt
  tiled := ha.coherent.tiled
  held := fun b hb => laid_within ha.laid hb
  sized := ha.sized
  separated := ha.coherent.separated

variable [Store σ]

def after (h : Heap σ) : List Request → Heap σ
  | [] => h
  | r :: rs => after (h.perform r).2 rs

theorem Step.sound {h h' : Heap σ} {r : Request} {a : Answer} (hs : Step h r a h') : Sound h' := by
  cases hs with
  | refused hc => exact hc.sound
  | met _ he => exact he.sound
  | written _ hc => exact hc.sound

theorem after_sound {h : Heap σ} (hs : Sound h) (rs : List Request) : Sound (h.after rs) := by
  induction rs generalizing h with
  | nil => exact hs
  | cons r rs ih => exact ih (perform_step hs r).sound

theorem Step.stays {h h' : Heap σ} {r : Request} {a : Answer} (hs : Step h r a h') :
    (Threaded h → Threaded h') ∧ h'.config = h.config := by
  cases hs with
  | refused hc => exact ⟨hc.threaded,hc.config⟩
  | met _ he => exact ⟨he.threaded,he.config⟩
  | written _ hc => exact ⟨hc.threaded,hc.config⟩

theorem after_stays {h : Heap σ} (hs : Sound h) (rs : List Request) :
    (Threaded h → Threaded (h.after rs)) ∧ (h.after rs).config = h.config := by
  induction rs generalizing h with
  | nil => exact ⟨id,rfl⟩
  | cons r rs ih =>
    have hr := perform_step hs r
    obtain ⟨hthread,hconfig⟩ := ih hr.sound
    exact ⟨fun ht => hthread (hr.stays.1 ht),hconfig.trans hr.stays.2⟩

section Start

variable (config : Config) {store : σ} (hl : Lawful [] store) (requests : List Request)

include hl

theorem after_threaded : Threaded ((Heap.empty config store).after requests) :=
  (after_stays (empty_sound config hl) requests).1 ⟨by simp [Heap.empty],trivial⟩

theorem after_config : ((Heap.empty config store).after requests).config = config.normalise :=
  (after_stays (empty_sound config hl) requests).2

end Start

/-- Whatever is asked of a heap, in whatever order, over any lawful store and
with any configuration, it stays well formed and passes its own check. -/
theorem run_stays_well_formed (config : Config) (store : σ) (hl : Lawful [] store)
    (requests : List Request) :
    WellFormed ((Heap.empty config store).after requests) ∧
      ((Heap.empty config store).after requests).check = .ok () := by
  have ha := (after_sound (empty_sound config hl) requests).arranged
  exact ⟨ha.well_formed,check_ok_of_coherent ha.ordered ha.coherent⟩

theorem alternating_run_stays_well_formed :
    Lawful [] (Arena.bounded .alternating (some 65536)) ∧
    WellFormed ((Heap.empty { increment := 0, fill := some 170 }
      (Arena.bounded .alternating (some 65536))).after
        [.allocate 100, .duplicate [104, 105], .allocate 1, .free (some 35184380477464),
          .resize (some 35184380477464) 8, .allocateZeroed 3 5, .free none]) ∧
    ((Heap.empty { increment := 0, fill := some 170 }
      (Arena.bounded .alternating (some 65536))).after
        [.allocate 100, .duplicate [104, 105], .allocate 1, .free (some 35184380477464),
          .resize (some 35184380477464) 8, .allocateZeroed 3 5, .free none]).check = .ok () :=
  ⟨Arena.bounded_lawful _ _,run_stays_well_formed _ _ (Arena.bounded_lawful _ _) _⟩

end Freestanding.Heap
