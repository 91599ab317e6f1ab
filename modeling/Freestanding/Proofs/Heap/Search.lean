import Freestanding.Heap.Region
import Mathlib.Data.List.Basic
import Mathlib.Data.List.Pairwise
import Mathlib.Tactic.Common

/-!
# Searching ordered regions

Halving finds the place where a test starts to fail, whatever the indices it
happens to try. For regions in the order of their starts the three searches
therefore find what a walk over all regions would find.
-/

set_option autoImplicit false

namespace Freestanding.Heap

theorem bisect_eq {test : Nat → Bool} {low high k : Nat} (hl : low ≤ k) (hh : k ≤ high)
    (hpass : ∀ i < k, test i = true) (hfail : ∀ i, k ≤ i → i < high → test i = false) :
    bisect test low high = k := by
  fun_induction bisect test low high with
  | case1 low high hlt middle hm ih =>
    have hk : middle < k := by
      by_contra hge
      rw [hfail middle (Nat.le_of_not_lt hge) (by omega)] at hm
      cases hm
    exact ih hk hh hfail
  | case2 low high hlt middle hm ih =>
    have hk : k ≤ middle := by
      by_contra hge
      exact hm (hpass middle (Nat.lt_of_not_le hge))
    exact ih hl hk fun i hi hlt => hfail i hi (by omega)
  | case3 low high hlt => omega

theorem partitionPoint_append {test : Region → Bool} {front back : List Region}
    (hf : ∀ r ∈ front, test r = true) (hb : ∀ r ∈ back, test r = false) :
    partitionPoint test (front ++ back) = front.length := by
  apply bisect_eq (Nat.zero_le _)
  · rw [List.length_append]
    exact Nat.le_add_right _ _
  · intro i hi
    rw [List.getElem?_append_left hi, List.getElem?_eq_getElem hi]
    exact hf _ (List.getElem_mem hi)
  · intro i hi hlt
    rw [List.getElem?_append_right hi]
    cases hr : back[i - front.length]? with
    | none => rfl
    | some r => exact hb r (List.mem_of_getElem? hr)

def Ascending (rs : List Region) : Prop := rs.Pairwise fun r s => r.start ≤ s.start

theorem Ascending.split {rs : List Region} (h : Ascending rs) (test : Region → Bool)
    (ht : ∀ r s : Region, r.start ≤ s.start → test s = true → test r = true) :
    ∃ front back, rs = front ++ back ∧ (∀ r ∈ front, test r = true) ∧
      ∀ r ∈ back, test r = false := by
  induction rs with
  | nil => exact ⟨[],[],rfl,by simp,by simp⟩
  | cons r rs ih =>
    obtain ⟨hr,h⟩ := List.pairwise_cons.mp h
    by_cases hpass : test r = true
    · obtain ⟨front,back,rfl,hf,hb⟩ := ih h
      exact ⟨r :: front,back,rfl,by simpa [hpass] using hf,hb⟩
    · refine ⟨[],r :: rs,rfl,by simp,fun s hs => ?_⟩
      rw [← Bool.not_eq_true]
      rcases List.mem_cons.mp hs with rfl | hs
      · exact hpass
      · exact mt (ht r s (hr s hs)) hpass

theorem startsRegion_iff {rs : List Region} (h : Ascending rs) (a : Nat) :
    startsRegion a rs = true ↔ ∃ r ∈ rs, r.start = a := by
  obtain ⟨front,back,rfl,hf,hb⟩ :=
    h.split (fun r => r.start < a) (by simp only [decide_eq_true_eq]; omega)
  simp only [decide_eq_true_eq, decide_eq_false_iff_not, Nat.not_lt] at hf hb
  rw [startsRegion, partitionPoint_append (by simpa using hf) (by simpa using hb),
    List.getElem?_append_right (Nat.le_refl _), Nat.sub_self]
  constructor
  · intro hs
    cases back with
    | nil => simp at hs
    | cons s back => exact ⟨s,by simp,by simpa using hs⟩
  · rintro ⟨r,hr,rfl⟩
    rcases List.mem_append.mp hr with hr | hr
    · exact absurd (hf r hr) (Nat.lt_irrefl _)
    · cases back with
      | nil => simp at hr
      | cons s back =>
        have hs := hb s (by simp)
        have hsr : s.start ≤ r.start := by
          rcases List.mem_cons.mp hr with rfl | hr
          · exact Nat.le_refl _
          · exact (List.pairwise_cons.mp (List.pairwise_append.mp h).2.1).1 r hr
        simpa using Nat.le_antisymm hsr hs

theorem insertRegion_of_le {r s : Region} {rs : List Region} (h : Ascending (s :: rs))
    (hle : r.start ≤ s.start) : insertRegion r (s :: rs) = r :: s :: rs := by
  have hpoint : partitionPoint (fun t => t.start < r.start) (s :: rs) = 0 := by
    refine @partitionPoint_append _ [] (s :: rs) (by simp) fun t ht => ?_
    have hst : s.start ≤ t.start := by
      rcases List.mem_cons.mp ht with rfl | ht
      · exact Nat.le_refl _
      · exact (List.pairwise_cons.mp h).1 t ht
    simpa using Nat.le_trans hle hst
  simp [insertRegion, hpoint]

theorem insertRegion_of_lt {r s : Region} {rs : List Region} (h : Ascending rs)
    (hlt : s.start < r.start) : insertRegion r (s :: rs) = s :: insertRegion r rs := by
  obtain ⟨front,back,rfl,hf,hb⟩ :=
    h.split (fun t => t.start < r.start) (by simp only [decide_eq_true_eq]; omega)
  have hpoint : partitionPoint (fun t => t.start < r.start) (s :: (front ++ back)) =
      front.length + 1 :=
    @partitionPoint_append _ (s :: front) back (by simpa [hlt] using hf) hb
  rw [insertRegion, insertRegion, hpoint, partitionPoint_append hf hb]
  rfl

theorem insertRegion_perm (r : Region) (rs : List Region) :
    (insertRegion r rs).Perm (r :: rs) := by
  unfold insertRegion
  refine List.perm_middle.trans (List.Perm.cons r ?_)
  rw [List.take_append_drop]

theorem mem_insertRegion {r s : Region} {rs : List Region} :
    s ∈ insertRegion r rs ↔ s = r ∨ s ∈ rs := by
  rw [(insertRegion_perm r rs).mem_iff, List.mem_cons]

end Freestanding.Heap
