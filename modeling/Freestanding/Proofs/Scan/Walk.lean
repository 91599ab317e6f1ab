import Freestanding.Scan.Item
import Freestanding.Proofs.Format.Cut

/-!
# Walking over a specification

A specification is walked over item by item. What is read of an item does not
depend on what stands behind it, so the walk can be cut wherever it comes by:
the part in front has the items in front, whatever follows.
-/

set_option autoImplicit false

namespace Freestanding.Scan

open Format

/-- The walk over the first byte string comes by the second, which is what is
left of it there. -/
inductive Reaches : Bytes → Bytes → Prop
  | here (s : Bytes) : Reaches s s
  | blank {c : UInt8} {s rest : Bytes} (hc : Bytes.isBlank c = true) (h : Reaches s rest) :
      Reaches (c :: s) rest
  | literal {c : UInt8} {s rest : Bytes} (hc : Bytes.isBlank c = false) (hp : c ≠ 37)
      (h : Reaches s rest) : Reaches (c :: s) rest
  | directive {i : Item} {s t rest : Bytes} (hi : readItem? s = some (i, t)) (h : Reaches t rest) :
      Reaches (37 :: s) rest

def Finished (s : Bytes) : Prop := Reaches s []

/-! ## One item -/

theorem readStar_stopsAt (s : Bytes) : StopsAt readStar s := by
  cases s with
  | nil => exact .used_up rfl
  | cons c s =>
    by_cases hc : c = 42
    · subst hc
      exact .cons (fun u => rfl) (.take_all true s)
    · exact .at_once false (fun u => by simp [readStar, hc]) s

theorem readOpening_stopsAt (s : Bytes) : StopsAt readOpening s := by
  have hwidth := (readStar_stopsAt s).follow rfl (readNumberFrom_stopsAt 0 _)
  have hlength := hwidth.follow rfl (readLength_stopsAt _)
  exact hlength.map fun x => x.1

theorem readItem?_cut {s rest : Bytes} {i : Item} (h : readItem? s = some (i, rest)) :
    ∃ m, s = m ++ rest ∧ ∀ t, readItem? (m ++ t) = some (i, t) := by
  rw [readItem?] at h
  cases hr : (readOpening s).2 with
  | nil => simp [hr] at h
  | cons c r =>
    simp only [hr, Option.some.injEq, Prod.mk.injEq] at h
    obtain ⟨hi,rfl⟩ := h
    obtain ⟨m,hm,hstop⟩ := readOpening_stopsAt s (by simp [hr])
    rw [hr] at hm hstop
    refine ⟨m ++ [c],by simpa using hm,fun t => ?_⟩
    have ht := hstop (c :: t) rfl
    rw [List.append_assoc, List.singleton_append, readItem?, ht]
    simp only [hi]

theorem items_blank {c : UInt8} (hc : Bytes.isBlank c = true) (s : Bytes) :
    items (c :: s) = .blank :: items s := by
  rw [items, if_pos hc]

theorem items_literal {c : UInt8} (hc : Bytes.isBlank c = false) (hp : c ≠ 37) (s : Bytes) :
    items (c :: s) = .literal c :: items s := by
  rw [items, if_neg (by simp [hc]), if_neg hp]

theorem items_read {s rest : Bytes} {i : Item} (hi : readItem? s = some (i, rest)) :
    items (37 :: s) = i :: items rest := by
  rw [items, if_neg (by decide), if_pos rfl]
  split
  · rename_i he
    rw [hi] at he
    cases he
    rfl
  · rename_i he
    rw [hi] at he
    cases he

theorem items_unfinished {s : Bytes} (hi : readItem? s = none) : items (37 :: s) = [] := by
  rw [items, if_neg (by decide), if_pos rfl]
  split
  · rename_i he
    rw [hi] at he
    cases he
  · rfl

/-! ## The whole walk -/

theorem Reaches.cut {s rest : Bytes} (h : Reaches s rest) :
    ∃ front, s = front ++ rest ∧ ∀ t, items (front ++ t) = items front ++ items t := by
  induction h with
  | here s => exact ⟨[],rfl,fun t => by simp [items]⟩
  | @blank c s rest hc _ ih =>
    obtain ⟨front,rfl,hitems⟩ := ih
    refine ⟨c :: front,rfl,fun t => ?_⟩
    rw [List.cons_append, items_blank hc, items_blank hc, hitems, List.cons_append]
  | @literal c s rest hc hp _ ih =>
    obtain ⟨front,rfl,hitems⟩ := ih
    refine ⟨c :: front,rfl,fun t => ?_⟩
    rw [List.cons_append, items_literal hc hp, items_literal hc hp, hitems, List.cons_append]
  | directive hi _ ih =>
    obtain ⟨m,rfl,hread⟩ := readItem?_cut hi
    obtain ⟨front,rfl,hitems⟩ := ih
    refine ⟨37 :: (m ++ front),by simp,fun t => ?_⟩
    rw [List.cons_append, List.append_assoc, items_read (hread _), items_read (hread _),
      hitems, List.cons_append]

theorem items_append {front rest : Bytes} (h : Reaches (front ++ rest) rest) (t : Bytes) :
    items (front ++ t) = items front ++ items t := by
  obtain ⟨front',he,hitems⟩ := h.cut
  obtain rfl := List.append_cancel_right he
  exact hitems t

end Freestanding.Scan
