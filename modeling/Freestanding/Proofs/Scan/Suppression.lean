import Freestanding.Proofs.Scan.Trail

/-!
# Dropping a value

A star behind the percent sign of a directive drops the value and changes
nothing else. The item with the star takes the same bytes and gives the same
report, so both scans leave the same marks, but for the value in one of them.
-/

set_option autoImplicit false

namespace Freestanding.Scan

def Item.starred : Item → Item
  | field _ width letter => field true width letter
  | i => i

def Step.muted : Step → Step
  | go used _ note => go used none note
  | stop note => stop note

def Mark.muted (m : Mark) : Mark := { m with value := none }

/-! ## One item -/

theorem fieldStep_starred (suppress : Bool) (width : Nat) (letter : UInt8) (offset : Nat)
    (rest : Bytes) :
    fieldStep true width letter offset rest =
      (fieldStep suppress width letter offset rest).muted := by
  unfold fieldStep
  simp only
  split
  · rfl
  · rfl
  · rfl

theorem literalStep_muted (c : UInt8) (offset skipped : Nat) (rest : Bytes) :
    (literalStep c offset skipped rest).muted = literalStep c offset skipped rest := by
  rw [literalStep]
  split_ifs <;> rfl

theorem Item.starred_step (i : Item) (offset : Nat) (rest : Bytes) :
    i.starred.step offset rest = (i.step offset rest).muted := by
  cases i with
  | blank => rfl
  | literal c => exact (literalStep_muted c offset 0 rest).symm
  | percent => exact (literalStep_muted 37 offset _ rest).symm
  | field suppress width letter => exact fieldStep_starred suppress width letter offset rest

theorem readItem?_starred {s : Bytes} (hs : s.head? ≠ some 42) :
    readItem? (42 :: s) = (readItem? s).map fun p => (p.1.starred, p.2) := by
  have hstar : readStar s = (false, s) := by
    cases s with
    | nil => rfl
    | cons c s =>
      have hc : c ≠ 42 := fun hc => hs (by rw [hc]; rfl)
      simp [readStar, hc]
  have hopen : readOpening (42 :: s) = ((true, (readOpening s).1.2), (readOpening s).2) := by
    have hstar' : readStar (42 :: s) = (true, s) := rfl
    simp only [readOpening, hstar, hstar']
  rw [readItem?, readItem?, hopen]
  cases (readOpening s).2 with
  | nil => rfl
  | cons c rest =>
    by_cases hc : c = 37
    · simp [hc, Item.starred]
    · simp [hc, Item.starred]

theorem items_starred {s : Bytes} (hs : s.head? ≠ some 42) :
    items (37 :: 42 :: s) = (items (37 :: s)).modifyHead Item.starred := by
  have hread := readItem?_starred hs
  cases hi : readItem? s with
  | none =>
    rw [hi] at hread
    rw [items_unfinished hi, items_unfinished hread]
    rfl
  | some p =>
    rw [hi] at hread
    rw [items_read hi, items_read hread]
    rfl

/-! ## The whole scan -/

theorem trailFrom_starred (is : List Item) (n offset : Nat) (rest : Bytes) :
    trailFrom offset rest (is.modify n Item.starred) =
      (trailFrom offset rest is).modify n Mark.muted := by
  induction is generalizing n offset rest with
  | nil => simp [trailFrom]
  | cons i is ih =>
    cases n with
    | zero =>
      rw [List.modify_zero_cons, trailFrom, trailFrom, i.starred_step]
      cases i.step offset rest with
      | stop note => rfl
      | go used value note => rfl
    | succ n =>
      rw [List.modify_succ_cons, trailFrom, trailFrom]
      cases i.step offset rest with
      | stop note => simp
      | go used value note => simp only [ih, List.modify_succ_cons]

theorem trailFrom_take (is js : List Item) (offset : Nat) (rest : Bytes) :
    (trailFrom offset rest (is ++ js)).take is.length = trailFrom offset rest is := by
  induction is generalizing offset rest with
  | nil => rfl
  | cons i is ih =>
    rw [List.cons_append, trailFrom, trailFrom]
    cases i.step offset rest with
    | stop note => simp
    | go used value note => simp only [List.length_cons, List.take_succ_cons, ih]

def valueAt (text spec : Bytes) (n : Nat) : Option Value := (trail text spec)[n]?.bind Mark.value

theorem filterMap_head (ms : List Mark) : ms.filterMap Mark.value =
    (ms.head?.bind Mark.value).toList ++ ms.tail.filterMap Mark.value := by
  cases ms with
  | nil => rfl
  | cons m ms =>
    simp only [List.filterMap_cons, List.head?_cons, Option.bind_some, List.tail_cons]
    cases m.value <;> rfl

theorem filterMap_muted (ms : List Mark) :
    (ms.modifyHead Mark.muted).filterMap Mark.value = ms.tail.filterMap Mark.value := by
  cases ms <;> rfl

section Starred

variable {front body : Bytes} (hz : ∀ c ∈ front ++ 37 :: body, c ≠ 0)
  (hr : Reaches (front ++ 37 :: body) (37 :: body))
include hz hr

theorem items_front : items (Bytes.text (front ++ 37 :: body)) =
    items (Bytes.text front) ++ items (37 :: body) := by
  have hf : ∀ c ∈ front, c ≠ 0 := fun c hc => hz c (by simp [hc])
  rw [Bytes.text_eq_self hz, Bytes.text_eq_self hf, items_append hr]

theorem trail_take (text : Bytes) : (trail text (front ++ 37 :: body)).take (items front).length =
    trail text front := by
  have hf : ∀ c ∈ front, c ≠ 0 := fun c hc => hz c (by simp [hc])
  have hitems := items_front hz hr
  rw [trail, trail, hitems, Bytes.text_eq_self hf, trailFrom_take]

theorem trail_starred (hs : body.head? ≠ some 42) (text : Bytes) :
    trail text (front ++ 37 :: 42 :: body) =
      (trail text (front ++ 37 :: body)).modify (items front).length Mark.muted := by
  have hstar : ∀ c ∈ front ++ 37 :: 42 :: body, c ≠ 0 := by
    intro c hc
    by_cases he : c = 42
    · rw [he]
      decide
    · apply hz
      simpa [he] using hc
  rw [trail, trail, ← trailFrom_starred, Bytes.text_eq_self hz, Bytes.text_eq_self hstar,
    items_append hr, items_append hr, items_starred hs, List.modify_eq_take_drop, List.take_left,
    List.drop_left]

end Starred

/-- A star put into a directive takes its value, if it gives one, out of the
list of values. The other values stay as they are, and so do all places of the
cursor and all reports. -/
theorem star_drops_only_its_value {front body : Bytes} (hz : ∀ c ∈ front ++ 37 :: body, c ≠ 0)
    (hr : Reaches (front ++ 37 :: body) (37 :: body)) (hs : body.head? ≠ some 42)
    (text : Bytes) :
    (∃ later, scan text (front ++ 37 :: body) = scan text front ++
        ((valueAt text (front ++ 37 :: body) (items front).length).toList ++ later) ∧
      scan text (front ++ 37 :: 42 :: body) = scan text front ++ later) ∧
    trail text (front ++ 37 :: 42 :: body) =
      (trail text (front ++ 37 :: body)).modify (items front).length Mark.muted := by
  have hstar := trail_starred hz hr hs text
  have htake := trail_take hz hr text
  refine ⟨⟨((trail text (front ++ 37 :: body)).drop
    ((items front).length + 1)).filterMap Mark.value,?_,?_⟩,hstar⟩
  · rw [scan, scan, run_trail, run_trail, valueAt, ← htake, ← List.head?_drop, ← List.tail_drop,
      ← filterMap_head, ← List.filterMap_append, List.take_append_drop]
  · rw [scan, scan, run_trail, run_trail, hstar, ← htake, List.modify_eq_take_drop,
      List.filterMap_append, filterMap_muted, List.tail_drop]

theorem starred_middle_is_left_out :
    scan [49, 48, 32, 50, 48, 32, 51, 48] [37, 100, 32, 37, 100, 32, 37, 100] =
      [.int 10, .int 20, .int 30] ∧
    scan [49, 48, 32, 50, 48, 32, 51, 48] [37, 100, 32, 37, 42, 100, 32, 37, 100] =
      [.int 10, .int 30] := by
  have hitems : items (Bytes.text [37, 100, 32, 37, 100, 32, 37, 100]) =
      [.field false 0 100, .blank, .field false 0 100, .blank, .field false 0 100] := by
    decide +kernel
  have hfront : items [37, 100, 32] = [.field false 0 100, .blank] := by decide +kernel
  have hall : scan [49, 48, 32, 50, 48, 32, 51, 48] [37, 100, 32, 37, 100, 32, 37, 100] =
      [.int 10, .int 20, .int 30] := by rw [scan, run, hitems]; rfl
  have hfirst : scan [49, 48, 32, 50, 48, 32, 51, 48] [37, 100, 32] = [.int 10] := by
    rw [scan, run, show Bytes.text [37, 100, 32] = [37, 100, 32] from rfl, hfront]; rfl
  have hsecond : valueAt [49, 48, 32, 50, 48, 32, 51, 48]
      ([37, 100, 32] ++ 37 :: [100, 32, 37, 100]) (items [37, 100, 32]).length =
        some (.int 20) := by
    rw [hfront, valueAt, trail]
    exact congrArg (fun is => (trailFrom 0 _ is)[2]?.bind Mark.value) hitems
  have hr : Reaches ([37, 100, 32] ++ 37 :: [100, 32, 37, 100]) (37 :: [100, 32, 37, 100]) :=
    .directive (i := .field false 0 100) rfl <| .blank rfl <| .here _
  obtain ⟨⟨later,hvalues,hstar⟩,-⟩ := star_drops_only_its_value (by simp) hr (by decide)
    [49, 48, 32, 50, 48, 32, 51, 48]
  rw [hfirst, hsecond] at hvalues
  rw [hfirst] at hstar
  have hlater : [.int 10, .int 20, .int 30] = .int 10 :: .int 20 :: later :=
    hall.symm.trans hvalues
  obtain rfl : [.int 30] = later := (List.cons.inj (List.cons.inj hlater).2).2
  exact ⟨hall,hstar⟩

end Freestanding.Scan
