import Freestanding.Scan.Run
import Freestanding.Proofs.Numeral.Longest
import Freestanding.Proofs.Scan.Walk
import Mathlib.Data.List.Chain

/-!
# The trail of a scan

A scan leaves a mark for every item that it takes up: where the cursor stood in
the text before the item and behind it, and the value and the report it gave.
The cursor goes forward from mark to mark and stays within the text. A scan
that was not stopped goes on from its last mark, and so what follows a
specification adds to the values and changes none.
-/

set_option autoImplicit false

namespace Freestanding.Scan

namespace Event

def stops : Event → Bool
  | unknownLetter _ => false
  | _ => true

def offset? : Event → Option Nat
  | expected offset _ | nothingConverted offset _ => some offset
  | unknownLetter _ => none

end Event

structure Mark where
  start : Nat
  finish : Nat
  value : Option Value
  note : Option Event

/-- The marks of a scan. The last one may be that of the item that stopped it,
which leaves the cursor where it looked for a field. -/
def trailFrom (offset : Nat) (rest : Bytes) : List Item → List Mark
  | [] => []
  | i :: is =>
    match i.step offset rest with
    | .stop note => [⟨offset,note.offset?.getD offset,none,some note⟩]
    | .go used value note =>
      ⟨offset,offset + used,value,note⟩ :: trailFrom (offset + used) (rest.drop used) is

def trail (text spec : Bytes) : List Mark :=
  trailFrom 0 (Bytes.text text) (items (Bytes.text spec))

def resume (offset : Nat) (rest : Bytes) : List Item → Option (Nat × Bytes)
  | [] => some (offset, rest)
  | i :: is =>
    match i.step offset rest with
    | .stop _ => none
    | .go used _ _ => resume (offset + used) (rest.drop used) is

theorem scanItems_trailFrom (is : List Item) (offset : Nat) (rest : Bytes) :
    scanItems offset rest is = ⟨(trailFrom offset rest is).filterMap Mark.value,
      (trailFrom offset rest is).filterMap Mark.note⟩ := by
  induction is generalizing offset rest with
  | nil => rfl
  | cons i is ih =>
    rw [scanItems, trailFrom]
    cases i.step offset rest with
    | stop note => rfl
    | go used value note =>
      simp only [ih]
      cases value <;> cases note <;> rfl

theorem run_trail (text spec : Bytes) :
    run text spec = ⟨(trail text spec).filterMap Mark.value,
      (trail text spec).filterMap Mark.note⟩ :=
  scanItems_trailFrom _ 0 _

theorem trailFrom_append (is js : List Item) (offset : Nat) (rest : Bytes) :
    trailFrom offset rest (is ++ js) = trailFrom offset rest is ++
      (resume offset rest is).elim [] fun p => trailFrom p.1 p.2 js := by
  induction is generalizing offset rest with
  | nil => rfl
  | cons i is ih =>
    rw [List.cons_append, trailFrom, trailFrom, resume]
    cases i.step offset rest with
    | stop note => rfl
    | go used value note => simp only [ih, List.cons_append]

/-! ## What an item does -/

theorem integer_rest_le {α : Type} {base : Nat} {bound : Bool → Nat} {s : Bytes}
    {f : Numeral.Magnitude → Numeral.Parsed α} {p : Numeral.Parsed α}
    (hf : ∀ m, (f m).rest = m.rest) (h : (Numeral.magnitude base bound s).map f = .ok p) :
    p.rest ≤ s.length := by
  cases hm : Numeral.magnitude base bound s with
  | error e =>
    rw [hm] at h
    cases h
  | ok m =>
    rw [hm] at h
    cases h
    rw [hf]
    exact Numeral.magnitude_rest_le hm

section Used

variable {s : Bytes} {v : Value} {used : Nat}

theorem signedField_used {base : Nat} (h : signedField base s = some (v, used)) :
    used ≤ s.length := by
  unfold signedField at h
  split at h
  · rename_i p hp
    split_ifs at h
    cases h
    exact integer_rest_le (fun _ => rfl) hp
  · cases h

theorem unsignedField_used {base : Nat} (h : unsignedField base s = some (v, used)) :
    used ≤ s.length := by
  unfold unsignedField at h
  split at h
  · rename_i p hp
    split_ifs at h
    cases h
    exact integer_rest_le (fun _ => rfl) hp
  · cases h

theorem realField_used (h : realField s = some (v, used)) : used ≤ s.length := by
  simp only [realField] at h
  split_ifs at h
  cases h
  exact Numeral.parseReal_rest_le s

theorem wordField_used (h : wordField s = some (v, used)) : used ≤ s.length := by
  simp only [wordField] at h
  split_ifs at h
  cases h
  exact (List.takeWhile_sublist _).length_le

theorem charField_used {width : Nat} (h : charField width s = some (v, used)) :
    used ≤ s.length := by
  unfold charField at h
  split_ifs at h
  split at h
  · cases h
  · cases h
    exact Nat.le_refl 1
  · cases h
    exact Nat.le_refl _

theorem convert?_used {letter : UInt8} {width : Nat}
    (h : convert? letter width s = some (some (v, used))) : used ≤ s.length := by
  unfold convert? at h
  split_ifs at h
  · exact signedField_used (Option.some.inj h)
  · exact signedField_used (Option.some.inj h)
  · exact unsignedField_used (Option.some.inj h)
  · exact unsignedField_used (Option.some.inj h)
  · exact unsignedField_used (Option.some.inj h)
  · exact realField_used (Option.some.inj h)
  · exact wordField_used (Option.some.inj h)
  · exact charField_used (Option.some.inj h)

end Used

/-- The bounds of a step at an offset of the text: one that goes on uses bytes
that are there, and one that stops does so among them. -/
inductive Step.Within (offset : Nat) (rest : Bytes) : Step → Prop
  | go {used : Nat} {value : Option Value} {note : Option Event} (hu : used ≤ rest.length)
      (hn : ∀ e ∈ note, e.stops = false) : Within offset rest (.go used value note)
  | stop {note : Event} {place : Nat} (hn : note.stops = true) (ho : note.offset? = some place)
      (hl : offset ≤ place) (hu : place ≤ offset + rest.length) : Within offset rest (.stop note)

theorem blanks_le (s : Bytes) : Bytes.blanks s ≤ s.length :=
  (List.takeWhile_sublist Bytes.isBlank).length_le

theorem literalStep_within (c : UInt8) (offset : Nat) {skipped : Nat} {rest : Bytes}
    (hs : skipped ≤ rest.length) :
    (literalStep c offset skipped rest).Within offset rest := by
  rw [literalStep]
  by_cases hc : (rest.drop skipped).head? = some c
  · rw [if_pos hc]
    have hlt : skipped < rest.length := by
      by_contra hge
      rw [List.drop_eq_nil_of_le (Nat.not_lt.mp hge)] at hc
      cases hc
    exact .go hlt (by simp)
  · rw [if_neg hc]
    exact .stop rfl rfl (Nat.le_add_right _ _) (Nat.add_le_add_left hs _)

theorem fieldStep_within (suppress : Bool) (width : Nat) (letter : UInt8) (offset : Nat)
    (rest : Bytes) : (fieldStep suppress width letter offset rest).Within offset rest := by
  have hskip : (if letter = charLetter then 0 else Bytes.blanks rest) ≤ rest.length := by
    split_ifs
    · exact Nat.zero_le _
    · exact blanks_le rest
  unfold fieldStep
  generalize (if letter = charLetter then 0 else Bytes.blanks rest) = skipped at hskip
  simp only
  split
  · exact .go hskip (by simp [Event.stops])
  · exact .stop rfl rfl (Nat.le_add_right _ _) (Nat.add_le_add_left hskip _)
  · rename_i hc
    have hused := convert?_used hc
    have hfield := List.length_take_le'
      (reach width letter (rest.drop skipped)) (rest.drop skipped)
    rw [List.length_drop] at hfield
    exact .go (by omega) (by simp)

theorem Item.step_within (i : Item) (offset : Nat) (rest : Bytes) :
    (i.step offset rest).Within offset rest := by
  cases i with
  | blank => exact .go (blanks_le rest) (by simp)
  | literal c => exact literalStep_within c offset (Nat.zero_le _)
  | percent => exact literalStep_within 37 offset (blanks_le rest)
  | field suppress width letter => exact fieldStep_within suppress width letter offset rest

/-! ## Where the cursor goes -/

/-- The cursor of a scan of `n` bytes: it starts at the first byte, every item
takes it up where the one before has left it, and it goes forward and never
past the last byte. -/
structure Forward (n : Nat) (ms : List Mark) : Prop where
  first : ∀ m ∈ ms.head?, m.start = 0
  joined : ms.IsChain fun m m' => m.finish = m'.start
  onward : ∀ m ∈ ms, m.start ≤ m.finish
  within : ∀ m ∈ ms, m.finish ≤ n

theorem trailFrom_head (is : List Item) (offset : Nat) (rest : Bytes) :
    ∀ m ∈ (trailFrom offset rest is).head?, m.start = offset := by
  cases is with
  | nil => simp [trailFrom]
  | cons i is =>
    rw [trailFrom]
    cases i.step offset rest with
    | stop note => simp
    | go used value note => simp

theorem trailFrom_joined (is : List Item) (offset : Nat) (rest : Bytes) :
    (trailFrom offset rest is).IsChain fun m m' => m.finish = m'.start := by
  induction is generalizing offset rest with
  | nil => exact .nil
  | cons i is ih =>
    rw [trailFrom]
    cases i.step offset rest with
    | stop note => exact .singleton _
    | go used value note =>
      apply List.isChain_cons.mpr
      exact ⟨fun m hm => (trailFrom_head is _ _ m hm).symm,ih _ _⟩

theorem trailFrom_within (is : List Item) (offset : Nat) (rest : Bytes) :
    ∀ m ∈ trailFrom offset rest is, m.start ≤ m.finish ∧ m.finish ≤ offset + rest.length := by
  induction is generalizing offset rest with
  | nil => simp [trailFrom]
  | cons i is ih =>
    have hstep := i.step_within offset rest
    rw [trailFrom]
    intro m hm
    cases hs : i.step offset rest with
    | stop note =>
      rw [hs] at hstep hm
      cases hstep with
      | stop hn ho hl hu =>
        rw [List.mem_singleton.mp hm, ho]
        exact ⟨hl,hu⟩
    | go used value note =>
      rw [hs] at hstep hm
      cases hstep with
      | go hu hn =>
        rcases List.mem_cons.mp hm with rfl | hm
        · exact ⟨Nat.le_add_right _ _,Nat.add_le_add_left hu _⟩
        · have hrest := ih _ _ m hm
          rw [List.length_drop] at hrest
          omega

theorem trail_forward (text spec : Bytes) : Forward (Bytes.textLength text) (trail text spec) where
  first := trailFrom_head _ 0 _
  joined := trailFrom_joined _ 0 _
  onward m hm := (trailFrom_within _ 0 _ m hm).1
  within m hm := by
    have hle := (trailFrom_within _ 0 _ m hm).2
    rwa [Nat.zero_add] at hle

/-! ## Scanning on -/

theorem resume_eq_none (is : List Item) (offset : Nat) (rest : Bytes) :
    resume offset rest is = none ↔
      ∃ e ∈ (trailFrom offset rest is).filterMap Mark.note, e.stops = true := by
  induction is generalizing offset rest with
  | nil => simp [resume, trailFrom]
  | cons i is ih =>
    have hstep := i.step_within offset rest
    rw [resume, trailFrom]
    cases hs : i.step offset rest with
    | stop note =>
      rw [hs] at hstep
      cases hstep with
      | stop hn ho hl hu => simp [hn]
    | go used value note =>
      rw [hs] at hstep
      cases hstep with
      | go hu hn =>
        simp only [ih]
        cases note with
        | none => simp
        | some e => simp [hn e rfl]

theorem items_text_append {s₁ : Bytes} (hz : ∀ c ∈ s₁, c ≠ 0) (hf : Finished s₁) (s₂ : Bytes) :
    items (Bytes.text (s₁ ++ s₂)) = items (Bytes.text s₁) ++ items (Bytes.text s₂) := by
  have hreach : Reaches (s₁ ++ []) [] := by rwa [List.append_nil]
  rw [Bytes.text_append hz, Bytes.text_eq_self hz, items_append hreach]

/-- A specification that is not broken off inside a directive gives the first
values of every longer one, and all of them when an item of it has stopped the
scan. All along, the cursor stays within the text and goes forward. -/
theorem longer_specification_adds_values {s₁ : Bytes} (hz : ∀ c ∈ s₁, c ≠ 0) (hf : Finished s₁)
    (text s₂ : Bytes) :
    scan text s₁ <+: scan text (s₁ ++ s₂) ∧
      ((∃ e ∈ (run text s₁).events, e.stops = true) → scan text (s₁ ++ s₂) = scan text s₁) ∧
      ∀ spec, Forward (Bytes.textLength text) (trail text spec) ∧
        run text spec = ⟨(trail text spec).filterMap Mark.value,
          (trail text spec).filterMap Mark.note⟩ := by
  have happend := trailFrom_append (items (Bytes.text s₁)) (items (Bytes.text s₂)) 0
    (Bytes.text text)
  rw [← items_text_append hz hf] at happend
  have hvalues : scan text (s₁ ++ s₂) = scan text s₁ ++
      ((resume 0 (Bytes.text text) (items (Bytes.text s₁))).elim []
        fun p => trailFrom p.1 p.2 (items (Bytes.text s₂))).filterMap Mark.value := by
    rw [scan, scan, run_trail, run_trail, trail, happend, List.filterMap_append]
    rfl
  refine ⟨?_,?_,fun spec => ⟨trail_forward text spec,run_trail text spec⟩⟩
  · rw [hvalues]
    exact List.prefix_append _ _
  · intro hstop
    rw [run_trail] at hstop
    rw [hvalues, (resume_eq_none _ _ _).mpr hstop]
    simp

theorem mismatch_ends_values :
    (run [49, 44, 50, 59, 51] [37, 100, 44, 37, 100, 44]).events = [.expected 3 44] ∧
    scan [49, 44, 50, 59, 51] [37, 100, 44, 37, 100, 44] = [.int 1, .int 2] ∧
    scan [49, 44, 50, 59, 51] ([37, 100, 44, 37, 100, 44] ++ [37, 100]) = [.int 1, .int 2] := by
  have hitems : items (Bytes.text [37, 100, 44, 37, 100, 44]) =
      [.field false 0 100, .literal 44, .field false 0 100, .literal 44] := by decide +kernel
  have hevents : (run [49, 44, 50, 59, 51] [37, 100, 44, 37, 100, 44]).events =
      [.expected 3 44] := by rw [run, hitems]; rfl
  have hvalues : scan [49, 44, 50, 59, 51] [37, 100, 44, 37, 100, 44] = [.int 1, .int 2] := by
    rw [scan, run, hitems]; rfl
  have hf : Finished [37, 100, 44, 37, 100, 44] :=
    .directive (i := .field false 0 100) rfl <| .literal rfl (by decide) <|
      .directive (i := .field false 0 100) rfl <| .literal rfl (by decide) <| .here []
  have hlonger := longer_specification_adds_values (by simp) hf [49, 44, 50, 59, 51] [37, 100]
  refine ⟨hevents,hvalues,?_⟩
  rw [hlonger.2.1 ⟨_,by rw [hevents]; exact List.mem_singleton_self _,rfl⟩, hvalues]

end Freestanding.Scan
