import Freestanding.Proofs.Scan.Printed

/-!
# What is printed scans back

A scanned field ends at a blank or at the end of the text. Up to there every
conversion takes all that the directive of an entry has written and gives the
value of the entry, and so the items of a template stay in step with the
fields of its output.
-/

set_option autoImplicit false

namespace Freestanding.Scan

open Numeral

def Stops (s : Bytes) : Prop := ∀ c ∈ s.head?, Bytes.isBlank c = true

theorem stops_spaced (ss : List Bytes) : Stops (spaced ss) := by
  intro c hc
  cases ss with
  | nil => cases hc
  | cons s ss =>
    cases hc
    rfl

namespace Stops

variable {t : Bytes}

theorem head_lt (ht : Stops t) : ∀ c ∈ t.head?, ¬48 ≤ c := by
  intro c hc hge
  have hblank := ht c hc
  rw [not_blank_of_ge hge] at hblank
  cases hblank

theorem ends (ht : Stops t) (base : Nat) : Ends base t := by
  intro c hc
  by_contra hd
  exact ht.head_lt c hc (zero_le_of_digit (Option.isSome_iff_ne_none.mpr hd))

theorem no_mark (ht : Stops t) : ∀ c ∈ t.head?, isMarkLetter c = false := by
  intro c hc
  by_contra hm
  simp only [isMarkLetter, Bool.not_eq_false, Bool.or_eq_true, beq_iff_eq] at hm
  rcases hm with rfl | rfl
  · exact ht.head_lt _ hc (by decide)
  · exact ht.head_lt _ hc (by decide)

end Stops

/-! ## Conversions -/

theorem magnitude_integer {base : Nat} (hb : base = 10 ∨ base = 0) {bound : Bool → Nat} {i : Int}
    (hi : i.natAbs ≤ bound (decide (i < 0))) {t : Bytes} (ht : Stops t) :
    magnitude base bound (integer 10 i ++ t) =
      .ok ⟨decide (i < 0),i.natAbs,(integer 10 i).length,false⟩ := by
  obtain ⟨o,ho,hint⟩ := integer_eq 10 i
  have hrun : Run 10 (natural 10 false i.natAbs) := run_natural (by omega) (by omega) false _
  have hne := natural_ne_nil 10 false i.natAbs
  have hval : valueFrom 10 0 (natural 10 false i.natAbs) = i.natAbs :=
    valueFrom_natural (by omega) (by omega) false _
  rw [← ho] at hi ⊢
  rw [hint, List.append_assoc, List.length_append]
  rcases hb with rfl | rfl
  · exact magnitude_natural (by omega) (by omega) false hi (ht.ends 10) ht.no_mark
  · by_cases hz : i.natAbs = 0
    · rw [hz, natural_zero]
      have hread := @magnitude_octal 0 o bound _ t (run_zeros (by omega) 1) rfl (ht.ends 8)
        ht.no_mark (by simp [valueFrom, digitIn?_zero])
      simpa [valueFrom, digitIn?_zero] using hread
    · have hread := @magnitude_decimal 0 o bound _ t hrun hne
        (natural_head_ne_zero (by omega) (by omega) false hz) (ht.ends 10) (by rw [hval]; exact hi)
      simpa [hval] using hread

theorem signedField_integer {base : Nat} (hb : base = 10 ∨ base = 0) (v : Int64) {t : Bytes}
    (ht : Stops t) : signedField base (integer 10 v.toInt ++ t) =
      some (.int v, (integer 10 v.toInt).length) := by
  have hle : v.toInt.natAbs ≤ Width.bits64.signedBound (decide (v.toInt < 0)) :=
    natAbs_le_signedBound v.le_toInt v.toInt_lt
  have hpos : 0 < (integer 10 v.toInt).length := by
    obtain ⟨o,-,hint⟩ := integer_eq 10 v.toInt
    have := List.length_pos_of_ne_nil (natural_ne_nil 10 false v.toInt.natAbs)
    rw [hint, List.length_append]
    omega
  rw [signedField, parseSigned_eq (magnitude_integer hb hle ht)]
  simp [Parsed.converted, hpos, Int64.ofInt_toInt]

theorem unsignedField_natural {base : Nat} (hl : 2 ≤ base) (hu : base ≤ 16) (upper : Bool)
    (v : UInt64) {t : Bytes} (ht : Stops t) :
    unsignedField base (natural base upper v.toNat ++ t) =
      some (.uint v, (natural base upper v.toNat).length) := by
  have hne := natural_ne_nil base upper v.toNat
  rw [unsignedField, parseUnsigned_natural hl hu upper v (ht.ends base) ht.no_mark]
  simp [Parsed.converted, List.length_pos_of_ne_nil hne, UInt64.ofNat_toNat]

theorem wordField_append {s : Bytes} (hn : s ≠ []) (hs : ∀ c ∈ s, Solid c) {t : Bytes}
    (ht : Stops t) : wordField (s ++ t) = some (.text s, s.length) := by
  have hword : (s ++ t).takeWhile (fun c => !Bytes.isBlank c) = s := by
    apply takeWhile_append_end
    · intro c hc
      simp [(hs c hc).2]
    · intro c hc
      simp [ht c hc]
  simp only [wordField, hword, if_neg hn]

theorem take_reach {letter : UInt8} (hl : letter ≠ charLetter) (s : Bytes) :
    s.take (reach 0 letter s) = s := by
  rw [reach, if_pos rfl, if_neg hl, List.take_length]

namespace Entry

theorem convert?_printed (e : Entry) {t : Bytes} (ht : Stops t) :
    convert? e.letter.toUInt8 (reach 0 e.letter.toUInt8 (e.printed ++ t))
      ((e.printed ++ t).take (reach 0 e.letter.toUInt8 (e.printed ++ t))) =
        some (some (e.value, e.printed.length)) := by
  cases e with
  | signed detect v =>
    cases detect
    · rw [take_reach (by simp only [letter]; decide)]
      exact congrArg some (signedField_integer (.inl rfl) v ht)
    · rw [take_reach (by simp only [letter]; decide)]
      exact congrArg some (signedField_integer (.inr rfl) v ht)
  | unsigned v =>
    rw [take_reach (by simp only [letter]; decide)]
    exact congrArg some (unsignedField_natural (by omega) (by omega) false v ht)
  | octal v =>
    rw [take_reach (by simp only [letter]; decide)]
    exact congrArg some (unsignedField_natural (by omega) (by omega) false v ht)
  | hex upper v =>
    cases upper
    · rw [take_reach (by simp only [letter]; decide)]
      exact congrArg some (unsignedField_natural (by omega) (by omega) false v ht)
    · rw [take_reach (by simp only [letter]; decide)]
      exact congrArg some (unsignedField_natural (by omega) (by omega) true v ht)
  | char c h => rfl
  | word s hn h =>
    rw [take_reach (by simp only [letter]; decide)]
    exact congrArg some (wordField_append hn h ht)

/-! ## Steps -/

theorem solid_of_ge {c : UInt8} (h : 48 ≤ c) : Solid c := by
  refine ⟨?_,not_blank_of_ge h⟩
  rintro rfl
  exact absurd h (by decide)

theorem solid_run {base : Nat} {s : Bytes} (hs : Run base s) : ∀ c ∈ s, Solid c :=
  fun c hc => solid_of_ge (zero_le_of_digit (hs c hc))

theorem printed_solid (e : Entry) : ∀ c ∈ e.printed, Solid c := by
  cases e with
  | signed detect v =>
    intro c hc
    obtain ⟨o,-,hint⟩ := integer_eq 10 v.toInt
    rw [printed, hint, List.mem_append] at hc
    rcases hc with hc | hc
    · cases o with
      | none => cases hc
      | some negative => cases negative <;> (cases List.mem_singleton.mp hc; decide)
    · exact solid_run (run_natural (by omega) (by omega) false _) c hc
  | unsigned v => exact solid_run (run_natural (by omega) (by omega) false _)
  | octal v => exact solid_run (run_natural (by omega) (by omega) false _)
  | hex upper v => exact solid_run (run_natural (by omega) (by omega) upper _)
  | char c h =>
    intro b hb
    cases List.mem_singleton.mp hb
    exact h
  | word s hn h => exact h

theorem printed_ne_nil (e : Entry) : e.printed ≠ [] := by
  cases e with
  | signed detect v =>
    obtain ⟨o,-,hint⟩ := integer_eq 10 v.toInt
    rw [printed, hint]
    exact List.append_ne_nil_of_right_ne_nil _ (natural_ne_nil _ _ _)
  | unsigned v => exact natural_ne_nil _ _ _
  | octal v => exact natural_ne_nil _ _ _
  | hex upper v => exact natural_ne_nil _ _ _
  | char c h => exact List.cons_ne_nil _ _
  | word s hn h => exact hn

theorem printed_head (e : Entry) (t : Bytes) :
    ∀ c ∈ (e.printed ++ t).head?, Bytes.isBlank c = false := by
  intro c hc
  obtain ⟨d,r,hd⟩ := List.exists_cons_of_ne_nil e.printed_ne_nil
  rw [hd] at hc
  cases hc
  exact (e.printed_solid c (by simp [hd])).2

theorem fieldStep_printed (e : Entry) (offset : Nat) {t : Bytes} (ht : Stops t) :
    fieldStep false 0 e.letter.toUInt8 offset (e.printed ++ t) =
      .go e.printed.length (some e.value) none := by
  have hskip : (if e.letter.toUInt8 = charLetter then 0 else Bytes.blanks (e.printed ++ t)) = 0 := by
    have hb : Bytes.blanks (e.printed ++ t) = 0 := blanks_append (k := 0) (e.printed_head t)
    rw [hb, ite_self]
  simp only [fieldStep, hskip, List.drop_zero, e.convert?_printed ht]
  simp

theorem items_directive (e : Entry) (rest : Bytes) :
    items (e.directive ++ rest) = .field false 0 e.letter.toUInt8 :: items rest := by
  have hread : readItem? ((e.lengthChars ++ [e.letter]).map Char.toUInt8 ++ rest) =
      some (.field false 0 e.letter.toUInt8, rest) := by
    cases e with
    | signed detect v => cases detect <;> rfl
    | hex upper v => cases upper <;> rfl
    | _ => rfl
  show items (37 :: ((e.lengthChars ++ [e.letter]).map Char.toUInt8 ++ rest)) = _
  rw [items, if_neg (by decide), if_pos rfl]
  split
  · rename_i item r he
    rw [hread] at he
    cases he
    rfl
  · rename_i he
    rw [hread] at he
    cases he

/-- Printing and scanning an entry leaves both at what follows it. -/
theorem scanItems_entry (e : Entry) (offset : Nat) {t : Bytes} (ht : Stops t) (rest : Bytes) :
    scanItems offset (e.printed ++ t) (items (e.directive ++ rest)) =
      ⟨e.value :: (scanItems (offset + e.printed.length) t (items rest)).values,
        (scanItems (offset + e.printed.length) t (items rest)).events⟩ := by
  simp [items_directive, scanItems, Item.step, e.fieldStep_printed offset ht]

end Entry

theorem scanItems_blank (offset : Nat) {t : Bytes} (ht : ∀ c ∈ t.head?, Bytes.isBlank c = false)
    (rest : Bytes) :
    scanItems offset (32 :: t) (items (32 :: rest)) = scanItems (offset + 1) t (items rest) := by
  have hb : Bytes.blanks (32 :: t) = 1 := blanks_append (k := 1) ht
  have hi : items (32 :: rest) = .blank :: items rest := by rw [items, if_pos (by decide)]
  simp [hi, scanItems, Item.step, hb]

theorem scanItems_spaced (es : List Entry) (offset : Nat) :
    scanItems offset (spaced (es.map Entry.printed)) (items (spaced (es.map Entry.directive))) =
      ⟨es.map Entry.value,[]⟩ := by
  induction es generalizing offset with
  | nil =>
    show scanItems offset [] (items []) = ⟨[],[]⟩
    rw [items, scanItems]
  | cons e es ih =>
    simp only [List.map_cons, spaced_cons]
    rw [scanItems_blank offset (e.printed_head _), e.scanItems_entry _ (stops_spaced _), ih]

theorem text_output (es : List Entry) : Bytes.text (output es) = output es := by
  apply Bytes.text_eq_self
  apply intercalate_ne_zero
  intro s hs c hc
  obtain ⟨e,-,rfl⟩ := List.mem_map.mp hs
  exact (e.printed_solid c hc).1

theorem run_output (es : List Entry) : run (output es) (template es) = ⟨es.map Entry.value,[]⟩ := by
  rw [run, text_output, text_template]
  cases es with
  | nil =>
    show scanItems 0 [] (items []) = ⟨[],[]⟩
    rw [items, scanItems]
  | cons e es =>
    simp only [template, output, List.map_cons, intercalate_cons]
    rw [e.scanItems_entry 0 (stops_spaced _), scanItems_spaced]

/-- Formatting any entries by their directives, joined by one blank, succeeds,
and scanning what it writes by the same template gives the values back, all of
them and in order. -/
theorem formatted_entries_scan_back (es : List Entry) :
    ∃ out, Format.format (template es) (es.map Entry.argument) = .ok out ∧
      scan out (template es) = es.map Entry.value := by
  refine ⟨output es,format_template es,?_⟩
  rw [scan, run_output]

end Freestanding.Scan
