import Freestanding.Proofs.Numeral.Digits

/-!
# Reading a numeral back

A numeral is blanks, a sign, perhaps a mark of base sixteen, and a run of
digits that ends where no digit follows. What is read off it is the value of
the run with the sign, as long as the value is within its bound.
-/

set_option autoImplicit false

namespace Freestanding.Numeral

def signBytes : Option Bool → Bytes
  | none => []
  | some true => [45]
  | some false => [43]

def Ends (base : Nat) (s : Bytes) : Prop := ∀ c ∈ s.head?, digitIn? base c = none

theorem ends_blanks (base k : Nat) : Ends base (List.replicate k 32) := by
  intro c hc
  rw [List.eq_of_mem_replicate (List.mem_of_mem_head? hc)]
  exact digitIn?_blank base

/-! ## Digits -/

/-- The quotient tells exactly when the value would pass its limit. -/
theorem exceeds_iff {base : Nat} (hb : 0 < base) (limit value d : Nat) :
    Exceeds base limit value d ↔ limit < value * base + d := by
  unfold Exceeds
  by_cases hd : limit < d
  · exact ⟨fun _ => Nat.lt_of_lt_of_le hd (Nat.le_add_left _ _),fun _ => Or.inr hd⟩
  · rw [Nat.min_eq_left (Nat.not_lt.mp hd), Nat.div_lt_iff_lt_mul hb]
    omega

theorem accumulate_end {base limit v : Nat} {t : Bytes} (ht : Ends base t) :
    accumulate base limit v t = (v, 0, false) := by
  cases t with
  | nil => rfl
  | cons c t => rw [accumulate, ht c rfl]

/-- A run whose value is within the limit is read to its end. -/
theorem accumulate_run {base limit : Nat} (hb : 0 < base) {s t : Bytes} (hs : Run base s)
    (ht : Ends base t) (v : Nat) (hv : valueFrom base v s ≤ limit) :
    accumulate base limit v (s ++ t) = (valueFrom base v s, s.length, false) := by
  induction s generalizing v with
  | nil => exact accumulate_end ht
  | cons c s ih =>
    obtain ⟨d,hd⟩ := Option.isSome_iff_exists.mp (hs c (by simp))
    have hval : valueFrom base v (c :: s) = valueFrom base (v * base + d) s := by
      simp [valueFrom, hd]
    rw [hval] at hv
    have hle : ¬Exceeds base limit v d := by
      rw [exceeds_iff hb, Nat.not_lt]
      exact Nat.le_trans (le_valueFrom hb _ s) hv
    have hrest := ih (fun e he => hs e (by simp [he])) _ hv
    rw [List.cons_append, accumulate, hd]
    simp only [if_neg hle, hrest, hval, List.length_cons]

/-! ## The opening -/

theorem not_blank_of_ge {c : UInt8} (h : 48 ≤ c) : Bytes.isBlank c = false := by
  rw [UInt8.le_iff_toNat_le] at h
  simp only [Bytes.isBlank, Bool.or_eq_false_iff, beq_eq_false_iff_ne, Bool.and_eq_false_iff,
    decide_eq_false_iff_not, UInt8.le_iff_toNat_le]
  constructor
  · rintro rfl
    exact absurd h (by decide)
  · right
    have : (13 : UInt8).toNat = 13 := rfl
    have : (48 : UInt8).toNat = 48 := rfl
    omega

theorem takeWhile_append_end {α : Type} {p : α → Bool} {s t : List α} (hs : ∀ c ∈ s, p c = true)
    (ht : ∀ c ∈ t.head?, p c = false) : (s ++ t).takeWhile p = s := by
  rw [List.takeWhile_append_of_pos hs]
  cases t with
  | nil => simp
  | cons c t => simp [ht c rfl]

theorem dropWhile_append_end {α : Type} {p : α → Bool} {s t : List α} (hs : ∀ c ∈ s, p c = true)
    (ht : ∀ c ∈ t.head?, p c = false) : (s ++ t).dropWhile p = t := by
  rw [List.dropWhile_append_of_pos hs]
  cases t with
  | nil => rfl
  | cons c t => simp [ht c rfl]

theorem blanks_append {k : Nat} {s : Bytes} (hs : ∀ c ∈ s.head?, Bytes.isBlank c = false) :
    Bytes.blanks (List.replicate k 32 ++ s) = k := by
  have hblank : ∀ c ∈ List.replicate k (32 : UInt8), Bytes.isBlank c = true := by
    intro c hc
    rw [List.eq_of_mem_replicate hc]
    rfl
  rw [Bytes.blanks, takeWhile_append_end hblank hs, List.length_replicate]

theorem sign_append (o : Option Bool) {s : Bytes} (hs : ∀ c ∈ s.head?, 48 ≤ c) :
    sign (signBytes o ++ s) = (o == some true, (signBytes o).length) := by
  cases o with
  | some negative => cases negative <;> rfl
  | none =>
    cases s with
    | nil => rfl
    | cons c s =>
      have hc := hs c rfl
      simp only [signBytes, List.nil_append]
      unfold sign
      split
      · rename_i h
        cases h
        exact absurd hc (by decide)
      · rename_i h
        cases h
        exact absurd hc (by decide)
      · rfl

theorem drop_opening (k : Nat) (o : Option Bool) (s : Bytes) :
    (List.replicate k 32 ++ (signBytes o ++ s)).drop (k + (signBytes o).length) = s := by
  rw [← List.drop_drop, List.drop_left' List.length_replicate, List.drop_left]

theorem opening_append (base k : Nat) (o : Option Bool) {s : Bytes}
    (hs : ∀ c ∈ s.head?, 48 ≤ c) :
    opening base (List.replicate k 32 ++ (signBytes o ++ s)) =
      if (base = 0 ∨ base = 16) ∧ marksSixteen s then
        ⟨o == some true, 16, k + (signBytes o).length + 2⟩
      else if base = 0 then
        ⟨o == some true, if s.head? = some 48 then 8 else 10, k + (signBytes o).length⟩
      else ⟨o == some true, base, k + (signBytes o).length⟩ := by
  have hhead : ∀ c ∈ (signBytes o ++ s).head?, Bytes.isBlank c = false := by
    intro c hc
    cases o with
    | none => exact not_blank_of_ge (hs c hc)
    | some negative =>
      cases negative <;> (cases hc; rfl)
  have hdrop : (List.replicate k 32 ++ (signBytes o ++ s)).drop k = signBytes o ++ s :=
    List.drop_left' List.length_replicate
  simp only [opening, blanks_append hhead, hdrop, sign_append o hs, drop_opening]

/-! ## Marks of base sixteen -/

theorem Run.mono {base base' : Nat} (hb : base ≤ base') {s : Bytes} (hs : Run base s) :
    Run base' s := by
  intro c hc
  obtain ⟨d,hd⟩ := Option.isSome_iff_exists.mp (hs c hc)
  obtain ⟨hv,hlt⟩ := Option.filter_eq_some_iff.mp hd
  have hlt : d < base' := Nat.lt_of_lt_of_le (by simpa using hlt) hb
  rw [digitIn?, hv]
  simp [hlt]

def isMarkLetter (c : UInt8) : Bool := c == 120 || c == 88

theorem mark_letter_no_digit {c : UInt8} (hc : isMarkLetter c = true) : digitIn? 16 c = none := by
  simp only [isMarkLetter, Bool.or_eq_true, beq_iff_eq] at hc
  rcases hc with rfl | rfl <;> rfl

theorem marksSixteen_run {s t : Bytes} (hs : Run 16 s) (hn : s ≠ [])
    (ht : ∀ c ∈ t.head?, isMarkLetter c = false) : marksSixteen (s ++ t) = false := by
  have hsecond : ∀ a x r, s ++ t = a :: x :: r → isMarkLetter x = false := by
    intro a x r he
    match s, hn with
    | [_], _ =>
      obtain ⟨-,rfl⟩ := List.cons.inj he
      exact ht x rfl
    | _ :: y :: _, _ =>
      obtain ⟨-,hxy⟩ := List.cons.inj he
      obtain ⟨rfl,-⟩ := List.cons.inj hxy
      by_contra hx
      have hnone := mark_letter_no_digit (by simpa using hx)
      have hsome := hs y (by simp)
      rw [hnone] at hsome
      cases hsome
  unfold marksSixteen
  split
  · rename_i x d r he
    have hx := hsecond _ _ _ he
    rw [isMarkLetter] at hx
    rw [hx]
    rfl
  · rfl

theorem marksSixteen_mark {x : UInt8} (hx : isMarkLetter x = true) {s t : Bytes} (hs : Run 16 s)
    (hn : s ≠ []) : marksSixteen (48 :: x :: (s ++ t)) = true := by
  cases s with
  | nil => exact absurd rfl hn
  | cons d s =>
    rw [isMarkLetter] at hx
    simp only [List.cons_append, marksSixteen, hx, hs d (by simp), Bool.and_true]

/-! ## Magnitudes -/

theorem magnitude_run {base b off : Nat} {bound : Bool → Nat} {negative : Bool}
    {text s t : Bytes} (hbase : base ≠ 1 ∧ base ≤ 36) (hb : 0 < b)
    (ho : opening base text = ⟨negative,b,off⟩) (hd : text.drop off = s ++ t) (hs : Run b s)
    (hn : s ≠ []) (ht : Ends b t) (hv : valueFrom b 0 s ≤ bound negative) :
    magnitude base bound text = .ok ⟨negative,valueFrom b 0 s,off + s.length,false⟩ := by
  have hlen : s.length ≠ 0 := fun h => hn (List.length_eq_zero_iff.mp h)
  have hok : ¬(base = 1 ∨ 36 < base) := by omega
  simp only [magnitude, if_neg hok, ho, hd, accumulate_run hb hs ht 0 hv]
  rw [if_neg fun h => hlen h.1]

theorem head_ge {b : Nat} {s t : Bytes} (hs : Run b s) (hn : s ≠ []) :
    ∀ c ∈ (s ++ t).head?, 48 ≤ c := by
  intro c hc
  cases s with
  | nil => exact absurd rfl hn
  | cons d s =>
    cases hc
    exact zero_le_of_digit (hs c (by simp))

section

variable {base k : Nat} {o : Option Bool} {bound : Bool → Nat} {s t : Bytes}

theorem magnitude_plain (hl : 2 ≤ base) (hu : base ≤ 36) (hs : Run base s) (hn : s ≠ [])
    (ht : Ends base t) (hm : base = 16 → marksSixteen (s ++ t) = false)
    (hv : valueFrom base 0 s ≤ bound (o == some true)) :
    magnitude base bound (List.replicate k 32 ++ (signBytes o ++ (s ++ t))) =
      .ok ⟨o == some true,valueFrom base 0 s,k + (signBytes o).length + s.length,false⟩ := by
  have hno : ¬((base = 0 ∨ base = 16) ∧ marksSixteen (s ++ t) = true) := by
    rintro ⟨hb | hb,hmark⟩
    · omega
    · rw [hm hb] at hmark
      cases hmark
  apply magnitude_run ⟨by omega,hu⟩ (by omega) _ (drop_opening k o (s ++ t)) hs hn ht hv
  rw [opening_append base k o (head_ge hs hn), if_neg hno, if_neg (by omega)]

theorem magnitude_marked (hbase : base = 0 ∨ base = 16) {x : UInt8} (hx : isMarkLetter x = true)
    (hs : Run 16 s) (hn : s ≠ []) (ht : Ends 16 t)
    (hv : valueFrom 16 0 s ≤ bound (o == some true)) :
    magnitude base bound (List.replicate k 32 ++ (signBytes o ++ (48 :: x :: (s ++ t)))) =
      .ok ⟨o == some true,valueFrom 16 0 s,k + (signBytes o).length + 2 + s.length,false⟩ := by
  have hhead : ∀ c ∈ (48 :: x :: (s ++ t)).head?, 48 ≤ c := by
    intro c hc
    cases hc
    decide
  apply magnitude_run ⟨by omega,by omega⟩ (by omega) _ _ hs hn ht hv
  · rw [opening_append base k o hhead, if_pos ⟨hbase,marksSixteen_mark hx hs hn⟩]
  · rw [← List.drop_drop, drop_opening]
    rfl

theorem magnitude_octal (hs : Run 8 s) (hz : s.head? = some 48) (ht : Ends 8 t)
    (hm : ∀ c ∈ t.head?, isMarkLetter c = false)
    (hv : valueFrom 8 0 s ≤ bound (o == some true)) :
    magnitude 0 bound (List.replicate k 32 ++ (signBytes o ++ (s ++ t))) =
      .ok ⟨o == some true,valueFrom 8 0 s,k + (signBytes o).length + s.length,false⟩ := by
  have hn : s ≠ [] := by
    rintro rfl
    cases hz
  have hmark := marksSixteen_run (hs.mono (by omega)) hn hm
  have hhead : (s ++ t).head? = some 48 := by
    rw [List.head?_append, hz]
    rfl
  apply magnitude_run ⟨by omega,by omega⟩ (by omega) _ (drop_opening k o (s ++ t)) hs hn ht hv
  rw [opening_append 0 k o (head_ge hs hn), if_neg (by simp [hmark]), if_pos rfl, if_pos hhead]

theorem magnitude_decimal (hs : Run 10 s) (hn : s ≠ []) (hz : s.head? ≠ some 48)
    (ht : Ends 10 t) (hv : valueFrom 10 0 s ≤ bound (o == some true)) :
    magnitude 0 bound (List.replicate k 32 ++ (signBytes o ++ (s ++ t))) =
      .ok ⟨o == some true,valueFrom 10 0 s,k + (signBytes o).length + s.length,false⟩ := by
  obtain ⟨c,r,rfl⟩ := List.exists_cons_of_ne_nil hn
  have hc : c ≠ 48 := fun h => hz (by rw [h]; rfl)
  have hmark : marksSixteen (c :: r ++ t) = false := by
    unfold marksSixteen
    split
    · rename_i he
      exact absurd (List.cons.inj he).1 hc
    · rfl
  have hhead : (c :: r ++ t).head? ≠ some 48 := by simpa using hc
  apply magnitude_run ⟨by omega,by omega⟩ (by omega) _ (drop_opening k o _) hs hn ht hv
  rw [opening_append 0 k o (head_ge hs hn), hmark, if_neg (by simp), if_pos rfl, if_neg hhead]

theorem magnitude_natural (hl : 2 ≤ base) (hu : base ≤ 16) (upper : Bool) {n : Nat}
    (hn : n ≤ bound (o == some true)) (ht : Ends base t)
    (hm : ∀ c ∈ t.head?, isMarkLetter c = false) :
    magnitude base bound (signBytes o ++ (natural base upper n ++ t)) =
      .ok ⟨o == some true,n,(signBytes o).length + (natural base upper n).length,false⟩ := by
  have hrun := run_natural hl hu upper n
  have hne := natural_ne_nil base upper n
  have hval := valueFrom_natural hl hu upper n
  rw [← hval] at hn
  have hmark : base = 16 → marksSixteen (natural base upper n ++ t) = false :=
    fun hb => marksSixteen_run (hb ▸ hrun) hne hm
  have hread := magnitude_plain (k := 0) hl (by omega) hrun hne ht hmark hn
  rw [hval, Nat.zero_add] at hread
  exact hread

end

theorem integer_eq (base : Nat) (i : Int) : ∃ o, (o == some true) = decide (i < 0) ∧
    integer base i = signBytes o ++ natural base false i.natAbs := by
  by_cases hi : i < 0
  · exact ⟨some true,by simp [hi],by simp [integer, hi, signBytes]⟩
  · exact ⟨none,by simp [hi],by simp [integer, hi, signBytes]⟩

/-! ## Integers of 64 bits -/

theorem natAbs_le_signedBound {v : Int} (hl : -9223372036854775808 ≤ v)
    (hu : v < 9223372036854775808) :
    v.natAbs ≤ Width.bits64.signedBound (decide (v < 0)) := by
  have hneg : Width.bits64.signedBound true = 9223372036854775808 := rfl
  have hpos : Width.bits64.signedBound false = 9223372036854775807 := rfl
  by_cases hlt : v < 0
  · rw [decide_eq_true hlt]
    omega
  · rw [decide_eq_false hlt]
    omega

theorem parseSigned_eq {base : Nat} {out : Bytes} {v : Int} {rest : Nat}
    (h : magnitude base Width.bits64.signedBound out = .ok ⟨decide (v < 0),v.natAbs,rest,false⟩) :
    parseSigned .bits64 base out = .ok ⟨v,rest,false⟩ := by
  have hv : (if decide (v < 0) then -(v.natAbs : Int) else v.natAbs) = v := by
    split_ifs with hneg
    · have := of_decide_eq_true hneg
      omega
    · have : ¬v < 0 := fun h => hneg (decide_eq_true h)
      omega
  simp only [parseSigned, h, Except.map, hv]

theorem parseUnsigned_eq {base : Nat} {out : Bytes} {n rest : Nat}
    (h : magnitude base (fun _ => Width.bits64.unsignedBound) out = .ok ⟨false,n,rest,false⟩) :
    parseUnsigned .bits64 base out = .ok ⟨n,rest,false⟩ := by
  simp only [parseUnsigned, h, Except.map, Bool.false_and, Bool.false_eq_true, if_false]

section

variable {base : Nat} {t : Bytes}

theorem parseUnsigned_natural (hl : 2 ≤ base) (hu : base ≤ 16) (upper : Bool) (v : UInt64)
    (ht : Ends base t) (hm : ∀ c ∈ t.head?, isMarkLetter c = false) :
    parseUnsigned .bits64 base (natural base upper v.toNat ++ t) =
      .ok ⟨v.toNat,(natural base upper v.toNat).length,false⟩ := by
  have hle : v.toNat ≤ Width.bits64.unsignedBound := Nat.le_pred_of_lt v.toNat_lt
  have hread := @magnitude_natural base none (fun _ => Width.bits64.unsignedBound) t hl hu upper _
    hle ht hm
  apply parseUnsigned_eq
  simpa [signBytes] using hread

theorem parseSigned_integer (hl : 2 ≤ base) (hu : base ≤ 16) (v : Int64) (ht : Ends base t)
    (hm : ∀ c ∈ t.head?, isMarkLetter c = false) :
    parseSigned .bits64 base (integer base v.toInt ++ t) =
      .ok ⟨v.toInt,(integer base v.toInt).length,false⟩ := by
  obtain ⟨o,ho,hint⟩ := integer_eq base v.toInt
  have hle := natAbs_le_signedBound v.le_toInt v.toInt_lt
  rw [← ho] at hle
  apply parseSigned_eq
  rw [hint, ← ho, List.append_assoc, List.length_append]
  exact magnitude_natural hl hu false hle ht hm

end

end Freestanding.Numeral
