import Freestanding.Proofs.Numeral.Reading

/-!
# Integers of any spelling

Every byte string is spelled as blanks, a sign, a mark of base sixteen, a run
of digits and what is left, each part as long as it can be. What is read off
it is decided by the run alone: nothing when it is empty, its exact value when
that is within the bound of its sign, and else the bound, where reading stops
at the first digit that takes the value past it.
-/

set_option autoImplicit false

namespace Freestanding.Numeral

def Marked (s : Bytes) : Prop :=
  ∃ x d r, s = 48 :: x :: d :: r ∧ (x = 120 ∨ x = 88) ∧ (digitIn? 16 d).isSome = true

def baseInForce (base : Nat) (mark next : Bytes) : Nat :=
  if mark ≠ [] then 16
  else if base = 0 then if next.head? = some 48 then 8 else 10
  else base

/-- A byte string in its parts, for a base that is asked for. No part could
take more of the bytes behind it. -/
structure Spelling (base : Nat) where
  blanks : Bytes
  sign : Option Bool
  mark : Bytes
  digits : Bytes
  rest : Bytes
  blank : ∀ c ∈ blanks, Bytes.isBlank c = true
  blanks_end : ∀ c ∈ (signBytes sign ++ (mark ++ (digits ++ rest))).head?, Bytes.isBlank c = false
  sign_end : sign = none → ∀ c ∈ (mark ++ (digits ++ rest)).head?, c ≠ 45 ∧ c ≠ 43
  mark_length : mark = [] ∨ mark.length = 2
  mark_iff : mark ≠ [] ↔ (base = 0 ∨ base = 16) ∧ Marked (mark ++ (digits ++ rest))
  run : Run (baseInForce base mark (digits ++ rest)) digits
  ends : Ends (baseInForce base mark (digits ++ rest)) rest

namespace Spelling

variable {base : Nat}

def text (t : Spelling base) : Bytes :=
  t.blanks ++ (signBytes t.sign ++ (t.mark ++ (t.digits ++ t.rest)))

def negative (t : Spelling base) : Bool := t.sign == some true

def radix (t : Spelling base) : Nat := baseInForce base t.mark (t.digits ++ t.rest)

def start (t : Spelling base) : Nat :=
  t.blanks.length + (signBytes t.sign).length + t.mark.length

def finish (t : Spelling base) : Nat := t.start + t.digits.length

def valueUpTo (t : Spelling base) (n : Nat) : Nat := valueFrom t.radix 0 (t.digits.take n)

def value (t : Spelling base) : Nat := valueFrom t.radix 0 t.digits

end Spelling

/-! ## Every byte string has a spelling -/

theorem exists_sign (s : Bytes) :
    ∃ o r, s = signBytes o ++ r ∧ (o = none → ∀ c ∈ r.head?, c ≠ 45 ∧ c ≠ 43) := by
  cases s with
  | nil => exact ⟨none,[],rfl,by simp⟩
  | cons c s =>
    by_cases hm : c = 45
    · exact ⟨some true,s,by rw [hm]; rfl,by simp⟩
    by_cases hp : c = 43
    · exact ⟨some false,s,by rw [hp]; rfl,by simp⟩
    · exact ⟨none,c :: s,rfl,by simp [hm, hp]⟩

theorem exists_mark (base : Nat) (s : Bytes) :
    ∃ m r, s = m ++ r ∧ (m = [] ∨ m.length = 2) ∧
      (m ≠ [] ↔ (base = 0 ∨ base = 16) ∧ Marked (m ++ r)) := by
  by_cases hm : (base = 0 ∨ base = 16) ∧ Marked s
  · obtain ⟨x,d,r,hs,-⟩ := hm.2
    refine ⟨[48,x],d :: r,hs,Or.inr rfl,?_⟩
    have hcat : [48,x] ++ d :: r = s := hs.symm
    rw [hcat]
    simpa using hm
  · exact ⟨[],s,rfl,Or.inl rfl,by simpa using hm⟩

theorem head_dropWhile {α : Type} (p : α → Bool) (s : List α) :
    ∀ c ∈ (s.dropWhile p).head?, p c = false := by
  intro c hc
  have hn := List.head?_dropWhile_not p s
  rwa [Option.mem_def.mp hc] at hn

theorem exists_run (base : Nat) (s : Bytes) :
    ∃ d r, s = d ++ r ∧ Run base d ∧ Ends base r := by
  let p := fun c => (digitIn? base c).isSome
  refine ⟨s.takeWhile p,s.dropWhile p,List.takeWhile_append_dropWhile.symm,?_,?_⟩
  · intro c hc
    exact List.all_eq_true.mp List.all_takeWhile c hc
  · intro c hc
    have hn := head_dropWhile p s c hc
    simpa [p] using hn

theorem exists_spelling (base : Nat) (s : Bytes) : ∃ t : Spelling base, t.text = s := by
  have hb := head_dropWhile Bytes.isBlank s
  obtain ⟨o,r₁,h₁,ho⟩ := exists_sign (s.dropWhile Bytes.isBlank)
  obtain ⟨m,r₂,rfl,hl,hm⟩ := exists_mark base r₁
  obtain ⟨d,r₃,rfl,hd,he⟩ := exists_run (baseInForce base m r₂) r₂
  rw [h₁] at hb
  refine ⟨⟨s.takeWhile Bytes.isBlank,o,m,d,r₃,?_,hb,ho,hl,hm,hd,he⟩,?_⟩
  · intro c hc
    exact List.all_eq_true.mp List.all_takeWhile c hc
  · rw [Spelling.text, ← h₁]
    exact List.takeWhile_append_dropWhile

/-! ## The opening of a spelling -/

theorem marksSixteen_iff (s : Bytes) : marksSixteen s = true ↔ Marked s := by
  constructor
  · intro h
    unfold marksSixteen at h
    split at h
    · rename_i x d r
      simp only [Bool.and_eq_true, Bool.or_eq_true, beq_iff_eq] at h
      exact ⟨x,d,r,rfl,h⟩
    · cases h
  · rintro ⟨x,d,r,rfl,hx,hd⟩
    simp [marksSixteen, hx, hd]

theorem sign_signBytes {o : Option Bool} {r : Bytes}
    (h : o = none → ∀ c ∈ r.head?, c ≠ 45 ∧ c ≠ 43) :
    sign (signBytes o ++ r) = (o == some true, (signBytes o).length) := by
  cases o with
  | some negative => cases negative <;> rfl
  | none =>
    cases r with
    | nil => rfl
    | cons c r =>
      have hc := h rfl c rfl
      show sign (c :: r) = (false, 0)
      unfold sign
      split
      · rename_i he
        exact absurd (List.cons.inj he).1 hc.1
      · rename_i he
        exact absurd (List.cons.inj he).1 hc.2
      · rfl

namespace Spelling

variable {base : Nat}

theorem drop_start (t : Spelling base) : t.text.drop t.start = t.digits ++ t.rest := by
  rw [text, start, ← List.drop_drop, ← List.drop_drop, List.drop_left, List.drop_left,
    List.drop_left]

theorem opening_text (t : Spelling base) :
    opening base t.text = ⟨t.negative,t.radix,t.start⟩ := by
  have hblanks : Bytes.blanks t.text = t.blanks.length := by
    rw [Bytes.blanks, text, takeWhile_append_end t.blank t.blanks_end]
  have hdrop : t.text.drop t.blanks.length =
      signBytes t.sign ++ (t.mark ++ (t.digits ++ t.rest)) := List.drop_left
  have hbody : t.text.drop (t.blanks.length + (signBytes t.sign).length) =
      t.mark ++ (t.digits ++ t.rest) := by
    rw [← List.drop_drop, hdrop, List.drop_left]
  have hsign := sign_signBytes t.sign_end
  have hiff := t.mark_iff
  rw [← marksSixteen_iff] at hiff
  simp only [opening, hblanks, hdrop, hsign, hbody]
  by_cases hm : t.mark = []
  · have hno : ¬((base = 0 ∨ base = 16) ∧ marksSixteen (t.mark ++ (t.digits ++ t.rest)) = true) :=
      fun h => hiff.mpr h hm
    rw [if_neg hno]
    by_cases hz : base = 0
    · simp [hz, hm, negative, radix, start, baseInForce]
    · simp [hz, hm, negative, radix, start, baseInForce]
  · have htwo := t.mark_length.resolve_left hm
    rw [if_pos (hiff.mp hm)]
    simp [hm, htwo, negative, radix, start, baseInForce]

theorem radix_pos (t : Spelling base) : 0 < t.radix := by
  unfold radix baseInForce
  split_ifs <;> omega

end Spelling

/-! ## Magnitudes -/

theorem accumulate_clamped {base limit : Nat} (hb : 0 < base) {s : Bytes} (hs : Run base s)
    (t : Bytes) {v : Nat} (hv : v ≤ limit) (ho : limit < valueFrom base v s) :
    ∃ k < s.length, (∀ j ≤ k, valueFrom base v (s.take j) ≤ limit) ∧
      limit < valueFrom base v (s.take (k + 1)) ∧
      accumulate base limit v (s ++ t) = (limit, k, true) := by
  induction s generalizing v with
  | nil => exact absurd ho (Nat.not_lt.mpr hv)
  | cons c s ih =>
    obtain ⟨d,hd⟩ := Option.isSome_iff_exists.mp (hs c (by simp))
    have hval : ∀ r, valueFrom base v (c :: r) = valueFrom base (v * base + d) r := by
      intro r
      simp [valueFrom, hd]
    by_cases hlt : limit < v * base + d
    · refine ⟨0,by simp,?_,?_,?_⟩
      · intro j hj
        rw [Nat.le_zero.mp hj]
        exact hv
      · rw [List.take_succ_cons, hval]
        exact hlt
      · simp only [List.cons_append, accumulate, hd, if_pos ((exceeds_iff hb _ _ _).mpr hlt)]
    · rw [hval] at ho
      obtain ⟨k,hk,hle,hgt,hacc⟩ := ih (fun e he => hs e (by simp [he])) (Nat.not_lt.mp hlt) ho
      refine ⟨k + 1,by simpa using hk,?_,?_,?_⟩
      · intro j hj
        cases j with
        | zero => exact hv
        | succ j =>
          rw [List.take_succ_cons, hval]
          exact hle j (by omega)
      · rw [List.take_succ_cons, hval]
        exact hgt
      · simp only [List.cons_append, accumulate, hd, if_neg (mt (exceeds_iff hb _ _ _).mp hlt), hacc]

namespace Spelling

variable {base : Nat} {bound : Bool → Nat}

theorem magnitude_empty (hb : base ≠ 1 ∧ base ≤ 36) (t : Spelling base) (hd : t.digits = []) :
    magnitude base bound t.text = .ok ⟨false,0,0,false⟩ := by
  have hok : ¬(base = 1 ∨ 36 < base) := by omega
  have hrest : t.text.drop t.start = t.rest := by rw [t.drop_start, hd, List.nil_append]
  have hend : accumulate t.radix (bound t.negative) 0 t.rest = (0, 0, false) :=
    accumulate_end t.ends
  simp only [magnitude, if_neg hok, t.opening_text, hrest, hend]
  rfl

theorem magnitude_within (hb : base ≠ 1 ∧ base ≤ 36) (t : Spelling base) (hd : t.digits ≠ [])
    (hv : t.value ≤ bound t.negative) :
    magnitude base bound t.text = .ok ⟨t.negative,t.value,t.finish,false⟩ :=
  magnitude_run hb t.radix_pos t.opening_text t.drop_start t.run hd t.ends hv

theorem magnitude_clamped (hb : base ≠ 1 ∧ base ≤ 36) (t : Spelling base)
    (hv : bound t.negative < t.value) :
    ∃ k < t.digits.length, (∀ j ≤ k, t.valueUpTo j ≤ bound t.negative) ∧
      bound t.negative < t.valueUpTo (k + 1) ∧
      magnitude base bound t.text = .ok ⟨t.negative,bound t.negative,t.start + k,true⟩ := by
  have hok : ¬(base = 1 ∨ 36 < base) := by omega
  obtain ⟨k,hk,hle,hgt,hacc⟩ := accumulate_clamped t.radix_pos t.run t.rest (Nat.zero_le _) hv
  refine ⟨k,hk,hle,hgt,?_⟩
  have hacc' : accumulate t.radix (bound t.negative) 0 (t.digits ++ t.rest) =
      (bound t.negative, k, true) := hacc
  simp only [magnitude, if_neg hok, t.opening_text, t.drop_start, hacc']
  rw [if_neg (by simp)]

theorem finish_le (t : Spelling base) : t.finish ≤ t.text.length := by
  simp only [finish, start, text, List.length_append]
  omega

end Spelling

theorem magnitude_rest_le {base : Nat} {bound : Bool → Nat} {s : Bytes} {m : Magnitude}
    (h : magnitude base bound s = .ok m) : m.rest ≤ s.length := by
  by_cases hbad : base = 1 ∨ 36 < base
  · simp [magnitude, hbad] at h
  have hb : base ≠ 1 ∧ base ≤ 36 := by omega
  obtain ⟨t,rfl⟩ := exists_spelling base s
  by_cases hd : t.digits = []
  · rw [t.magnitude_empty hb hd] at h
    cases h
    exact Nat.zero_le _
  by_cases hv : t.value ≤ bound t.negative
  · rw [t.magnitude_within hb hd hv] at h
    cases h
    exact t.finish_le
  · obtain ⟨k,hk,-,-,hm⟩ := t.magnitude_clamped hb (Nat.not_le.mp hv)
    rw [hm] at h
    cases h
    have hfinish := t.finish_le
    rw [Spelling.finish] at hfinish
    show t.start + k ≤ t.text.length
    omega

/-! ## Integers -/

/-- What is read off a spelling within a bound, when `whole` stands for the
value of its digits and `clamped` for the bound. -/
structure Exact {base : Nat} {α : Type} [OfNat α 0] (t : Spelling base) (bound : Nat)
    (whole clamped : α) (p : Parsed α) : Prop where
  empty : t.digits = [] → p = ⟨0,0,false⟩
  within : t.digits ≠ [] → t.value ≤ bound → p = ⟨whole,t.finish,false⟩
  beyond : bound < t.value → ∃ k < t.digits.length, (∀ j ≤ k, t.valueUpTo j ≤ bound) ∧
    bound < t.valueUpTo (k + 1) ∧ p = ⟨clamped,t.start + k,true⟩

theorem exact_of_magnitude {base : Nat} {α : Type} [OfNat α 0] (hb : base ≠ 1 ∧ base ≤ 36)
    (t : Spelling base) {bound : Bool → Nat} {f : Magnitude → Parsed α} {whole clamped : α}
    (hzero : f ⟨false,0,0,false⟩ = ⟨0,0,false⟩)
    (hwhole : t.value ≤ bound t.negative → ∀ n, f ⟨t.negative,t.value,n,false⟩ = ⟨whole,n,false⟩)
    (hclamped : ∀ n, f ⟨t.negative,bound t.negative,n,true⟩ = ⟨clamped,n,true⟩) :
    ∃ p, (magnitude base bound t.text).map f = .ok p ∧
      Exact t (bound t.negative) whole clamped p := by
  by_cases hd : t.digits = []
  · have hz : t.value = 0 := by rw [Spelling.value, hd]; rfl
    rw [t.magnitude_empty hb hd]
    exact ⟨_,rfl,fun _ => hzero,fun h => absurd hd h,fun h => by omega⟩
  by_cases hv : t.value ≤ bound t.negative
  · rw [t.magnitude_within hb hd hv]
    exact ⟨_,rfl,fun h => absurd h hd,fun _ _ => hwhole hv _,fun h => by omega⟩
  · obtain ⟨k,hk,hle,hgt,hm⟩ := t.magnitude_clamped hb (Nat.not_le.mp hv)
    rw [hm]
    exact ⟨_,rfl,fun h => absurd h hd,fun _ h => absurd h hv,fun _ => ⟨k,hk,hle,hgt,hclamped _⟩⟩

theorem signed_exact {base : Nat} (hb : base ≠ 1 ∧ base ≤ 36) (w : Width) (t : Spelling base) :
    ∃ p, parseSigned w base t.text = .ok p ∧
      Exact t (if t.negative then w.count / 2 else w.count / 2 - 1)
        (if t.negative then -(t.value : Int) else t.value)
        (if t.negative then -((w.count / 2 : Nat) : Int) else ((w.count / 2 - 1 : Nat) : Int)) p := by
  apply exact_of_magnitude hb t
  · rfl
  · intro _ n
    rfl
  · intro n
    cases t.negative <;> rfl

theorem negated_eq (w : Width) {v : Nat} (hv : v ≤ w.count - 1) :
    (w.count - v) % w.count = ((-(v : Int)) % w.count).toNat := by
  cases w <;> simp only [Width.count] at hv ⊢ <;> omega

theorem unsigned_exact {base : Nat} (hb : base ≠ 1 ∧ base ≤ 36) (w : Width) (t : Spelling base) :
    ∃ p, parseUnsigned w base t.text = .ok p ∧
      Exact t (w.count - 1) (if t.negative then ((-(t.value : Int)) % w.count).toNat else t.value)
        (w.count - 1) p := by
  apply exact_of_magnitude hb t
  · rfl
  · intro hv n
    cases hn : t.negative with
    | false => rfl
    | true => simp [negated_eq w hv]
  · intro n
    cases t.negative <;> rfl

/-- Integers are read exactly and clamped at the bounds of their width. The
base is zero or from two to thirty-six; no other base is taken. -/
theorem integers_read_exactly (w : Width) (base : Nat) (s : Bytes) :
    (base = 0 ∨ 2 ≤ base ∧ base ≤ 36 → (∃ t : Spelling base, t.text = s) ∧
      ∀ t : Spelling base, t.text = s →
        (∃ p, parseSigned w base s = .ok p ∧
          Exact t (if t.negative then w.count / 2 else w.count / 2 - 1)
            (if t.negative then -(t.value : Int) else t.value)
            (if t.negative then -((w.count / 2 : Nat) : Int) else ((w.count / 2 - 1 : Nat) : Int))
            p) ∧
        ∃ p, parseUnsigned w base s = .ok p ∧
          Exact t (w.count - 1)
            (if t.negative then ((-(t.value : Int)) % w.count).toNat else t.value)
            (w.count - 1) p) ∧
    (¬(base = 0 ∨ 2 ≤ base ∧ base ≤ 36) →
      parseSigned w base s = .error (.invalidBase base) ∧
        parseUnsigned w base s = .error (.invalidBase base)) := by
  constructor
  · intro hb
    refine ⟨exists_spelling base s,?_⟩
    rintro t rfl
    exact ⟨signed_exact (by omega) w t,unsigned_exact (by omega) w t⟩
  · intro hb
    have hbad : base = 1 ∨ 36 < base := by omega
    simp only [parseSigned, parseUnsigned, magnitude, if_pos hbad]
    exact ⟨rfl,rfl⟩

theorem marked_bytes_read_exactly :
    parseSigned .bits8 0 [32, 45, 48, 120, 56, 49, 103] = .ok ⟨-128,5,true⟩ ∧
    parseUnsigned .bits8 0 [32, 45, 48, 120, 56, 49, 103] = .ok ⟨127,6,false⟩ ∧
    ∃ t : Spelling 0, t.text = [32, 45, 48, 120, 56, 49, 103] ∧
      (∃ p, parseSigned .bits8 0 t.text = .ok p ∧
        Exact t (if t.negative then 128 else 127)
          (if t.negative then -(t.value : Int) else t.value)
          (if t.negative then -128 else 127) p) ∧
      ∃ p, parseUnsigned .bits8 0 t.text = .ok p ∧
        Exact t 255 (if t.negative then ((-(t.value : Int)) % 256).toNat else t.value) 255 p := by
  have hread := (integers_read_exactly .bits8 0 [32, 45, 48, 120, 56, 49, 103]).1 (Or.inl rfl)
  obtain ⟨t,ht⟩ := hread.1
  refine ⟨rfl,rfl,t,ht,?_⟩
  rw [ht]
  exact hread.2 t ht

end Freestanding.Numeral
