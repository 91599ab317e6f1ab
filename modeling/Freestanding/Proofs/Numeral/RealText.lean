import Freestanding.Proofs.Binary64.Tenfold
import Freestanding.Proofs.Numeral.Longest

/-!
# The text of a real

Dividing by ten takes three from the exponent of a double and multiplying puts
three binary places on it, so the loops that write a real come to their ends
before their steps do. What is written has one form for all finite reals, and
reading takes it to its last byte.
-/

set_option autoImplicit false

namespace Freestanding.Numeral

open Binary64

/-! ## Loops that count their steps -/

/-- A loop that goes on while its guard holds, for as many steps as it is given. -/
structure Stepped {σ ρ : Type} (loop : Nat → σ → ρ) (guard : σ → Prop) (step : σ → σ)
    (out : σ → ρ) : Prop where
  zero : ∀ s, loop 0 s = out s
  next : ∀ n s, guard s → loop (n + 1) s = loop n (step s)
  leave : ∀ n s, ¬guard s → loop (n + 1) s = out s

section Stepped

variable {σ ρ : Type} {loop : Nat → σ → ρ} {guard : σ → Prop} {step : σ → σ} {out : σ → ρ}

theorem Stepped.enough (hl : Stepped loop guard step out) {p : Nat → σ → Prop}
    (hstop : ∀ s, p 0 s → ¬guard s)
    (hstep : ∀ n s, p (n + 1) s → guard s → p n (step s)) {n : Nat} (k : Nat) {s : σ}
    (hs : p n s) : loop (n + k) s = loop n s := by
  induction n generalizing s with
  | zero =>
    cases k with
    | zero => rfl
    | succ k => rw [← Nat.add_assoc, hl.leave (0 + k) s (hstop s hs), hl.zero]
  | succ n ih =>
    rw [Nat.add_right_comm]
    by_cases hg : guard s
    · rw [hl.next (n + k) s hg, hl.next n s hg]
      exact ih (hstep n s hs hg)
    · rw [hl.leave (n + k) s hg, hl.leave n s hg]

theorem Stepped.keeps (hl : Stepped loop guard step out) {p : σ → Prop}
    (hstep : ∀ s, p s → guard s → p (step s)) (n : Nat) {s : σ} (hs : p s) :
    ∃ s', p s' ∧ loop n s = out s' := by
  induction n generalizing s with
  | zero => exact ⟨s,hs,hl.zero s⟩
  | succ n ih =>
    by_cases hg : guard s
    · rw [hl.next n s hg]
      exact ih (hstep s hs hg)
    · exact ⟨s,hs,hl.leave n s hg⟩

end Stepped

theorem peelWhole_stepped : Stepped (fun n s => peelWhole n s.1 s.2) (fun s => s.1 ≥ 1.0)
    (fun s => (dropFraction (s.1 / 10.0),lastDigit s.1 :: s.2)) Prod.snd where
  zero _ := rfl
  next _ _ hg := if_pos hg
  leave _ _ hg := if_neg hg

theorem scaleDown_stepped : Stepped (fun n s => scaleDown n s.1 s.2) (fun s => s.1 ≥ 10.0)
    (fun s => (s.1 / 10.0,s.2 + 1)) id where
  zero _ := rfl
  next _ _ hg := if_pos hg
  leave _ _ hg := if_neg hg

theorem scaleUp_stepped : Stepped (fun n s => scaleUp n s.1 s.2) (fun s => s.1 < 1.0)
    (fun s => (s.1 * 10.0,s.2 - 1)) id where
  zero _ := rfl
  next _ _ hg := if_pos hg
  leave _ _ hg := if_neg hg

/-! ## The steps that are enough -/

theorem positive_one : Positive 1.0 4503599627370496 (-52) := ⟨by decide,rfl⟩

theorem below_one_iff {x : Float} {m : Nat} {e : Int} (hx : Positive x m e) :
    x < 1.0 ↔ e ≤ -53 := by
  have hfull := hx.canonical.full
  rw [hx.lt_iff_parts positive_one]
  omega

theorem peelWhole_steps {n : Nat} (k : Nat) {x : Float} (hx : Below (3 * n - 53) x) (t : Bytes) :
    peelWhole (n + k) x t = peelWhole n x t := by
  apply peelWhole_stepped.enough (s := (x,t)) (p := fun n s => Below (3 * n - 53) s.1) _ _ k hx
  · intro s hs hg
    obtain ⟨m,e,-,hlow,hhigh⟩ := hs.of_ge positive_one hg
    omega
  · intro n s hs hg
    obtain ⟨m,e,hp,hlow,hhigh⟩ := hs.of_ge positive_one hg
    obtain ⟨m',e',hp',htenth⟩ := hp.tenth hlow
    exact hp'.dropFraction_below.mono (by omega)

theorem scaleDown_steps {n : Nat} (k : Nat) {x : Float} (hx : Below (3 * n - 50) x) (j : Int) :
    scaleDown (n + k) x j = scaleDown n x j := by
  apply scaleDown_stepped.enough (s := (x,j)) (p := fun n s => Below (3 * n - 50) s.1) _ _ k hx
  · intro s hs hg
    obtain ⟨m,e,-,hlow,hhigh⟩ := hs.of_ge positive_ten hg
    omega
  · intro n s hs hg
    obtain ⟨m,e,hp,hlow,hhigh⟩ := hs.of_ge positive_ten hg
    obtain ⟨m',e',hp',htenth⟩ := hp.tenth (by omega)
    exact hp'.below (by omega)

theorem scaleUp_steps {n : Nat} (k : Nat) {x : Float} (hx : FromPlace (-3 * n) x) (j : Int) :
    scaleUp (n + k) x j = scaleUp n x j := by
  apply scaleUp_stepped.enough (s := (x,j)) (p := fun n s => FromPlace (-3 * n) s.1) _ _ k hx
  · rintro s ⟨m,e,hp,hlevel⟩ hg
    have hlog := hp.log2_lt
    have he := (below_one_iff hp).mp hg
    omega
  · rintro n s ⟨m,e,hp,hlevel⟩ hg
    obtain ⟨m',e',hp',hup⟩ := hp.tenfold ((below_one_iff hp).mp hg)
    exact ⟨m',e',hp',by omega⟩

/-! ## Whole parts and powers of ten -/

def wholeWithin (n : Nat) (x : Float) : Bytes :=
  if x < wordEnd then natural 10 false x.toUInt64.toNat
  else peelWhole n (dropFraction (x / 10.0)) [lastDigit x]

def normaliseWithin (n : Nat) (x : Float) : Float × Int :=
  if x == 0.0 then (x,0) else scaleUp n (scaleDown n x 0).1 (scaleDown n x 0).2

theorem positive_wordEnd : Positive wordEnd 4503599627370496 12 := ⟨by decide,rfl⟩

theorem positive_of_wordEnd {x : Float} (hx : Below 971 x) (h : ¬ x < wordEnd) :
    ∃ m e, Positive x m e ∧ 12 ≤ e := by
  rcases hx with hz | ⟨m,e,hp,hb⟩
  · exact absurd (hz.lt_positive positive_wordEnd) h
  · rw [hp.lt_iff_parts positive_wordEnd] at h
    exact ⟨m,e,hp,by omega⟩

theorem wholeWithin_eq {x : Float} (hx : Below 971 x) {n : Nat} (hn : wholeSteps ≤ n) :
    wholeWithin n x = wholeText x := by
  rw [wholeWithin, wholeText]
  by_cases h : x < wordEnd
  · rw [if_pos h, if_pos h]
  · obtain ⟨m,e,hp,he⟩ := positive_of_wordEnd hx h
    obtain ⟨m',e',hp',htenth⟩ := hp.tenth (by omega)
    have hgreatest := hp.canonical.greatest
    have hbelow : Below (3 * wholeSteps - 53) (dropFraction (x / 10.0)) :=
      hp'.dropFraction_below.mono (by rw [wholeSteps]; omega)
    rw [if_neg h, if_neg h, ← Nat.add_sub_cancel' hn, peelWhole_steps _ hbelow]

theorem scaleDown_fromPlace (n : Nat) {x : Float} (hx : FromPlace (-1074) x) (j : Int) :
    FromPlace (-1074) (scaleDown n x j).1 := by
  have hstep : ∀ s : Float × Int, FromPlace (-1074) s.1 → s.1 ≥ 10.0 →
      FromPlace (-1074) (s.1 / 10.0) := by
    rintro s ⟨m,e,hp,-⟩ hg
    rw [hp.ge_iff_parts positive_ten] at hg
    obtain ⟨m',e',hp',-⟩ := hp.tenth (by omega)
    exact hp'.fromPlace
  obtain ⟨s,hs,hend⟩ := scaleDown_stepped.keeps hstep n (s := (x,j)) hx
  rw [show scaleDown n x j = s from hend]
  exact hs

theorem scaleUp_fromPlace (n : Nat) {x : Float} (hx : FromPlace (-1074) x) (j : Int) :
    FromPlace (-1074) (scaleUp n x j).1 := by
  have hstep : ∀ s : Float × Int, FromPlace (-1074) s.1 → s.1 < 1.0 →
      FromPlace (-1074) (s.1 * 10.0) := by
    rintro s ⟨m,e,hp,-⟩ hg
    obtain ⟨m',e',hp',-⟩ := hp.tenfold ((below_one_iff hp).mp hg)
    exact hp'.fromPlace
  obtain ⟨s,hs,hend⟩ := scaleUp_stepped.keeps hstep n (s := (x,j)) hx
  rw [show scaleUp n x j = s from hend]
  exact hs

theorem normaliseWithin_eq {x : Float} (hx : Below 971 x) {n : Nat} (hn : scalingSteps ≤ n) :
    normaliseWithin n x = normalise x := by
  show _ = normaliseWithin scalingSteps x
  rw [normaliseWithin, normaliseWithin]
  by_cases h : (x == 0.0) = true
  · rw [if_pos h, if_pos h]
  · have hbelow : Below (3 * scalingSteps - 50) x := hx.mono (by decide)
    have hdown := scaleDown_steps (n - scalingSteps) hbelow 0
    have hplace := scaleDown_fromPlace scalingSteps (hx.fromPlace h) 0
    have hfrom : FromPlace (-3 * scalingSteps) (scaleDown scalingSteps x 0).1 :=
      hplace.mono (by decide)
    have hup := scaleUp_steps (n - scalingSteps) hfrom (scaleDown scalingSteps x 0).2
    rw [Nat.add_sub_cancel' hn] at hdown hup
    rw [if_neg h, if_neg h, hdown, hup]

theorem normalise_below {x : Float} (hx : Below 971 x) : Below 971 (normalise x).1 := by
  rw [normalise]
  by_cases h : (x == 0.0) = true
  · rw [if_pos h]
    exact hx
  · rw [if_neg h]
    have hdown := scaleDown_fromPlace scalingSteps (hx.fromPlace h) 0
    exact (scaleUp_fromPlace scalingSteps hdown _).below

/-- The loops that write `x` come to their ends within their steps. -/
structure LoopsEnd (x : Float) : Prop where
  whole : ∀ n ≥ wholeSteps, wholeWithin n (dropFraction (Elementary.magnitude x)) =
    wholeText (dropFraction (Elementary.magnitude x))
  power : ∀ n ≥ scalingSteps, normaliseWithin n (Elementary.magnitude x) =
    normalise (Elementary.magnitude x)
  mantissa : ∀ n ≥ wholeSteps,
    wholeWithin n (dropFraction (normalise (Elementary.magnitude x)).1) =
      wholeText (dropFraction (normalise (Elementary.magnitude x)).1)

theorem loops_end {x : Float} (hx : x.isFinite = true) : LoopsEnd x where
  whole _ hn := wholeWithin_eq (magnitude_below hx).dropFraction hn
  power _ hn := normaliseWithin_eq (magnitude_below hx) hn
  mantissa _ hn := wholeWithin_eq (normalise_below (magnitude_below hx)).dropFraction hn

/-! ## Digits -/

theorem isDecimal_digitByte {d : Nat} (hd : d < 10) : isDecimal (digitByte false d) = true := by
  have hall : ∀ d < 10, isDecimal (digitByte false d) = true := by decide
  exact hall d hd

theorem natural_decimals (n : Nat) : Decimals (natural 10 false n) := by
  intro c hc
  rw [natural, clampBase_eq (by decide) (by decide)] at hc
  obtain ⟨d,hd,rfl⟩ := List.mem_map.mp hc
  exact isDecimal_digitByte (digits_lt (by decide) n d hd)

theorem lastDigit_decimal (x : Float) : isDecimal (lastDigit x) = true :=
  isDecimal_digitByte (Nat.mod_lt _ (by decide))

theorem peelWhole_decimals (n : Nat) (x : Float) {t : Bytes} (ht : Decimals t) (hn : t ≠ []) :
    Decimals (peelWhole n x t) ∧ peelWhole n x t ≠ [] := by
  have hstep : ∀ s : Float × Bytes, Decimals s.2 ∧ s.2 ≠ [] → s.1 ≥ 1.0 →
      Decimals (lastDigit s.1 :: s.2) ∧ lastDigit s.1 :: s.2 ≠ [] := by
    rintro s ⟨hd,-⟩ -
    exact ⟨List.forall_mem_cons.mpr ⟨lastDigit_decimal s.1,hd⟩,List.cons_ne_nil _ _⟩
  obtain ⟨s,hs,hend⟩ := peelWhole_stepped.keeps hstep n (s := (x,t)) ⟨ht,hn⟩
  rw [show peelWhole n x t = s.2 from hend]
  exact hs

theorem wholeText_decimals (x : Float) : Decimals (wholeText x) ∧ wholeText x ≠ [] := by
  rw [wholeText]
  by_cases h : x < wordEnd
  · rw [if_pos h]
    exact ⟨natural_decimals _,natural_ne_nil 10 false _⟩
  · rw [if_neg h]
    apply peelWhole_decimals
    · exact List.forall_mem_singleton.mpr (lastDigit_decimal x)
    · exact List.cons_ne_nil _ _

theorem fractionDigit_decimal (x : Float) : isDecimal (48 + fractionDigit x) = true := by
  have hle : (fractionDigit x).toNat ≤ 9 := by
    rw [fractionDigit]
    split_ifs with h
    · decide
    · exact UInt8.le_iff_toNat_le.mp (UInt8.not_lt.mp h)
  simp only [isDecimal, Bool.and_eq_true, decide_eq_true_eq, UInt8.le_iff_toNat_le,
    UInt8.toNat_add, UInt8.reduceToNat]
  omega

theorem fractionText_decimals (n : Nat) (x : Float) :
    Decimals (fractionText n x) ∧ (fractionText n x).length = n := by
  induction n generalizing x with
  | zero => exact ⟨List.forall_mem_nil _,rfl⟩
  | succ n ih =>
    obtain ⟨hd,hl⟩ := ih (x * 10.0 - (fractionDigit x).toFloat)
    exact ⟨List.forall_mem_cons.mpr ⟨fractionDigit_decimal x,hd⟩,congrArg Nat.succ hl⟩

/-! ## Forms -/

/-- A real with so many places: a minus or none, digits, and a point with the
places behind it where there are any. -/
inductive FixedForm (minus : Bool) : Nat → Bytes → Prop
  | whole {w : Bytes} (digits : Decimals w) (nonempty : w ≠ []) :
      FixedForm minus 0 ((if minus then [45] else []) ++ w)
  | pointed {w f : Bytes} (digits : Decimals w) (nonempty : w ≠ []) (places : Decimals f)
      (some : f ≠ []) : FixedForm minus f.length ((if minus then [45] else []) ++ (w ++ 46 :: f))

/-- A real with so many places and a power of ten: the letter, a sign and two
digits or more. -/
inductive ScientificForm (minus upper : Bool) (places : Nat) : Bytes → Prop
  | mk {m d : Bytes} (mantissa : FixedForm minus places m) (negative : Bool)
      (digits : Decimals d) (two : 2 ≤ d.length) :
      ScientificForm minus upper places
        (m ++ (if upper then 69 else 101) :: (signBytes (some negative) ++ d))

theorem fixedMagnitude_form (minus : Bool) (x : Float) (places : Nat) :
    FixedForm minus places ((if minus then [45] else []) ++ fixedMagnitude x places) := by
  obtain ⟨hw,hn⟩ := wholeText_decimals (dropFraction x)
  rw [fixedMagnitude]
  by_cases h : places = 0
  · subst h
    rw [if_pos rfl, List.append_nil]
    exact .whole hw hn
  · obtain ⟨hf,hl⟩ := fractionText_decimals places (x - dropFraction x)
    have hf' : fractionText places (x - dropFraction x) ≠ [] := by
      intro hnil
      rw [hnil] at hl
      exact h hl.symm
    have hform : FixedForm minus _ _ := .pointed hw hn hf hf'
    rw [hl] at hform
    rw [if_neg h]
    exact hform

theorem natural_length_pos (n : Nat) : 0 < (natural 10 false n).length :=
  List.length_pos_iff.mpr (natural_ne_nil 10 false n)

theorem two_le_natural_length {n : Nat} (h : 10 ≤ n) : 2 ≤ (natural 10 false n).length := by
  have hpos : 0 < (digits 10 (n / 10)).length := List.length_pos_iff.mpr (digits_ne_nil 10 (n / 10))
  rw [natural, clampBase_eq (by decide) (by decide), List.length_map, digits, dif_pos ⟨by decide,h⟩,
    List.length_append]
  exact Nat.succ_le_succ hpos

theorem exponentText_form (upper : Bool) (e : Int) : ∃ d, Decimals d ∧ 2 ≤ d.length ∧
    exponentText upper e =
      (if upper then 69 else 101) :: (signBytes (some (decide (e < 0))) ++ d) := by
  refine ⟨(if e.natAbs < 10 then [48] else []) ++ natural 10 false e.natAbs,?_,?_,?_⟩
  · intro c hc
    rcases List.mem_append.mp hc with hz | hd
    · split_ifs at hz
      · rw [List.mem_singleton.mp hz]
        rfl
      · cases hz
    · exact natural_decimals _ c hd
  · rw [List.length_append]
    split_ifs with hsmall
    · exact Nat.succ_le_of_lt (Nat.lt_add_of_pos_right (natural_length_pos _))
    · exact Nat.le_add_left_of_le (two_le_natural_length (Nat.not_lt.mp hsmall))
  · by_cases h : e < 0 <;> simp [exponentText, h, signBytes]

theorem FixedForm.mantissa {minus : Bool} {places : Nat} {t : Bytes}
    (ht : FixedForm minus places t) :
    ∃ o m, Mantissa m ∧ t = signBytes o ++ m := by
  have hsign : (if minus then [45] else []) = signBytes (if minus then some true else none) := by
    cases minus <;> rfl
  cases ht with
  | whole hw hn => exact ⟨_,_,.whole hw hn,congrArg (· ++ _) hsign⟩
  | pointed hw hn hf hf' => exact ⟨_,_,.pointed hw hn hf,congrArg (· ++ _) hsign⟩

theorem FixedForm.realNumeral {minus : Bool} {places : Nat} {t : Bytes}
    (ht : FixedForm minus places t) : RealNumeral t := by
  obtain ⟨o,m,hm,rfl⟩ := ht.mantissa
  have hreal : RealNumeral ([] ++ (signBytes o ++ (m ++ []))) :=
    .mk (List.forall_mem_nil _) o hm (.inl rfl)
  rwa [List.append_nil] at hreal

theorem ScientificForm.realNumeral {minus upper : Bool} {places : Nat} {t : Bytes}
    (ht : ScientificForm minus upper places t) : RealNumeral t := by
  obtain ⟨hfixed,negative,hd,htwo⟩ := ht
  obtain ⟨o,m,hm,rfl⟩ := hfixed.mantissa
  have hletter : ∀ upper : Bool, (if upper then (69 : UInt8) else 101) = 101 ∨
      (if upper then (69 : UInt8) else 101) = 69 := by decide
  have hpower := Power.mk (hletter upper) (some negative) hd (by rintro rfl; cases htwo)
  rw [List.append_assoc]
  exact .mk (List.forall_mem_nil _) o hm (.inr hpower)

theorem fixedText_form {x : Float} (hx : x.isFinite = true) (places : Nat) :
    FixedForm (isBelowZero x) places (fixedText x places) := by
  rw [fixedText, nonFinite?, if_pos hx]
  exact fixedMagnitude_form _ _ places

theorem scientificText_form {x : Float} (hx : x.isFinite = true) (places : Nat) (upper : Bool) :
    ScientificForm (isBelowZero x) upper places (scientificText x places upper) := by
  obtain ⟨d,hd,htwo,hpower⟩ := exponentText_form upper (normalise (Elementary.magnitude x)).2
  have hfixed := fixedMagnitude_form (isBelowZero x) (normalise (Elementary.magnitude x)).1 places
  rw [scientificText, nonFinite?, if_pos hx]
  show ScientificForm _ upper places
    (_ ++ exponentText upper (normalise (Elementary.magnitude x)).2)
  rw [hpower]
  exact .mk hfixed _ hd htwo

/-- A finite real is written as a minus where it is below zero, digits and, with
any places, a point and so many digits; the scientific form has a power of ten
of two digits or more behind this. Reading takes either text whole, and the
loops that write them come to their ends by themselves. -/
theorem real_texts_are_read_whole {x : Float} (hx : x.isFinite = true) (places : Nat)
    (upper : Bool) :
    FixedForm (isBelowZero x) places (fixedText x places) ∧
      ScientificForm (isBelowZero x) upper places (scientificText x places upper) ∧
      (parseReal (fixedText x places)).rest = (fixedText x places).length ∧
      (parseReal (scientificText x places upper)).rest =
        (scientificText x places upper).length ∧
      LoopsEnd x := by
  have hfixed := fixedText_form hx places
  have hscientific := scientificText_form hx places upper
  exact ⟨hfixed,hscientific,hfixed.realNumeral.parseReal_rest,
    hscientific.realNumeral.parseReal_rest,loops_end hx⟩

theorem last_below_zero_is_read_whole :
    (Float.ofBits 0x8000000000000001).isFinite = true ∧
      isBelowZero (Float.ofBits 0x8000000000000001) = true ∧
      ScientificForm true true 3 (scientificText (Float.ofBits 0x8000000000000001) 3 true) ∧
      (parseReal (scientificText (Float.ofBits 0x8000000000000001) 3 true)).rest =
        (scientificText (Float.ofBits 0x8000000000000001) 3 true).length := by
  have hfinite : (Float.ofBits 0x8000000000000001).isFinite = true := by rfl
  have hbelow : isBelowZero (Float.ofBits 0x8000000000000001) = true := by rfl
  obtain ⟨-,hscientific,-,hread,-⟩ := real_texts_are_read_whole hfinite 3 true
  rw [hbelow] at hscientific
  exact ⟨hfinite,hbelow,hscientific,hread⟩

end Freestanding.Numeral
