import Freestanding.Proofs.Format.RoundTrip
import Mathlib.Data.Nat.Digits.Defs

/-!
# The precision of an integer

The precision of an integer directive asks for digits, and zeros in front make
up for those that a number has not. Where digits are grouped, their commas are
put in before the zeros and taken for digits. So a grouped number of four digits
or more is short of a precision beyond its digits, by up to as many as it has
commas. All other integers have as many digits as asked for.
-/

set_option autoImplicit false

namespace Freestanding.Format

open Numeral

/-! ## Counting digits -/

/-- The digits of a base in a field, less the zero of each mark of base sixteen. -/
def digitCount (base : Nat) (out : Bytes) : Nat :=
  out.countP (fun c => (digitIn? base c).isSome) - out.countP isMarkLetter

def significant (base m : Nat) : Nat := (Nat.digits base m).length

theorem significant_ne_zero (base : Nat) {m : Nat} (hm : m ≠ 0) : significant base m ≠ 0 := by
  rwa [significant, Ne, List.length_eq_zero_iff, Nat.digits_eq_nil_iff_eq_zero]

theorem length_digits {base : Nat} (hb : 2 ≤ base) (m : Nat) :
    (digits base m).length = max 1 (significant base m) := by
  fun_induction digits base m with
  | case1 m h ih =>
    have hq : m / base ≠ 0 := Nat.ne_of_gt (Nat.div_pos h.2 (by omega))
    have hpos := significant_ne_zero base hq
    have hstep : significant base m = significant base (m / base) + 1 := by
      rw [significant, Nat.digits_def' (by omega) (by omega)]
      rfl
    rw [List.length_append, ih, hstep]
    simp only [List.length_singleton]
    omega
  | case2 m h =>
    by_cases hm : m = 0
    · subst hm
      simp [significant]
    · rw [significant, Nat.digits_of_lt base m hm (by omega)]
      rfl

theorem length_natural {base : Nat} (hl : 2 ≤ base) (hu : base ≤ 16) (upper : Bool) (m : Nat) :
    (natural base upper m).length = max 1 (significant base m) := by
  rw [natural, List.length_map, clampBase_eq hl hu, length_digits hl]

theorem run_countP {base : Nat} {s : Bytes} (hs : Run base s) :
    s.countP (fun c => (digitIn? base c).isSome) = s.length :=
  List.countP_eq_length.mpr hs

theorem run_countP_mark {base : Nat} {s : Bytes} (hb : base ≤ 16) (hs : Run base s) :
    s.countP isMarkLetter = 0 := by
  rw [List.countP_eq_zero]
  intro c hc hm
  have hdigit := hs.mono hb c hc
  rw [mark_letter_no_digit hm] at hdigit
  cases hdigit

/-! ## Commas -/

theorem length_groupThousands (s : Bytes) :
    (groupThousands s).length = s.length + (s.length - 1) / 3 := by
  induction s with
  | nil => rfl
  | cons c s ih =>
    by_cases h : s ≠ [] ∧ s.length % 3 = 0
    · have hpos : 0 < s.length := List.length_pos_iff.mpr h.1
      simp only [groupThousands, if_pos h, List.length_cons, ih]
      omega
    · have hlast : s.length = 0 ∨ s.length % 3 ≠ 0 := by
        by_cases hs : s = []
        · exact Or.inl (by rw [hs]; rfl)
        · exact Or.inr fun hm => h ⟨hs,hm⟩
      simp only [groupThousands, if_neg h, List.length_cons, ih]
      omega

theorem countP_groupThousands {p : UInt8 → Bool} (hp : p 44 = false) (s : Bytes) :
    (groupThousands s).countP p = s.countP p := by
  induction s with
  | nil => rfl
  | cons c s ih =>
    rw [groupThousands, List.countP_cons, List.countP_cons]
    split_ifs <;> simp [hp, ih]

namespace Directive

def commas (d : Directive) (m : Nat) : Nat :=
  if d.conversion.base = 10 ∧ d.flags.grouped then (significant 10 m - 1) / 3 else 0

def bare (d : Directive) (m : Nat) : Bytes :=
  if d.precision = some 0 ∧ m = 0 then [] else natural d.conversion.base d.conversion.isUpper m

def separated (d : Directive) (m : Nat) : Bytes :=
  if d.conversion.base = 10 ∧ d.flags.grouped then groupThousands (d.bare m) else d.bare m

theorem bare_run (d : Directive) (m : Nat) : Run d.conversion.base (d.bare m) := by
  have hb := d.conversion.base_bounds
  rw [bare]
  split_ifs
  · exact fun c hc => absurd hc List.not_mem_nil
  · exact run_natural hb.1 hb.2 _ m

theorem length_bare (d : Directive) (m : Nat) : (d.bare m).length =
    if d.precision = some 0 ∧ m = 0 then 0 else max 1 (significant d.conversion.base m) := by
  have hb := d.conversion.base_bounds
  rw [bare]
  split_ifs
  · rfl
  · exact length_natural hb.1 hb.2 _ m

theorem length_bare_of_ne_zero (d : Directive) {m : Nat} (hm : m ≠ 0) :
    (d.bare m).length = significant d.conversion.base m := by
  have hpos := significant_ne_zero d.conversion.base hm
  rw [length_bare, if_neg fun h => hm h.2]
  omega

theorem length_separated (d : Directive) (m : Nat) :
    (d.separated m).length = (d.bare m).length + d.commas m := by
  rw [separated, commas]
  split_ifs with h
  · have hlength := d.length_bare m
    have hzero : significant 10 0 = 0 := rfl
    rw [length_groupThousands]
    congr 2
    rw [hlength, h.1]
    split_ifs with hm
    · rw [hm.2, hzero]
    · omega
  · rfl

theorem separated_countP (d : Directive) (m : Nat) {p : UInt8 → Bool} (hp : p 44 = false) :
    (d.separated m).countP p = (d.bare m).countP p := by
  rw [separated]
  split_ifs
  · exact countP_groupThousands hp _
  · rfl

end Directive

/-! ## The parts of a field -/

theorem countP_padded {p : UInt8 → Bool} (hp : p 32 = false) (f : Flags) (width : Nat)
    (front body : Bytes) :
    (padded f width false front body).countP p = front.countP p + body.countP p := by
  rw [padded]
  split_ifs with hl hz
  · simp [List.countP_replicate, hp]
  · cases hz
  · simp [List.countP_replicate, hp]

theorem comma_no_digit (base : Nat) : (digitIn? base 44).isSome = false := by
  simp [digitIn?, digitValue?]

theorem blank_no_digit (base : Nat) : (digitIn? base 32).isSome = false := by
  rw [digitIn?_blank]
  rfl

section

variable {d : Directive} {p : Nat} (hp : d.precision = some p) (m : Nat)
include hp

theorem integerDigits_separated : integerDigits d m =
    List.replicate (p - (d.separated m).length) 48 ++ d.separated m := by
  rw [integerDigits, hp, Option.getD_some, ← hp]
  rfl

theorem integerDigits_countP :
    (integerDigits d m).countP (fun c => (digitIn? d.conversion.base c).isSome) =
      max (p - d.commas m) (d.bare m).length := by
  have hb : 0 < d.conversion.base := Nat.lt_of_lt_of_le (by decide) d.conversion.base_bounds.1
  have hzeros := run_countP (run_zeros hb (p - (d.separated m).length))
  rw [integerDigits_separated hp, List.countP_append, hzeros,
    d.separated_countP m (comma_no_digit _), run_countP (d.bare_run m), List.length_replicate,
    d.length_separated]
  omega

theorem integerDigits_countP_mark : (integerDigits d m).countP isMarkLetter = 0 := by
  have hb := d.conversion.base_bounds
  have hpos : 0 < d.conversion.base := Nat.lt_of_lt_of_le (by decide) hb.1
  have hzeros := run_countP_mark hb.2 (run_zeros hpos (p - (d.separated m).length))
  rw [integerDigits_separated hp, List.countP_append, hzeros, d.separated_countP m rfl,
    run_countP_mark hb.2 (d.bare_run m)]

end

def Directive.octalZero (d : Directive) (m : Nat) : Nat :=
  if d.conversion = .octal ∧ d.flags.alternate ∧ (integerDigits d m).head? ≠ some 48 then 1 else 0

theorem signText_countP (f : Flags) (negative : Bool) (base : Nat) :
    (signText f negative).countP (fun c => (digitIn? base c).isSome) = 0 ∧
      (signText f negative).countP isMarkLetter = 0 := by
  have hsigns : (digitIn? base 45).isSome = false ∧ (digitIn? base 43).isSome = false := by
    simp [digitIn?, digitValue?]
  have hblank := blank_no_digit base
  rw [signText]
  split_ifs <;> simp [hsigns, hblank, isMarkLetter]

theorem integerFront_countP (d : Directive) (negative : Bool) (m : Nat) :
    (integerFront d negative m (integerDigits d m)).countP
        (fun c => (digitIn? d.conversion.base c).isSome) =
      (integerFront d negative m (integerDigits d m)).countP isMarkLetter + d.octalZero m := by
  cases hc : d.conversion with
  | signed =>
    have hsign := signText_countP d.flags negative 10
    simp [integerFront, Directive.octalZero, hc, Conversion.base, hsign]
  | octal =>
    simp only [integerFront, Directive.octalZero, hc, true_and]
    split_ifs <;> rfl
  | hex upper =>
    simp only [integerFront, Directive.octalZero, hc, reduceCtorEq, false_and, if_false]
    split_ifs
    · rfl
    · rfl
    · rfl
  | _ => simp [integerFront, Directive.octalZero, hc]

theorem digitCount_integerField {d : Directive} {p : Nat} (hp : d.precision = some p)
    (negative : Bool) (m : Nat) : digitCount d.conversion.base (integerField d negative m) =
      max (p - d.commas m) (d.bare m).length + d.octalZero m := by
  have hfield : integerField d negative m = padded d.flags d.width false
      (integerFront d negative m (integerDigits d m)) (integerDigits d m) := by
    rw [integerField, hp, Option.isNone_some, Bool.and_false]
  rw [digitCount, hfield, countP_padded (blank_no_digit _), countP_padded rfl,
    integerFront_countP, integerDigits_countP hp, integerDigits_countP_mark hp]
  omega

section

variable {d : Directive} {p : Nat} (hp : d.precision = some p) (negative : Bool) (m : Nat)
include hp

theorem precision_le_digitCount_add :
    p ≤ digitCount d.conversion.base (integerField d negative m) + d.commas m := by
  rw [digitCount_integerField hp]
  omega

theorem digitCount_of_ne_zero (hc : d.conversion ≠ .octal) {m : Nat} (hm : m ≠ 0) :
    digitCount d.conversion.base (integerField d negative m) =
      max (p - d.commas m) (significant d.conversion.base m) := by
  have hzero : d.octalZero m = 0 := if_neg fun h => hc h.1
  rw [digitCount_integerField hp, hzero, d.length_bare_of_ne_zero hm, Nat.add_zero]

theorem precision_le_digitCount_iff :
    p ≤ digitCount d.conversion.base (integerField d negative m) ↔
      ¬(d.conversion.base = 10 ∧ d.flags.grouped = true ∧ 4 ≤ significant 10 m ∧
        significant 10 m < p) := by
  have hall := precision_le_digitCount_add hp negative m
  by_cases hg : d.conversion.base = 10 ∧ d.flags.grouped = true
  · have hcommas : d.commas m = (significant 10 m - 1) / 3 := if_pos hg
    by_cases hm : m = 0
    · subst hm
      have hzero : significant 10 0 = 0 := rfl
      exact iff_of_true (by omega) (by omega)
    · have hc : d.conversion ≠ .octal := by
        intro hc
        rw [hc] at hg
        cases hg.1
      have hcount := digitCount_of_ne_zero hp negative hc hm
      rw [hcount, hcommas, hg.1]
      simp only [hg.2, true_and]
      omega
  · have hcommas : d.commas m = 0 := if_neg hg
    exact iff_of_true (by omega) fun h => hg ⟨h.1,h.2.1⟩

end

/-! ## Every integer directive with a precision -/

theorem takesArgument_of_reduced? {d : Directive} {a : Argument} {v : Int}
    (h : d.reduced? a = some v) : d.takesArgument = true := by
  rw [Directive.takesArgument, bne_iff_ne]
  intro hc
  rw [Directive.reduced?, hc] at h
  cases h

/-- What an integer directive with a precision writes has that many digits, unless it
is grouped, has commas and is short of digits. Digits and commas together are
always as many. A number that is neither zero nor octal has exactly the digits
asked for less its commas, or its own where these are more. -/
theorem precision_counts_commas {template s : Bytes} {d : Directive} {a : Argument} {v : Int}
    {p : Nat} (ht : Bytes.text template = 37 :: s) (hd : readDirective? s = some (d, []))
    (hv : d.reduced? a = some v) (hp : d.precision = some p) (hm : d.requested ≤ maxField) :
    ∃ out, format template [a] = .ok out ∧
      (p ≤ digitCount d.conversion.base out ↔
        ¬(d.conversion.base = 10 ∧ d.flags.grouped = true ∧ 4 ≤ significant 10 v.natAbs ∧
          significant 10 v.natAbs < p)) ∧
      p ≤ digitCount d.conversion.base out + d.commas v.natAbs ∧
      (d.conversion ≠ .octal → v ≠ 0 → digitCount d.conversion.base out =
        max (p - d.commas v.natAbs) (significant d.conversion.base v.natAbs)) := by
  have hformat := format_directive ht hd hm (takesArgument_of_reduced? hv) (field?_reduced hv)
  exact ⟨_,hformat,precision_le_digitCount_iff hp _ _,precision_le_digitCount_add hp _ _,
    fun hc hne => digitCount_of_ne_zero hp _ hc (Int.natAbs_ne_zero.mpr hne)⟩

theorem grouped_precision_counts_comma :
    ∃ out, format [37, 39, 46, 57, 100] [.int (-1234)] = .ok out ∧ digitCount 10 out = 8 ∧
      ¬9 ≤ digitCount 10 out := by
  have hd : readDirective? [39, 46, 57, 100] =
      some (⟨⟨{ grouped := true },0,some 9,.int⟩,.signed,100⟩, []) := by decide
  have hv : Directive.reduced? ⟨⟨{ grouped := true },0,some 9,.int⟩,.signed,100⟩
      (.int (-1234)) = some (-1234) := by decide
  have hs : significant 10 1234 = 4 := by simp [significant]
  have ht : Bytes.text [37, 39, 46, 57, 100] = 37 :: [39, 46, 57, 100] := by decide
  obtain ⟨out,ho,-,-,hcount⟩ := precision_counts_commas ht hd hv rfl (by decide)
  have hcount : digitCount 10 out = max (9 - (significant 10 1234 - 1) / 3) (significant 10 1234) :=
    hcount (by decide) (by decide)
  rw [hs] at hcount
  exact ⟨out,ho,hcount,by omega⟩

/-- The template `%'.5d` asks for five digits and writes `1,234`. -/
theorem comma_taken_for_digit :
    readDirective? [39, 46, 53, 100] =
      some (⟨⟨{ grouped := true },0,some 5,.int⟩,.signed,100⟩, []) ∧
    format [37, 39, 46, 53, 100] [.int 1234] = .ok [49, 44, 50, 51, 52] ∧
    digitCount 10 [49, 44, 50, 51, 52] = 4 ∧ significant 10 1234 = 4 := by
  have hd : readDirective? [39, 46, 53, 100] =
      some (⟨⟨{ grouped := true },0,some 5,.int⟩,.signed,100⟩, []) := by decide
  have hn : natural 10 false 1234 = [49, 50, 51, 52] := by
    simp [natural, digits, clampBase, digitByte]
  have hf : Directive.field? ⟨⟨{ grouped := true },0,some 5,.int⟩,.signed,100⟩ (.int 1234) =
      some [49, 44, 50, 51, 52] := by
    rw [field?_reduced (v := 1234) (by decide)]
    simp [integerField, integerDigits, hn, Conversion.base, Conversion.isUpper, groupThousands,
      integerFront, signText, padded]
  exact ⟨hd,format_directive (by decide) hd (by decide) rfl hf,rfl,by simp [significant]⟩

end Freestanding.Format
