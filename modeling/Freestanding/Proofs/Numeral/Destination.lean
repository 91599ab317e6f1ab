import Freestanding.Numeral.Destination
import Freestanding.Proofs.Numeral.Reading
import Mathlib.Data.Nat.Digits.Defs

/-!
# One numeral for each number

In a base from two to sixteen every number has one numeral: digits that add up
to it by their places, with no zero in front but for zero itself. The numeral
is what is left at the end of a destination after the digits of a word have
been pushed and turned around. Read in the same base it gives the word back.
-/

set_option autoImplicit false

namespace Freestanding.Numeral

/-- Digits of a base with the most significant first, worth `n` by their
places. A zero stands in front only if it stands alone. -/
structure Places (base n : Nat) (ds : List Nat) : Prop where
  nonempty : ds ≠ []
  lt : ∀ d ∈ ds, d < base
  value : Nat.ofDigits base ds.reverse = n
  leading : ds.head? = some 0 → ds = [0]

/-- A byte string is a numeral for `n`, in upper case or in lower case. -/
def Writes (base : Nat) (upper : Bool) (n : Nat) (s : Bytes) : Prop :=
  ∃ ds, Places base n ds ∧ s = ds.map (digitByte upper)

/-! ## The numeral of a number -/

theorem ofDigits_digits {base : Nat} (hb : 2 ≤ base) (n : Nat) :
    Nat.ofDigits base (digits base n).reverse = n := by
  fun_induction digits base n with
  | case1 n h ih =>
    rw [List.reverse_append, List.reverse_singleton, List.singleton_append, Nat.ofDigits_cons, ih]
    exact Nat.mod_add_div n base
  | case2 n h =>
    have hn : n < base := by omega
    rw [List.reverse_singleton, Nat.ofDigits_singleton, Nat.mod_eq_of_lt hn]

theorem places_digits {base : Nat} (hb : 2 ≤ base) (n : Nat) :
    Places base n (digits base n) where
  nonempty := digits_ne_nil base n
  lt := digits_lt (by omega) n
  value := ofDigits_digits hb n
  leading := by
    intro hz
    by_cases hn : n = 0
    · rw [hn, digits_zero]
    · exact absurd hz (digits_head_ne_zero hb hn)

namespace Places

variable {base n : Nat} {ds es : List Nat}

theorem eq_zero (hb : 2 ≤ base) (h : Places base 0 ds) : ds = [0] := by
  obtain ⟨d,r,rfl⟩ := List.exists_cons_of_ne_nil h.nonempty
  have hd : d = 0 := Nat.digits_zero_of_eq_zero (by omega) h.value d (by simp)
  exact h.leading (by rw [hd]; rfl)

theorem reverse_eq (hb : 2 ≤ base) (hn : n ≠ 0) (h : Places base n ds) :
    ds.reverse = Nat.digits base n := by
  have hlast : ∀ hne : ds.reverse ≠ [], ds.reverse.getLast hne ≠ 0 := by
    intro hne hz
    rw [List.getLast_reverse] at hz
    have hhead : ds.head? = some 0 := by rw [List.head?_eq_some_head h.nonempty, hz]
    have hval := h.value
    rw [h.leading hhead, List.reverse_singleton, Nat.ofDigits_singleton] at hval
    exact hn hval.symm
  have hlt : ∀ d ∈ ds.reverse, d < base := fun d hd => h.lt d (List.mem_reverse.mp hd)
  rw [← h.value, Nat.digits_ofDigits base hb _ hlt hlast]

theorem unique (hb : 2 ≤ base) (hd : Places base n ds) (he : Places base n es) : ds = es := by
  by_cases hn : n = 0
  · subst hn
    rw [hd.eq_zero hb, he.eq_zero hb]
  · exact List.reverse_injective ((hd.reverse_eq hb hn).trans (he.reverse_eq hb hn).symm)

end Places

theorem writes_iff {base : Nat} (hl : 2 ≤ base) (hu : base ≤ 16) (upper : Bool) (n : Nat)
    (s : Bytes) : Writes base upper n s ↔ s = natural base upper n := by
  have hplaces := places_digits hl n
  rw [natural, clampBase_eq hl hu]
  constructor
  · rintro ⟨ds,hd,rfl⟩
    rw [hd.unique hl hplaces]
  · intro hs
    exact ⟨_,hplaces,hs⟩

/-! ## Writing at the end -/

theorem pushDigits_eq (upper : Bool) {base : UInt64} (hb : 2 ≤ base) (dest : Bytes)
    (value : UInt64) : pushDigits upper base dest value =
      dest ++ ((digits base.toNat value.toNat).map (digitByte upper)).reverse := by
  have hbase : 2 ≤ base.toNat := UInt64.le_iff_toNat_le.mp hb
  fun_induction pushDigits upper base dest value with
  | case1 dest value next h ih =>
    have hle : base.toNat ≤ value.toNat := by
      by_contra hlt
      have hz : value / base = 0 := UInt64.toNat_inj.mp <| by
        rw [UInt64.toNat_div, Nat.div_eq_of_lt (by omega)]
        rfl
      exact h.2 hz
    have hdigits : digits base.toNat value.toNat =
        digits base.toNat (value / base).toNat ++ [(value % base).toNat] := by
      rw [digits, dif_pos ⟨hbase,hle⟩, UInt64.toNat_div, UInt64.toNat_mod]
    rw [ih, hdigits]
    simp only [next, List.map_append, List.reverse_append, List.append_assoc, List.map_singleton,
      List.reverse_singleton]
  | case2 dest value next h =>
    have hz : value / base = 0 := by
      by_contra hne
      exact h ⟨hb,hne⟩
    have hlt : value.toNat < base.toNat := by
      have hdiv := congrArg UInt64.toNat hz
      rw [UInt64.toNat_div] at hdiv
      exact (Nat.div_eq_zero_iff_lt (by omega)).mp hdiv
    rw [digits, dif_neg (by omega), ← UInt64.toNat_mod]
    rfl

theorem reverseFrom_append (dest s : Bytes) :
    reverseFrom dest.length (dest ++ s) = dest ++ s.reverse := by
  rw [reverseFrom, List.take_left, List.drop_left]

theorem appendNatural_eq (dest : Bytes) (base : Nat) (upper : Bool) (value : UInt64) :
    appendNatural dest base upper value =
      ((natural base upper value.toNat).length, dest ++ natural base upper value.toNat) := by
  have hclamp : 2 ≤ clampBase base ∧ clampBase base ≤ 16 := by
    simp only [clampBase]
    omega
  have hnat : (clampBase base).toUInt64.toNat = clampBase base :=
    Nat.mod_eq_of_lt (by omega)
  have hb : 2 ≤ (clampBase base).toUInt64 := by
    rw [UInt64.le_iff_toNat_le, hnat]
    exact hclamp.1
  have hpush := pushDigits_eq upper hb dest value
  rw [hnat] at hpush
  simp only [appendNatural, hpush, reverseFrom_append, List.reverse_reverse, natural,
    List.length_append, Nat.add_sub_cancel_left]

theorem toNat_abs (v : Int64) : v.abs.toUInt64.toNat = v.toInt.natAbs := by
  show v.toBitVec.abs.toNat = v.toBitVec.toInt.natAbs
  have hlt := v.toBitVec.isLt
  rw [BitVec.toNat_abs, BitVec.toInt_eq_msb_cond]
  split <;> omega

theorem appendInteger_eq (dest : Bytes) (base : Nat) (value : Int64) :
    appendInteger dest base value =
      ((integer base value.toInt).length, dest ++ integer base value.toInt) := by
  have hsign : value < 0 ↔ value.toInt < 0 := Int64.lt_iff_toInt_lt
  by_cases hv : value < 0
  · simp [appendInteger, appendNatural_eq, toNat_abs, integer, hv, hsign.mp hv]
  · have hn : ¬value.toInt < 0 := fun h => hv (hsign.mpr h)
    simp [appendInteger, appendNatural_eq, toNat_abs, integer, hv, hn]

/-! ## Reading it again -/

/-- Behind whatever a destination holds, a word is written as its one numeral in
the base, and a signed word as the numeral of its magnitude behind a minus or
nothing. The answer is the number of bytes written, and reading them in the same
base takes all of them and gives the word. -/
theorem numerals_are_canonical (base : Nat) (hl : 2 ≤ base) (hu : base ≤ 16) (dest : Bytes) :
    (∀ (upper : Bool) (v : UInt64), ∃ s, (∀ t, Writes base upper v.toNat t ↔ t = s) ∧
      (v = 0 → s = [48]) ∧ appendNatural dest base upper v = (s.length, dest ++ s) ∧
      parseUnsigned .bits64 base s = .ok ⟨v.toNat,s.length,false⟩) ∧
    ∀ v : Int64, ∃ s, Writes base false v.toInt.natAbs s ∧
      let t := if v < 0 then 45 :: s else s
      appendInteger dest base v = (t.length, dest ++ t) ∧
        parseSigned .bits64 base t = .ok ⟨v.toInt,t.length,false⟩ := by
  have hend : Ends base [] := by simp [Ends]
  constructor
  · intro upper v
    have hread := parseUnsigned_natural hl hu upper v hend (by simp)
    rw [List.append_nil] at hread
    refine ⟨natural base upper v.toNat,writes_iff hl hu upper _,?_,
      appendNatural_eq dest base upper v,hread⟩
    rintro rfl
    exact natural_zero base upper
  · intro v
    refine ⟨natural base false v.toInt.natAbs,(writes_iff hl hu false _ _).mpr rfl,?_⟩
    have hint : integer base v.toInt = if v < 0 then 45 :: natural base false v.toInt.natAbs
        else natural base false v.toInt.natAbs := by
      simp only [integer, Int64.lt_iff_toInt_lt, Int64.toInt_zero]
    have hread := parseSigned_integer hl hu v hend (by simp)
    rw [List.append_nil] at hread
    simp only [← hint]
    exact ⟨appendInteger_eq dest base v,hread⟩

theorem extreme_words_are_canonical :
    (∃ s, (∀ t, Writes 16 true 18446744073709551615 t ↔ t = s) ∧
      appendNatural [48, 120] 16 true 18446744073709551615 = (s.length, [48, 120] ++ s) ∧
      parseUnsigned .bits64 16 s = .ok ⟨18446744073709551615,s.length,false⟩) ∧
    ∃ s, Writes 16 false 9223372036854775808 s ∧
      appendInteger [48, 120] 16 Int64.minValue = (s.length + 1, [48, 120] ++ 45 :: s) ∧
      parseSigned .bits64 16 (45 :: s) = .ok ⟨-9223372036854775808,s.length + 1,false⟩ := by
  obtain ⟨hn,hi⟩ := numerals_are_canonical 16 (by decide) (by decide) [48, 120]
  obtain ⟨s,hw,-,ha,hp⟩ := hn true 18446744073709551615
  obtain ⟨r,hr⟩ := hi Int64.minValue
  exact ⟨⟨s,hw,ha,hp⟩,r,hr⟩

end Freestanding.Numeral
