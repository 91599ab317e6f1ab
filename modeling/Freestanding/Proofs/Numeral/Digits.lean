import Freestanding.Numeral.Integer
import Mathlib.Data.List.Basic
import Mathlib.Tactic.Common

/-!
# Digits and their value

A run of digits of a base has a value, read from the left with nothing lost.
The digits that a number is written with form such a run, and its value is the
number. Zeros in front of a run do not change its value.
-/

set_option autoImplicit false

namespace Freestanding.Numeral

def Run (base : Nat) (s : Bytes) : Prop := ∀ c ∈ s, (digitIn? base c).isSome

/-- The value of a run of digits read onto another value. -/
def valueFrom (base v : Nat) (s : Bytes) : Nat :=
  s.foldl (fun v c => v * base + (digitIn? base c).getD 0) v

theorem Run.append {base : Nat} {s t : Bytes} (hs : Run base s) (ht : Run base t) :
    Run base (s ++ t) := by
  intro c hc
  rcases List.mem_append.mp hc with h | h
  · exact hs c h
  · exact ht c h

theorem valueFrom_append (base v : Nat) (s t : Bytes) :
    valueFrom base v (s ++ t) = valueFrom base (valueFrom base v s) t :=
  List.foldl_append

theorem le_valueFrom {base : Nat} (hb : 0 < base) (v : Nat) (s : Bytes) :
    v ≤ valueFrom base v s := by
  induction s generalizing v with
  | nil => exact Nat.le_refl v
  | cons c s ih =>
    have hstep : v ≤ v * base + (digitIn? base c).getD 0 :=
      Nat.le_add_right_of_le (Nat.le_mul_of_pos_right v hb)
    exact Nat.le_trans hstep (ih _)

/-! ## Single digits -/

theorem digitValue?_digitByte (upper : Bool) {d : Nat} (hd : d < 16) :
    digitValue? (digitByte upper d) = some d := by
  have hall : ∀ d < 16, ∀ upper, digitValue? (digitByte upper d) = some d := by decide
  exact hall d hd upper

theorem digitIn?_digitByte (upper : Bool) {base d : Nat} (hb : base ≤ 16) (hd : d < base) :
    digitIn? base (digitByte upper d) = some d := by
  rw [digitIn?, digitValue?_digitByte upper (by omega)]
  simp [hd]

theorem zero_le_of_digit {base : Nat} {c : UInt8} (h : (digitIn? base c).isSome) : 48 ≤ c := by
  have hv : (digitValue? c).isSome := by
    rw [digitIn?] at h
    cases hc : digitValue? c with
    | none => simp [hc] at h
    | some d => rfl
  unfold digitValue? at hv
  split_ifs at hv with h1 h2 h3
  · exact h1.1
  · exact UInt8.le_trans (by decide) h2.1
  · exact UInt8.le_trans (by decide) h3.1
  · simp at hv

theorem digitIn?_zero {base : Nat} (hb : 0 < base) : digitIn? base 48 = some 0 := by
  simp [digitIn?, digitValue?, hb]

theorem digitIn?_blank (base : Nat) : digitIn? base 32 = none := by
  simp [digitIn?, digitValue?]

/-! ## Zeros in front -/

theorem run_zeros {base : Nat} (hb : 0 < base) (k : Nat) : Run base (List.replicate k 48) := by
  intro c hc
  rw [List.eq_of_mem_replicate hc, digitIn?_zero hb]
  rfl

theorem valueFrom_zeros {base : Nat} (hb : 0 < base) (k : Nat) (s : Bytes) :
    valueFrom base 0 (List.replicate k 48 ++ s) = valueFrom base 0 s := by
  induction k with
  | zero => rfl
  | succ k ih =>
    rw [← ih, List.replicate_succ, List.cons_append]
    simp [valueFrom, digitIn?_zero hb]

/-! ## The digits of a number -/

theorem digits_lt {base : Nat} (hb : 0 < base) (n : Nat) : ∀ d ∈ digits base n, d < base := by
  fun_induction digits base n with
  | case1 n h ih =>
    intro d hd
    rcases List.mem_append.mp hd with hd | hd
    · exact ih d hd
    · rw [List.mem_singleton.mp hd]
      exact Nat.mod_lt n hb
  | case2 n h =>
    intro d hd
    rw [List.mem_singleton.mp hd]
    exact Nat.mod_lt n hb

theorem digits_ne_nil (base n : Nat) : digits base n ≠ [] := by
  rw [digits]
  split <;> simp

theorem clampBase_eq {base : Nat} (hl : 2 ≤ base) (hu : base ≤ 16) : clampBase base = base := by
  simp only [clampBase]
  omega

theorem natural_ne_nil (base : Nat) (upper : Bool) (n : Nat) : natural base upper n ≠ [] := by
  simp [natural, digits_ne_nil]

theorem digits_zero (base : Nat) : digits base 0 = [0] := by
  rw [digits, dif_neg (by omega), Nat.zero_mod]

theorem natural_zero (base : Nat) (upper : Bool) : natural base upper 0 = [48] := by
  rw [natural, digits_zero]
  rfl

theorem run_natural {base : Nat} (hl : 2 ≤ base) (hu : base ≤ 16) (upper : Bool) (n : Nat) :
    Run base (natural base upper n) := by
  intro c hc
  rw [natural, clampBase_eq hl hu] at hc
  obtain ⟨d,hd,rfl⟩ := List.mem_map.mp hc
  rw [digitIn?_digitByte upper hu (digits_lt (by omega) n d hd)]
  rfl

theorem valueFrom_digits {base : Nat} (hl : 2 ≤ base) (hu : base ≤ 16) (upper : Bool) (n : Nat) :
    valueFrom base 0 ((digits base n).map (digitByte upper)) = n := by
  fun_induction digits base n with
  | case1 n h ih =>
    have hlast := digitIn?_digitByte upper hu (Nat.mod_lt n (by omega : base > 0))
    rw [List.map_append, valueFrom_append, ih]
    simp only [valueFrom, List.map_cons, List.map_nil, List.foldl_cons, List.foldl_nil, hlast,
      Option.getD_some]
    exact Nat.div_add_mod' n base
  | case2 n h =>
    have hn : n < base := by omega
    simp [valueFrom, Nat.mod_eq_of_lt hn, digitIn?_digitByte upper hu hn]

theorem valueFrom_natural {base : Nat} (hl : 2 ≤ base) (hu : base ≤ 16) (upper : Bool) (n : Nat) :
    valueFrom base 0 (natural base upper n) = n := by
  rw [natural, clampBase_eq hl hu]
  exact valueFrom_digits hl hu upper n

/-! ## No zero in front -/

theorem digits_head_ne_zero {base n : Nat} (hb : 2 ≤ base) (hn : n ≠ 0) :
    (digits base n).head? ≠ some 0 := by
  fun_induction digits base n with
  | case1 n h ih =>
    have hq : n / base ≠ 0 := Nat.ne_of_gt (Nat.div_pos h.2 (by omega))
    obtain ⟨d,ds,hd⟩ := List.exists_cons_of_ne_nil (digits_ne_nil base (n / base))
    have ih := ih hq
    rw [hd] at ih ⊢
    exact ih
  | case2 n h =>
    have hlt : n < base := by omega
    simpa [Nat.mod_eq_of_lt hlt] using hn

theorem digitByte_ne_zero (upper : Bool) {d : Nat} (hd : d < 16) (hz : d ≠ 0) :
    digitByte upper d ≠ 48 := by
  have hall : ∀ d < 16, d ≠ 0 → ∀ upper, digitByte upper d ≠ 48 := by decide
  exact hall d hd hz upper

theorem natural_head_ne_zero {base : Nat} (hl : 2 ≤ base) (hu : base ≤ 16) (upper : Bool) {n : Nat}
    (hn : n ≠ 0) : (natural base upper n).head? ≠ some 48 := by
  obtain ⟨d,ds,hd⟩ := List.exists_cons_of_ne_nil (digits_ne_nil base n)
  have hz : d ≠ 0 := by
    have hhead := digits_head_ne_zero hl hn
    simpa [hd] using hhead
  have hlt : d < base := digits_lt (by omega) n d (by simp [hd])
  rw [natural, clampBase_eq hl hu, hd]
  simpa using digitByte_ne_zero upper (by omega) hz

end Freestanding.Numeral
