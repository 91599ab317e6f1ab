import Freestanding.Generator
import Mathlib.Algebra.Ring.Periodic
import Mathlib.Data.Nat.Factorization.Basic
import Mathlib.Tactic.Ring

/-!
# The period of the generator

A step multiplies by a number that is one more than a multiple of four and adds
an odd number. Under these two conditions `2^k` steps add `2^k`, up to multiples
of `2^(k+1)`: bit `k` of the seed is turned over and the bits below it are back.
So the low `k` bits of the seed run through all their states in turn, for each
`k`. A value shows the bits of the seed from the sixteenth to the thirtieth; the
last bit of the seed never reaches it.
-/

set_option autoImplicit false

namespace Freestanding.Generator

/-! ## Steps on natural numbers -/

def stride (a c x : ℕ) : ℕ := x * a + c

section Stride

variable {a c : ℕ}

theorem stride_congr {m x y : ℕ} (n : ℕ) (h : x ≡ y [MOD m]) :
    (stride a c)^[n] x ≡ (stride a c)^[n] y [MOD m] := by
  induction n generalizing x y with
  | zero => exact h
  | succ n ih => exact ih ((h.mul_right a).add_right c)

/-- `2^k` strides in one: the factor is one more than a multiple of `2^(k+2)`, and what is
added is an odd multiple of `2^k`. -/
theorem strides_eq (ha : a % 4 = 1) (hc : c % 2 = 1) (k : ℕ) :
    ∃ t s, ∀ x, (stride a c)^[2 ^ k] x = x * (2 ^ (k + 2) * t + 1) + 2 ^ k * (2 * s + 1) := by
  induction k with
  | zero =>
    refine ⟨a / 4,c / 2,fun x => ?_⟩
    have hfactor : 2 ^ (0 + 2) * (a / 4) + 1 = a := by omega
    have hsummand : 2 ^ 0 * (2 * (c / 2) + 1) = c := by omega
    rw [hfactor, hsummand]
    rfl
  | succ k ih =>
    obtain ⟨t,s,hx⟩ := ih
    refine ⟨t * (2 ^ (k + 1) * t + 1),s + 2 ^ k * t * (2 * s + 1),fun x => ?_⟩
    rw [pow_succ 2 k, mul_two, Function.iterate_add_apply, hx, hx]
    ring

theorem strides_modEq (ha : a % 4 = 1) (hc : c % 2 = 1) (k x : ℕ) :
    (stride a c)^[2 ^ k] x ≡ x + 2 ^ k [MOD 2 ^ (k + 1)] := by
  obtain ⟨t,s,hx⟩ := strides_eq ha hc k
  have he : (stride a c)^[2 ^ k] x = x + 2 ^ k + 2 ^ (k + 1) * (x * (2 * t) + s) := by
    rw [hx]
    ring
  rw [he]
  exact Nat.add_mul_mod_self_left _ _ _

theorem strides_mul (ha : a % 4 = 1) (hc : c % 2 = 1) (k n q x : ℕ) :
    (stride a c)^[n + 2 ^ k * q] x ≡ (stride a c)^[n] x + 2 ^ k * q [MOD 2 ^ (k + 1)] := by
  induction q with
  | zero => rfl
  | succ q ih =>
    have hsplit : n + 2 ^ k * (q + 1) = 2 ^ k + (n + 2 ^ k * q) := by ring
    rw [hsplit, Function.iterate_add_apply, mul_add, mul_one, ← add_assoc]
    exact (strides_modEq ha hc k _).trans (ih.add_right _)

theorem strides_back_iff (ha : a % 4 = 1) (hc : c % 2 = 1) (k n d x : ℕ) :
    (stride a c)^[n + d] x ≡ (stride a c)^[n] x [MOD 2 ^ k] ↔ 2 ^ k ∣ d := by
  induction k generalizing d with
  | zero => simp [Nat.modEq_one]
  | succ k ih =>
    -- What is back to bit `k` is back below it, so only multiples of `2^k` are in question.
    have hbelow : 2 ^ k ∣ 2 ^ (k + 1) := pow_dvd_pow 2 (Nat.le_succ k)
    suffices h : 2 ^ k ∣ d → ((stride a c)^[n + d] x ≡ (stride a c)^[n] x [MOD 2 ^ (k + 1)] ↔
        2 ^ (k + 1) ∣ d) by
      constructor
      · intro hback
        exact (h ((ih d).mp (hback.of_dvd hbelow))).mp hback
      · intro hd
        exact (h (hbelow.trans hd)).mpr hd
    rintro ⟨q,rfl⟩
    have hmul := strides_mul ha hc k n q x
    rw [← Nat.add_modEq_left_iff (a := (stride a c)^[n] x)]
    exact ⟨hmul.symm.trans,hmul.trans⟩

theorem modEq_double {m x y : ℕ} (h : x ≡ y [MOD m]) :
    x ≡ y [MOD m * 2] ∨ x + m ≡ y [MOD m * 2] := by
  obtain ⟨z,hz⟩ := Nat.modEq_iff_dvd.mp h
  rcases Int.even_or_odd' z with ⟨w,rfl | rfl⟩
  · refine Or.inl (Nat.modEq_iff_dvd.mpr ⟨w,?_⟩)
    rw [hz]
    push_cast
    ring
  · refine Or.inr (Nat.modEq_iff_dvd.mpr ⟨w,?_⟩)
    push_cast
    rw [← sub_sub, hz]
    ring

theorem strides_reach (ha : a % 4 = 1) (hc : c % 2 = 1) (k x y : ℕ) :
    ∃ n < 2 ^ k, (stride a c)^[n] x ≡ y [MOD 2 ^ k] := by
  induction k with
  | zero => exact ⟨0,by simp,by simp [Nat.modEq_one]⟩
  | succ k ih =>
    obtain ⟨n,hn,hy⟩ := ih
    rcases modEq_double hy with hsame | hturned
    · exact ⟨n,by omega,hsame⟩
    · refine ⟨n + 2 ^ k,by omega,?_⟩
      have hmul := strides_mul ha hc k n 1 x
      rw [mul_one] at hmul
      exact hmul.trans hturned

end Stride

/-! ## Draws -/

def after (g : Generator) (n : ℕ) : Generator := (g.drawMany n).2

def value (g : Generator) (n : ℕ) : UInt32 := (g.after n).draw.1

theorem drawMany_succ (g : Generator) (n : ℕ) : g.drawMany (n + 1) =
    (g.advance.output :: (g.advance.drawMany n).1,(g.advance.drawMany n).2) := rfl

theorem after_succ (g : Generator) (n : ℕ) : g.after (n + 1) = g.advance.after n := by
  rw [after, drawMany_succ, after]

theorem after_eq_iterate (g : Generator) (n : ℕ) : g.after n = advance^[n] g := by
  induction n generalizing g with
  | zero => rfl
  | succ n ih => rw [after_succ, ih, Function.iterate_succ_apply]

theorem value_eq_output (g : Generator) (n : ℕ) : g.value n = (g.after (n + 1)).output := by
  rw [value, draw, after_eq_iterate, after_eq_iterate, Function.iterate_succ_apply']

theorem value_succ (g : Generator) (n : ℕ) : g.value (n + 1) = g.advance.value n := by
  rw [value, after_succ, value]

theorem drawMany_values (g : Generator) (n : ℕ) :
    (g.drawMany n).1 = (List.range n).map g.value := by
  induction n generalizing g with
  | zero => rfl
  | succ n ih =>
    rw [drawMany_succ, List.range_succ_eq_map, List.map_cons, List.map_map, ih]
    exact congrArg _ (List.map_congr_left fun i _ => (value_succ g i).symm)

theorem seed_after (g : Generator) (n : ℕ) :
    (g.after n).seed.toNat = (stride 1103515245 12345)^[n] g.seed.toNat % 2 ^ 32 := by
  rw [after_eq_iterate]
  induction n with
  | zero => exact (Nat.mod_eq_of_lt g.seed.toNat_lt).symm
  | succ n ih =>
    rw [Function.iterate_succ_apply', Function.iterate_succ_apply', stride]
    generalize (stride 1103515245 12345)^[n] g.seed.toNat = x at ih
    have hmul : (1103515245 : UInt32).toNat = 1103515245 := rfl
    have hadd : (12345 : UInt32).toNat = 12345 := rfl
    rw [advance, UInt32.toNat_add, UInt32.toNat_mul, ih, hmul, hadd]
    omega

theorem value_toNat (g : Generator) (n : ℕ) : (g.value n).toNat =
    (stride 1103515245 12345)^[n + 1] g.seed.toNat % 2 ^ 31 / 65536 := by
  have hseed := seed_after g (n + 1)
  generalize (stride 1103515245 12345)^[n + 1] g.seed.toNat = x at hseed
  have hd : (65536 : UInt32).toNat = 65536 := rfl
  have hm : (32768 : UInt32).toNat = 32768 := rfl
  rw [value_eq_output, output, UInt32.toNat_mod, UInt32.toNat_div, hseed, hd, hm]
  omega

theorem after_add_iff (g : Generator) (n d : ℕ) : g.after (n + d) = g.after n ↔ 2 ^ 32 ∣ d := by
  rw [← strides_back_iff (a := 1103515245) (c := 12345) rfl rfl 32 n d g.seed.toNat, Nat.ModEq,
    ← seed_after, ← seed_after, UInt32.toNat_inj]
  exact ⟨congrArg seed,fun h => by rw [← mk.injEq] at h; exact h⟩

theorem after_reach (g : Generator) (s : UInt32) : ∃ n < 2 ^ 32, (g.after n).seed = s := by
  obtain ⟨n,hn,hs⟩ := strides_reach (a := 1103515245) (c := 12345) rfl rfl 32 g.seed.toNat s.toNat
  refine ⟨n,hn,UInt32.toNat.inj ?_⟩
  rw [seed_after, hs, Nat.mod_eq_of_lt s.toNat_lt]

theorem value_add_ne (g : Generator) (n : ℕ) {q : ℕ} (hq : Odd q) :
    g.value (n + 2 ^ 30 * q) ≠ g.value n := by
  intro he
  have hturned := strides_mul (a := 1103515245) (c := 12345) rfl rfl 30 (n + 1) q g.seed.toNat
  have hvalues := congrArg UInt32.toNat he
  rw [value_toNat, value_toNat, Nat.add_right_comm, hturned] at hvalues
  obtain ⟨i,rfl⟩ := hq
  omega

theorem periodic_value_iff (g : Generator) (p : ℕ) :
    Function.Periodic g.value p ↔ 2 ^ 31 ∣ p := by
  constructor
  · intro hp
    by_contra hnd
    have hzero : p ≠ 0 := fun h => hnd (h ▸ dvd_zero _)
    obtain ⟨j,q,hq,rfl⟩ := Nat.exists_eq_two_pow_mul_odd hzero
    have hj : j ≤ 30 := by
      by_contra hj
      exact hnd ((pow_dvd_pow 2 (by omega)).mul_right q)
    -- With `p` its multiples are periods, an odd multiple of `2^30` among them.
    have hmultiple := hp.nat_mul (2 ^ (30 - j)) 0
    rw [Nat.cast_id, ← mul_assoc, ← pow_add, Nat.sub_add_cancel hj] at hmultiple
    exact value_add_ne g 0 hq hmultiple
  · intro hp n
    have hback := (strides_back_iff (a := 1103515245) (c := 12345) rfl rfl 31 (n + 1) p
      g.seed.toNat).mpr hp
    apply UInt32.toNat.inj
    rw [value_toNat, value_toNat, Nat.add_right_comm, hback]

theorem value_topBit (g : Generator) (n : ℕ) :
    value ⟨g.seed ^^^ 2147483648⟩ n = g.value n := by
  have hlow : (g.seed ^^^ 2147483648).toNat ≡ g.seed.toNat [MOD 2 ^ 31] := by
    have htop : (2147483648 : UInt32).toNat % 2 ^ 31 = 0 := rfl
    rw [UInt32.toNat_xor, Nat.ModEq, Nat.xor_mod_two_pow, htop, Nat.xor_zero]
  apply UInt32.toNat.inj
  rw [value_toNat, value_toNat, stride_congr (n + 1) hlow]

/-- From every seed all seeds are met, each once in 4294967296 draws, before the first comes
back. The values repeat after 2147483648 draws and at no smaller distance, and seeds that
differ in the top bit alone give the same values for ever. -/
theorem generator_has_full_period (g : Generator) :
    (∀ s, ∃ n < 4294967296, (g.after n).seed = s) ∧
    (∀ n d, g.after (n + d) = g.after n ↔ 4294967296 ∣ d) ∧
    (∀ p, Function.Periodic g.value p ↔ 2147483648 ∣ p) ∧
    (∀ n, (g.drawMany n).1 = (List.range n).map g.value) ∧
    ∀ n, (drawMany ⟨g.seed ^^^ 2147483648⟩ n).1 = (g.drawMany n).1 := by
  refine ⟨after_reach g,after_add_iff g,periodic_value_iff g,drawMany_values g,fun n => ?_⟩
  rw [drawMany_values, drawMany_values]
  exact List.map_congr_left fun i _ => value_topBit g i

end Freestanding.Generator
