import Freestanding.Digest
import Mathlib.Algebra.Field.ZMod
import Mathlib.Data.Nat.Bitwise
import Mathlib.RingTheory.AdjoinRoot
import Mathlib.Tactic.ComputeDegree
import Mathlib.Tactic.LinearCombination

/-!
# Checks as remainders

The bits of a word, the lowest first, are the coefficients of a polynomial over
the integers modulo two, the highest first. A step of the register multiplies
its polynomial by `X` and takes the remainder modulo the polynomial of the check,
so the register after some bytes is the remainder of those bytes behind the
register they started from. Complementing a check gives back the register, so a
check can be continued wherever the bytes are split. Since `X` is prime to the
polynomial of the check, no bytes lead two registers to the same one. All that is
assumed of an engine is that its checks are those of the register.
-/

set_option autoImplicit false

namespace Freestanding.Digest

open Polynomial

noncomputable section

/-! ## Words as polynomials -/

/-- The low `n` bits of a number, the lowest at the highest power. -/
def word : ℕ → ℕ → (ZMod 2)[X]
  | 0, _ => 0
  | n + 1, w => ((w % 2 : ℕ) : (ZMod 2)[X]) * X ^ n + word n (w / 2)

theorem word_zero (n : ℕ) : word n 0 = 0 := by
  induction n with
  | zero => rfl
  | succ n ih => simpa [word] using ih

theorem lowBit_xor (v w : ℕ) :
    (((v ^^^ w) % 2 : ℕ) : (ZMod 2)[X]) = (v % 2 : ℕ) + (w % 2 : ℕ) := by
  rw [Nat.xor_mod_two_eq, ← CharP.cast_eq_mod, ← CharP.cast_eq_mod, ← CharP.cast_eq_mod,
    Nat.cast_add]

theorem word_xor (n v w : ℕ) : word n (v ^^^ w) = word n v + word n w := by
  induction n generalizing v w with
  | zero => simp [word]
  | succ n ih =>
    rw [word, word, word, lowBit_xor, Nat.xor_div_two, ih]
    ring

theorem word_succ {n w : ℕ} (h : w < 2 ^ n) : word (n + 1) w = X * word n w := by
  induction n generalizing w with
  | zero =>
    have hw : w = 0 := by omega
    rw [hw, word_zero, word_zero, mul_zero]
  | succ n ih =>
    have hhalf : w / 2 < 2 ^ n := by omega
    rw [word, ih hhalf, word]
    ring

theorem word_add {n w : ℕ} (h : w < 2 ^ n) (k : ℕ) : word (n + k) w = X ^ k * word n w := by
  induction k with
  | zero => rw [pow_zero, one_mul, Nat.add_zero]
  | succ k ih =>
    have hw : w < 2 ^ (n + k) := h.trans_le (Nat.pow_le_pow_right (by decide) (Nat.le_add_right n k))
    rw [← Nat.add_assoc, word_succ hw, ih, ← mul_assoc, ← pow_succ']

theorem degree_word_lt (n w : ℕ) : (word n w).degree < n := by
  induction n generalizing w with
  | zero => simp [word]
  | succ n ih =>
    have hn : (n : WithBot ℕ) < (n + 1 : ℕ) := by exact_mod_cast Nat.lt_succ_self n
    have hhead := degree_C_mul_X_pow_le n ((w % 2 : ℕ) : ZMod 2)
    rw [C_eq_natCast] at hhead
    exact (degree_add_le _ _).trans_lt (max_lt (hhead.trans_lt hn) ((ih _).trans hn))

theorem coeff_word (n w : ℕ) : (word (n + 1) w).coeff n = (w % 2 : ℕ) := by
  have htail : (word n (w / 2)).coeff n = 0 := coeff_eq_zero_of_degree_lt (degree_word_lt n _)
  rw [word, coeff_add, htail, add_zero, ← C_eq_natCast, coeff_C_mul_X_pow, if_pos rfl]

theorem eq_zero_of_word {n w : ℕ} (hw : w < 2 ^ n) (h : word n w = 0) : w = 0 := by
  induction n generalizing w with
  | zero => omega
  | succ n ih =>
    have hcoeff := coeff_word n w
    rw [h, coeff_zero, eq_comm, ZMod.natCast_eq_zero_iff] at hcoeff
    have hlow : w % 2 = 0 := by omega
    rw [word, hlow, Nat.cast_zero, zero_mul, zero_add] at h
    have hhalf := ih (by omega) h
    omega

/-! ## The polynomial of the check -/

def checkPolynomial : (ZMod 2)[X] :=
  X ^ 32 + X ^ 26 + X ^ 23 + X ^ 22 + X ^ 16 + X ^ 12 + X ^ 11 + X ^ 10 + X ^ 8 + X ^ 7 + X ^ 5 +
    X ^ 4 + X ^ 2 + X + 1

theorem checkPolynomial_eq : checkPolynomial = X ^ 32 + word 32 polynomial.toNat := by
  have hn : polynomial.toNat = 3988292384 := rfl
  simp only [checkPolynomial, hn, word, Nat.reduceMod, Nat.reduceDiv, Nat.mod_succ, Nat.cast_zero,
    Nat.cast_one, zero_mul, one_mul, mul_one, pow_zero, pow_one, add_zero, zero_add]
  ring

theorem checkPolynomial_monic : checkPolynomial.Monic := by
  unfold checkPolynomial
  monicity!

theorem degree_checkPolynomial : checkPolynomial.degree = 32 := by
  unfold checkPolynomial
  compute_degree!

theorem isCoprime_X_checkPolynomial : IsCoprime X checkPolynomial := by
  have hone : checkPolynomial.coeff 0 = 1 := by simp [checkPolynomial]
  have hdiv := divX_mul_X_add checkPolynomial
  rw [hone, C_1] at hdiv
  refine ⟨-divX checkPolynomial,1,?_⟩
  nth_rewrite 2 [← hdiv]
  ring

/-! ## The register as a remainder -/

def residue (r : UInt32) : AdjoinRoot checkPolynomial := AdjoinRoot.mk _ (word 32 r.toNat)

theorem residue_xor (r s : UInt32) : residue (r ^^^ s) = residue r + residue s := by
  rw [residue, UInt32.toNat_xor, word_xor, map_add, residue, residue]

theorem residue_inj {r s : UInt32} (h : residue r = residue s) : r = s := by
  have hdvd := AdjoinRoot.mk_eq_mk.mp h
  rw [CharTwo.sub_eq_add, ← word_xor] at hdvd
  have hdegree : (word 32 (r.toNat ^^^ s.toNat)).degree < checkPolynomial.degree := by
    rw [degree_checkPolynomial]
    exact degree_word_lt 32 _
  have hzero : word 32 (r.toNat ^^^ s.toNat) = 0 := by
    by_contra hne
    exact checkPolynomial_monic.not_dvd_of_degree_lt hne hdegree hdvd
  have hxor := eq_zero_of_word (Nat.xor_lt_two_pow r.toNat_lt s.toNat_lt) hzero
  exact UInt32.toNat.inj (Nat.eq_of_xor_eq_zero hxor)

theorem X_mul_word {w : ℕ} (h : w < 2 ^ 32) :
    X * word 32 w = ((w % 2 : ℕ) : (ZMod 2)[X]) * X ^ 32 + word 32 (w / 2) := by
  have hhalf : w / 2 < 2 ^ 31 := by omega
  rw [word_succ hhalf, word]
  ring

/-- A step of the register multiplies by `X`. -/
theorem residue_crcBit (r : UInt32) : residue (crcBit r) = AdjoinRoot.root _ * residue r := by
  have hlow : r &&& 1 = 1 ↔ r.toNat % 2 = 1 := by
    rw [← UInt32.toNat_inj, UInt32.toNat_and, UInt32.toNat_one, Nat.and_one_is_mod]
  have hshift : (r >>> 1).toNat = r.toNat / 2 := by
    rw [UInt32.toNat_shiftRight]
    rfl
  have hmul := X_mul_word r.toNat_lt
  rw [residue, residue, ← AdjoinRoot.mk_X, ← map_mul, hmul]
  refine AdjoinRoot.mk_eq_mk.mpr ?_
  by_cases hr : r.toNat % 2 = 1
  · rw [crcBit, if_pos (hlow.mpr hr), UInt32.toNat_xor, word_xor, hshift, hr]
    refine ⟨1,?_⟩
    rw [checkPolynomial_eq, CharTwo.sub_eq_add, Nat.cast_one]
    linear_combination CharTwo.add_self_eq_zero (word 32 (r.toNat / 2))
  · have hr0 : r.toNat % 2 = 0 := by omega
    rw [crcBit, if_neg (mt hlow.mp hr), hshift, hr0]
    simp

def message : Bytes → (ZMod 2)[X]
  | [] => 0
  | b :: bs => word 8 b.toNat * X ^ (8 * bs.length) + message bs

theorem residue_crcByte (r : UInt32) (b : UInt8) : residue (crcByte r b) =
    AdjoinRoot.root _ ^ 8 * residue r +
      AdjoinRoot.root _ ^ 32 * AdjoinRoot.mk _ (word 8 b.toNat) := by
  have hbyte : residue b.toUInt32 = AdjoinRoot.root _ ^ 24 * AdjoinRoot.mk _ (word 8 b.toNat) := by
    rw [residue, UInt8.toNat_toUInt32, word_add b.toNat_lt 24, map_mul, map_pow, AdjoinRoot.mk_X]
  simp only [crcByte, residue_crcBit, residue_xor, hbyte]
  ring

theorem residue_foldl (data : Bytes) (r : UInt32) : residue (data.foldl crcByte r) =
    AdjoinRoot.root _ ^ (8 * data.length) * residue r +
      AdjoinRoot.root _ ^ 32 * AdjoinRoot.mk _ (message data) := by
  induction data generalizing r with
  | nil => simp [message]
  | cons b data ih =>
    rw [List.foldl_cons, ih, residue_crcByte, message, map_add, map_mul, map_pow, AdjoinRoot.mk_X,
      List.length_cons]
    ring

theorem word_foldl (data : Bytes) (r : UInt32) : word 32 (data.foldl crcByte r).toNat =
    (X ^ (8 * data.length) * word 32 r.toNat + X ^ 32 * message data) %ₘ checkPolynomial := by
  have hcongr : AdjoinRoot.mk checkPolynomial (word 32 (data.foldl crcByte r).toNat) =
      AdjoinRoot.mk _ (X ^ (8 * data.length) * word 32 r.toNat + X ^ 32 * message data) := by
    simp only [map_add, map_mul, map_pow, AdjoinRoot.mk_X]
    exact residue_foldl data r
  rw [← modByMonic_eq_of_dvd_sub checkPolynomial_monic (AdjoinRoot.mk_eq_mk.mp hcongr), eq_comm,
    modByMonic_eq_self_iff checkPolynomial_monic, degree_checkPolynomial]
  exact degree_word_lt 32 _

theorem isUnit_root : IsUnit (AdjoinRoot.root checkPolynomial) := by
  obtain ⟨a,b,hab⟩ := isCoprime_X_checkPolynomial
  have hmk := congrArg (AdjoinRoot.mk checkPolynomial) hab
  rw [map_add, map_mul, map_mul, AdjoinRoot.mk_X, AdjoinRoot.mk_self, mul_zero, add_zero,
    map_one] at hmk
  exact IsUnit.of_mul_eq_one_right _ hmk

theorem foldl_crcByte_inj {data : Bytes} {r s : UInt32}
    (h : data.foldl crcByte r = data.foldl crcByte s) : r = s := by
  have hres := congrArg residue h
  rw [residue_foldl, residue_foldl, add_left_inj] at hres
  exact residue_inj ((isUnit_root.pow _).mul_left_cancel hres)

/-! ## Checks in parts -/

namespace Engine

/-- The assumption on an engine: it computes the reflected check, and a resumed
hasher goes on from the register that the finished check complements. -/
structure Reflected (e : Engine) : Prop where
  hash : ∀ data, e.hash data = ~~~(data.foldl crcByte 0xFFFFFFFF)
  resumed : ∀ check data,
    e.finalize (e.update (e.resume check) data) = ~~~(data.foldl crcByte (~~~check))

theorem register_reflected : register.Reflected := ⟨fun _ => rfl,fun _ _ => rfl⟩

namespace Reflected

variable {e : Engine} (h : e.Reflected)

include h

theorem extend_eq (check : UInt32) (data : Bytes) :
    e.extend check data = ~~~(data.foldl crcByte (~~~check)) := h.resumed check data

theorem check_eq (data : Bytes) : e.check data = e.extend 0 data := by
  rw [check, h.hash, h.extend_eq]
  rfl

theorem extend_append (check : UInt32) (s t : Bytes) :
    e.extend (e.extend check s) t = e.extend check (s ++ t) := by
  rw [h.extend_eq, h.extend_eq, h.extend_eq, UInt32.not_not, List.foldl_append]

theorem foldl_extend (check : UInt32) (parts : List Bytes) :
    parts.foldl e.extend check = e.extend check parts.flatten := by
  induction parts generalizing check with
  | nil => simp [h.extend_eq]
  | cons part parts ih => rw [List.foldl_cons, ih, h.extend_append, List.flatten_cons]

end Reflected

end Engine

/-- A check is the complement of a remainder modulo the polynomial of the check: that of the
bytes moved up by thirty-two places, with ones added to their first thirty-two. Continued part
by part it is the check of all the parts together, wherever they are split, and different
checks stay different when the same bytes follow. -/
theorem checks_extend_across_splits (e : Engine) (h : e.Reflected) :
    (∀ data : Bytes, word 32 (~~~e.check data).toNat =
      (X ^ (8 * data.length) * word 32 4294967295 + X ^ 32 * message data) %ₘ checkPolynomial) ∧
    (∀ parts : List Bytes, parts.foldl e.extend 0 = e.check parts.flatten) ∧
    (∀ (first : Bytes) (rest : List Bytes),
      rest.foldl e.extend (e.check first) = e.check (first ++ rest.flatten)) ∧
    (∀ (check : UInt32) (parts : List Bytes),
      parts.foldl e.extend check = e.extend check parts.flatten) ∧
    ∀ data : Bytes, Function.Injective fun check => e.extend check data := by
  refine ⟨fun data => ?_,fun parts => ?_,fun first rest => ?_,h.foldl_extend,
    fun data c d heq => ?_⟩
  · rw [h.check_eq, h.extend_eq, UInt32.not_not, word_foldl]
    rfl
  · rw [h.foldl_extend, h.check_eq]
  · rw [h.foldl_extend, h.check_eq, h.extend_append, h.check_eq]
  · have heq : e.extend c data = e.extend d data := heq
    rw [h.extend_eq, h.extend_eq] at heq
    exact UInt32.not_inj.mp (foldl_crcByte_inj (UInt32.not_inj.mp heq))

theorem register_checks_extend :
    Engine.register.Reflected ∧
    (∀ data : Bytes, word 32 (~~~crc data).toNat =
      (X ^ (8 * data.length) * word 32 4294967295 + X ^ 32 * message data) %ₘ checkPolynomial) ∧
    (∀ parts : List Bytes, parts.foldl crcUpdate 0 = crc parts.flatten) ∧
    (∀ (first : Bytes) (rest : List Bytes),
      rest.foldl crcUpdate (crc first) = crc (first ++ rest.flatten)) ∧
    (∀ (check : UInt32) (parts : List Bytes),
      parts.foldl crcUpdate check = crcUpdate check parts.flatten) ∧
    ∀ data : Bytes, Function.Injective fun check => crcUpdate check data :=
  ⟨Engine.register_reflected,checks_extend_across_splits _ Engine.register_reflected⟩

example : [[49, 50, 51], [], [52, 53, 54, 55, 56, 57]].foldl crcUpdate 0 = 0xCBF43926 := by
  decide +kernel

end

end Freestanding.Digest
