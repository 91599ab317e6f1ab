import Freestanding.Bytes.Order

/-!
# The order of texts

The sign of a comparison is the lexicographic order of the two texts. A text
that ends goes before one that continues, since no byte of a text is as small as
the NUL that stands for its end. The laws of the order are then those of the
lexicographic one. A comparison of at most `n` places is a comparison of the
texts cut after `n` bytes.
-/

set_option autoImplicit false

namespace Freestanding.Bytes

def NulFree (s : Bytes) : Prop := ∀ c ∈ s, c ≠ 0

theorem nulFree_text (s : Bytes) : NulFree (text s) := fun _ => ne_zero_of_mem_text

theorem NulFree.tail {c : UInt8} {s : Bytes} (h : NulFree (c :: s)) : NulFree s :=
  fun d hd => h d (List.mem_cons_of_mem c hd)

theorem NulFree.head_pos {c : UInt8} {s : Bytes} (h : NulFree (c :: s)) : 0 < c.toNat := by
  have hc : c ≠ 0 := h c List.mem_cons_self
  have hn : c.toNat ≠ 0 := fun hz => hc (UInt8.toNat.inj hz)
  omega

theorem NulFree.take {s : Bytes} (h : NulFree s) (n : Nat) : NulFree (s.take n) :=
  fun c hc => h c (List.mem_of_mem_take hc)

theorem difference_swap (x y : UInt8) : difference x y = -difference y x := by
  rw [difference, difference, Int.neg_sub]

theorem compare_difference (x y : UInt8) : compare (difference x y) 0 = compare x y := by
  have hx : x < y ↔ x.toNat < y.toNat := UInt8.lt_iff_toNat_lt
  have he : x = y ↔ x.toNat = y.toNat := UInt8.toNat_inj.symm
  simp only [difference, compare, compareOfLessAndEq, hx, he]
  grind

/-! ## Comparing to the end -/

theorem compareAll_swap (a b : Bytes) : compareAll a b = -compareAll b a := by
  fun_induction compareAll a b with
  | case1 => rfl
  | case2 y b => rw [compareAll, difference_swap]
  | case3 x a => rw [compareAll, difference_swap]
  | case4 a x b ih => rw [compareAll, if_pos rfl, ih]
  | case5 x a y b h => rw [compareAll, if_neg (Ne.symm h), difference_swap]

theorem compareAll_lex {a b : Bytes} (ha : NulFree a) (hb : NulFree b) :
    compare (compareAll a b) 0 = List.compareLex compare a b := by
  fun_induction compareAll a b with
  | case1 => rfl
  | case2 y b =>
    have hy : (0 : UInt8) < y := UInt8.lt_iff_toNat_lt.mpr hb.head_pos
    rw [compare_difference, List.compareLex_nil_cons]
    exact Std.compare_eq_lt.mpr hy
  | case3 x a =>
    have hx : (0 : UInt8) < x := UInt8.lt_iff_toNat_lt.mpr ha.head_pos
    rw [compare_difference, List.compareLex_cons_nil]
    exact Std.compare_eq_gt.mpr hx
  | case4 a x b ih =>
    have hx : compare x x = .eq := Std.ReflCmp.compare_self
    rw [ih ha.tail hb.tail, List.compareLex_cons_cons, hx, Ordering.eq_then]
  | case5 x a y b h =>
    have hne : compare x y ≠ .eq := fun he => h (Std.LawfulEqCmp.eq_of_compare he)
    rw [compare_difference, List.compareLex_cons_cons]
    cases hc : compare x y with
    | eq => exact absurd hc hne
    | lt => rfl
    | gt => rfl

theorem order_eq (a b : Bytes) : order a b = List.compareLex compare (text a) (text b) :=
  compareAll_lex (nulFree_text a) (nulFree_text b)

theorem compareText_eq {a b : Bytes} : compareText a b = 0 ↔ order a b = .eq :=
  Int.compare_eq_eq.symm

theorem compareText_le {a b : Bytes} : compareText a b ≤ 0 ↔ (order a b).isLE :=
  Int.isLE_compare.symm

theorem compareText_swap (a b : Bytes) : compareText a b = -compareText b a :=
  compareAll_swap (text a) (text b)

theorem compareText_eq_zero_iff (a b : Bytes) : compareText a b = 0 ↔ text a = text b := by
  rw [compareText_eq, order_eq]
  exact Std.LawfulEqCmp.compare_eq_iff_eq

theorem compareText_trans {a b c : Bytes} (hab : compareText a b ≤ 0) (hbc : compareText b c ≤ 0) :
    compareText a c ≤ 0 ∧
      (compareText a c = 0 ↔ compareText a b = 0 ∧ compareText b c = 0) := by
  constructor
  · rw [compareText_le, order_eq] at *
    exact Std.TransCmp.isLE_trans hab hbc
  constructor
  · intro hac
    have htexts := (compareText_eq_zero_iff a c).mp hac
    have hba : compareText b a = compareText b c := by rw [compareText, htexts, ← compareText]
    have hswap := compareText_swap a b
    omega
  · rintro ⟨hab,hbc⟩
    rw [compareText_eq_zero_iff] at *
    exact hab.trans hbc

theorem compareText_sign_trans {a b c : Bytes}
    (h : (compareText a b).sign = (compareText b c).sign) :
    (compareText a c).sign = (compareText a b).sign := by
  rcases Int.lt_trichotomy (compareText a b) 0 with hab | hab | hab
  · have hbc : compareText b c < 0 := by
      rw [Int.sign_eq_neg_one_of_neg hab] at h
      exact Int.neg_of_sign_eq_neg_one h.symm
    have hac := compareText_trans (Int.le_of_lt hab) (Int.le_of_lt hbc)
    rw [Int.sign_eq_neg_one_of_neg hab, Int.sign_eq_neg_one_of_neg (by omega)]
  · have hbc : compareText b c = 0 := by
      rw [hab, Int.sign_zero] at h
      exact Int.sign_eq_zero_iff_zero.mp h.symm
    have hac := compareText_trans (Int.le_of_eq hab) (Int.le_of_eq hbc)
    rw [hab, hac.2.mpr ⟨hab,hbc⟩]
  · have hbc : 0 < compareText b c := by
      rw [Int.sign_eq_one_of_pos hab] at h
      exact Int.pos_of_sign_eq_one h.symm
    have hsab := compareText_swap a b
    have hsbc := compareText_swap b c
    have hsac := compareText_swap a c
    have hca := @compareText_trans c b a (by omega) (by omega)
    rw [Int.sign_eq_one_of_pos hab, Int.sign_eq_one_of_pos (by omega)]

/-! ## Comparing the first places -/

/-- Past its end a text reads as NUL, which no byte of the other equals. -/
theorem compareFirst_take (n : Nat) {a b : Bytes} (ha : NulFree a) (hb : NulFree b) :
    compareFirst n a b = compareAll (a.take n) (b.take n) := by
  induction n generalizing a b with
  | zero => simp [compareFirst, compareAll]
  | succ n ih =>
    cases a with
    | nil =>
      cases b with
      | nil => simp [compareFirst, compareAll, difference]
      | cons y b => simp [compareFirst, compareAll]
    | cons x a =>
      have hx : x ≠ 0 := ha x List.mem_cons_self
      cases b with
      | nil => simp [compareFirst, compareAll, hx]
      | cons y b =>
        by_cases hxy : x = y
        · simp [compareFirst, compareAll, ← hxy, hx, ih ha.tail hb.tail]
        · simp [compareFirst, compareAll, hxy]

theorem compareTextUpTo_eq (n : Nat) (a b : Bytes) :
    compareTextUpTo n a b = compareText ((text a).take n) ((text b).take n) := by
  have ha := nulFree_text a
  have hb := nulFree_text b
  rw [compareTextUpTo, compareFirst_take n ha hb, compareText, text_eq_self (ha.take n),
    text_eq_self (hb.take n)]

theorem compareTextUpTo_of_le {n : Nat} {a b : Bytes} (ha : (text a).length ≤ n)
    (hb : (text b).length ≤ n) : compareTextUpTo n a b = compareText a b := by
  rw [compareTextUpTo_eq, List.take_of_length_le ha, List.take_of_length_le hb, compareText,
    compareText, text_eq_self (nulFree_text a), text_eq_self (nulFree_text b)]

/-- Texts are in lexicographic order, whatever stands behind their first NUL: the
comparison changes its sign with its sides, is zero for equal texts only, and has the
sign of two comparisons in a row. Comparing at most `n` places compares the texts cut
after `n` bytes, and all of them if neither is longer. -/
theorem texts_compare_lexicographically (a b : Bytes) :
    order a b = List.compareLex compare (text a) (text b) ∧
    compareText a b = -compareText b a ∧
    (compareText a b = 0 ↔ text a = text b) ∧
    (∀ c, (compareText a b).sign = (compareText b c).sign →
      (compareText a c).sign = (compareText a b).sign) ∧
    (∀ c, compareText a b ≤ 0 → compareText b c ≤ 0 → compareText a c ≤ 0 ∧
      (compareText a c = 0 ↔ compareText a b = 0 ∧ compareText b c = 0)) ∧
    (∀ n, compareTextUpTo n a b = compareText ((text a).take n) ((text b).take n)) ∧
    ∀ n, (text a).length ≤ n → (text b).length ≤ n → compareTextUpTo n a b = compareText a b :=
  ⟨order_eq a b,compareText_swap a b,compareText_eq_zero_iff a b,
    fun _ => compareText_sign_trans,fun _ => compareText_trans,fun n => compareTextUpTo_eq n a b,
    fun _ => compareTextUpTo_of_le⟩

theorem greatest_byte_between_texts :
    (compareText [97, 98, 0, 122] [97, 98, 255]).sign = (compareText [97, 98, 255] [98]).sign ∧
    (compareText [97, 98, 0, 122] [98]).sign =
      (compareText [97, 98, 0, 122] [97, 98, 255]).sign ∧
    compareText [97, 98, 0, 122] [97, 98, 255] = -255 ∧
    compareTextUpTo 2 [97, 98, 0, 122] [97, 98, 255] = compareText [97, 98] [97, 98] ∧
    compareTextUpTo 3 [97, 98, 0, 122] [97, 98, 255] =
      compareText [97, 98, 0, 122] [97, 98, 255] := by
  obtain ⟨-,-,-,hsign,-,hcut,hwhole⟩ :=
    texts_compare_lexicographically [97, 98, 0, 122] [97, 98, 255]
  exact ⟨rfl,hsign [98] rfl,rfl,hcut 2,hwhole 3 (by decide) (by decide)⟩

end Freestanding.Bytes
