import Freestanding.Elementary.Rounding
import Mathlib.Tactic.Common

/-!
# Finite doubles in parts

A finite double other than zero is a sign, a mantissa and an exponent. The
mantissa has its first bit set, or else the exponent is the least one. In these
parts a double is packed into its bits and found again, and two positive
doubles are compared by their exponents first.
-/

set_option autoImplicit false

namespace Freestanding.Binary64

open Float.Model Float.Model.UnpackedFloat

/-- The parts that a finite double can have. -/
structure Canonical (m : Nat) (e : Int) : Prop where
  bits : m < 9007199254740992
  least : -1074 ≤ e
  greatest : e ≤ 971
  full : 4503599627370496 ≤ m ∨ e = -1074

theorem toNat_implicit (v : BitVec 52) : (1#1 ++ v).toNat = 4503599627370496 + v.toNat := by
  rw [BitVec.toNat_append, ← Nat.shiftLeft_add_eq_or_of_lt v.isLt]
  rfl

def ofFields (s : Sign) (w v : Nat) : UnpackedFloat :=
  if w = 2047 then
    if v = 0 then .infinity s else .notANumber
  else if w = 0 then
    if hz : v = 0 then .zero s else .finite s v (-1074) (Nat.pos_of_ne_zero hz)
  else .finite s (4503599627370496 + v) (w - 1075) (by omega)

theorem ofFields_toNat (s : Sign) (w : BitVec 11) (v : BitVec 52)
    (hv : v ≠ 0#52 → 0 < v.toNat) (hone : 0 < (1#1 ++ v).toNat) :
    ofFields s w.toNat v.toNat =
      if w = -1#11 then if v = 0#52 then .infinity s else .notANumber
      else if w = 0#11 then
        if hz : v = 0#52 then .zero s else .finite s v.toNat (w.toNat - 1075 + 1) (hv hz)
      else .finite s (1#1 ++ v).toNat (w.toNat - 1075) hone := by
  have hinf : w = -1#11 ↔ w.toNat = 2047 := ⟨congrArg BitVec.toNat,fun h => BitVec.eq_of_toNat_eq h⟩
  have hlow : w = 0#11 ↔ w.toNat = 0 := ⟨congrArg BitVec.toNat,fun h => BitVec.eq_of_toNat_eq h⟩
  have hzero : v = 0#52 ↔ v.toNat = 0 := ⟨congrArg BitVec.toNat,fun h => BitVec.eq_of_toNat_eq h⟩
  by_cases htop : w.toNat = 2047
  · rw [ofFields, if_pos htop, if_pos (hinf.mpr htop)]
    by_cases hz : v.toNat = 0
    · rw [if_pos hz, if_pos (hzero.mpr hz)]
    · rw [if_neg hz, if_neg (mt hzero.mp hz)]
  · rw [ofFields, if_neg htop, if_neg (mt hinf.mp htop)]
    by_cases hw : w.toNat = 0
    · rw [if_pos hw, if_pos (hlow.mpr hw)]
      by_cases hz : v.toNat = 0
      · rw [dif_pos hz, dif_pos (hzero.mpr hz)]
      · rw [dif_neg hz, dif_neg (mt hzero.mp hz), finite.injEq, hw]
        exact ⟨rfl,rfl,rfl⟩
    · rw [if_neg hw, if_neg (mt hlow.mp hw), finite.injEq]
      exact ⟨rfl,(toNat_implicit v).symm,rfl⟩

theorem unpack_eq (b : BitVec 64) : UnpackedFloat.unpack Format.binary64 b =
    ofFields (.ofBitVec (@unpackSign Format.binary64 b))
      (@unpackExponent Format.binary64 b).toNat (@unpackMantissa Format.binary64 b).toNat := by
  rw [ofFields_toNat]
  rfl

/-- The other fields decide what a double is, whatever its sign. -/
theorem ofFields_cases (w : BitVec 11) (v : BitVec 52) :
    (∀ s, ofFields s w.toNat v.toNat = .notANumber) ∨
      (∀ s, ofFields s w.toNat v.toNat = .infinity s) ∨
        (∀ s, ofFields s w.toNat v.toNat = .zero s) ∨
          ∃ m e hm, Canonical m e ∧ ∀ s, ofFields s w.toNat v.toNat = .finite s m e hm := by
  have hw : w.toNat < 2048 := w.isLt
  have hv : v.toNat < 4503599627370496 := v.isLt
  by_cases hinf : w.toNat = 2047
  · by_cases hz : v.toNat = 0
    · refine .inr (.inl fun s => ?_)
      rw [ofFields, if_pos hinf, if_pos hz]
    · refine .inl fun s => ?_
      rw [ofFields, if_pos hinf, if_neg hz]
  · by_cases hlow : w.toNat = 0
    · by_cases hz : v.toNat = 0
      · refine .inr (.inr (.inl fun s => ?_))
        rw [ofFields, if_neg hinf, if_pos hlow, dif_pos hz]
      · refine .inr (.inr (.inr ⟨v.toNat,-1074,Nat.pos_of_ne_zero hz,?_,fun s => ?_⟩))
        · exact ⟨by omega,by decide,by decide,.inr rfl⟩
        · rw [ofFields, if_neg hinf, if_pos hlow, dif_neg hz]
    · refine .inr (.inr (.inr ⟨4503599627370496 + v.toNat,w.toNat - 1075,by omega,?_,fun s => ?_⟩))
      · exact ⟨by omega,by omega,by omega,.inl (by omega)⟩
      · rw [ofFields, if_neg hinf, if_neg hlow]

theorem ofFields_finite {s t : Sign} {w : BitVec 11} {v : BitVec 52} {m : Nat} {e : Int}
    {hm : 0 < m} (h : ofFields s w.toNat v.toNat = .finite t m e hm) :
    Canonical m e ∧ ∀ s, ofFields s w.toNat v.toNat = .finite s m e hm := by
  rcases ofFields_cases w v with hn | hi | hz | ⟨m',e',hm',hc,hf⟩
  · cases (hn s).symm.trans h
  · cases (hi s).symm.trans h
  · cases (hz s).symm.trans h
  · obtain ⟨-,rfl,rfl⟩ := finite.inj ((hf s).symm.trans h)
    exact ⟨hc,hf⟩

theorem unpack_canonical {b : BitVec 64} {s : Sign} {m : Nat} {e : Int} {hm : 0 < m}
    (h : UnpackedFloat.unpack Format.binary64 b = .finite s m e hm) : Canonical m e :=
  (ofFields_finite ((unpack_eq b).symm.trans h)).1

theorem sign_packed (s : Sign) (w : BitVec 11) (v : BitVec 52) :
    Sign.ofBitVec (unpackSign (packComponents Format.binary64 s w v)) = s := by
  have hfirst : BitVec.extractLsb' 63 1 (s.toBitVec ++ w ++ v) = s.toBitVec := by
    rw [BitVec.extractLsb'_append_eq_of_le (by omega),
      BitVec.extractLsb'_append_eq_of_le (by omega)]
    exact BitVec.extractLsb'_eq_self
  have hsign : unpackSign (packComponents Format.binary64 s w v) = s.toBitVec := hfirst
  rw [hsign]
  cases s <;> rfl

theorem unpack_fields (s : Sign) {w v : Nat} (hw : w < 2048) (hv : v < 4503599627370496) :
    UnpackedFloat.unpack Format.binary64
      (packComponents Format.binary64 s (BitVec.ofNat 11 w) (BitVec.ofNat 52 v)) =
        ofFields s w v := by
  have hw' : (BitVec.ofNat 11 w).toNat = w := Nat.mod_eq_of_lt hw
  have hv' : (BitVec.ofNat 52 v).toNat = v := Nat.mod_eq_of_lt hv
  rw [unpack_eq, sign_packed, unpackExponent_packComponents, unpackMantissa_packComponents, hw',
    hv']

theorem pack_finite (s : Sign) (m : Nat) (e : Int) (hm : 0 < m) :
    UnpackedFloat.pack Format.binary64 (.finite s m e hm) =
      if 2048 ≤ (e + 1075).toNat + 1 then packedInfinity Format.binary64 s
      else if m.log2 + 1 = 53 then
        packComponents Format.binary64 s (BitVec.ofNat 11 (e + 1075).toNat) (BitVec.ofNat 52 m)
      else packComponents Format.binary64 s (BitVec.ofNat 11 0) (BitVec.ofNat 52 m) := by
  have hbias : (e + (1023 : Nat) + (52 : Nat)).toNat = (e + 1075).toNat := by omega
  rw [← hbias]
  rfl

theorem unpack_pack {s : Sign} {m : Nat} {e : Int} {hm : 0 < m} (h : Canonical m e) :
    (Float.Model.pack (.finite s m e hm)).unpack = .finite s m e hm := by
  have hle := h.least
  have hge := h.greatest
  have hbits := h.bits
  show UnpackedFloat.unpack Format.binary64 (UnpackedFloat.pack Format.binary64 _) = _
  rw [pack_finite, if_neg (by omega)]
  by_cases hfull : 4503599627370496 ≤ m
  · have hlog : m.log2 = 52 := (Nat.log2_eq_iff (by omega)).mpr ⟨hfull,hbits⟩
    have hv : BitVec.ofNat 52 m = BitVec.ofNat 52 (m - 4503599627370496) := by
      apply BitVec.eq_of_toNat_eq
      simp only [BitVec.toNat_ofNat]
      omega
    rw [if_pos (by rw [hlog]), hv, unpack_fields s (by omega) (by omega), ofFields,
      if_neg (by omega), if_neg (by omega), finite.injEq]
    exact ⟨rfl,by omega,by omega⟩
  · have hlog : m.log2 < 52 := (Nat.log2_lt (by omega)).mpr (Nat.not_le.mp hfull)
    rw [if_neg (by omega), unpack_fields s (by omega) (by omega), ofFields, if_neg (by decide),
      if_pos rfl, dif_neg (by omega), finite.injEq]
    exact ⟨rfl,rfl,(h.full.resolve_left hfull).symm⟩

/-! ## Positive doubles -/

def Positive (x : Float) (m : Nat) (e : Int) : Prop :=
  ∃ hm, x.toModel.unpack = .finite .positive m e hm

def IsZero (x : Float) : Prop := ∃ s, x.toModel.unpack = .zero s

theorem Positive.canonical {x : Float} {m : Nat} {e : Int} (h : Positive x m e) :
    Canonical m e := by
  obtain ⟨hm,hu⟩ := h
  exact unpack_canonical hu

theorem Positive.log2_lt {x : Float} {m : Nat} {e : Int} (h : Positive x m e) : m.log2 < 53 :=
  (Nat.log2_lt (Nat.ne_of_gt h.1)).mpr h.canonical.bits

theorem finite_cases {x : Float} (hx : x.isFinite = true) :
    IsZero x ∨ ∃ s m e hm, x.toModel.unpack = .finite s m e hm := by
  replace hx : x.toModel.unpack.isFinite = true := hx
  cases hu : x.toModel.unpack with
  | notANumber =>
    rw [hu] at hx
    exact absurd hx Bool.false_ne_true
  | infinity s =>
    rw [hu] at hx
    exact absurd hx Bool.false_ne_true
  | zero s => exact .inl ⟨s,hu⟩
  | finite s m e hm => exact .inr ⟨s,m,e,hm,rfl⟩

/-! ## The sign bit -/

theorem mask_getLsbD : ∀ i < 63, (0x7FFFFFFFFFFFFFFF#64).getLsbD i = true := by decide

theorem unpack_mask (b : BitVec 64) :
    UnpackedFloat.unpack Format.binary64 (b &&& 0x7FFFFFFFFFFFFFFF#64) =
      ofFields .positive (@unpackExponent Format.binary64 b).toNat
        (@unpackMantissa Format.binary64 b).toNat := by
  have hmantissa : @unpackMantissa Format.binary64 (b &&& 0x7FFFFFFFFFFFFFFF#64) =
      @unpackMantissa Format.binary64 b := by
    apply BitVec.eq_of_getLsbD_eq
    intro i (hi : i < 52)
    have hmask := mask_getLsbD i (by omega)
    simp [unpackMantissa, hmask]
  have hexponent : @unpackExponent Format.binary64 (b &&& 0x7FFFFFFFFFFFFFFF#64) =
      @unpackExponent Format.binary64 b := by
    apply BitVec.eq_of_getLsbD_eq
    intro i (hi : i < 11)
    have hmask := mask_getLsbD (52 + i) (by omega)
    simp [unpackExponent, hmask]
  have hsign : @unpackSign Format.binary64 (b &&& 0x7FFFFFFFFFFFFFFF#64) = 0#1 := by
    show BitVec.extractLsb' 63 1 (b &&& 0x7FFFFFFFFFFFFFFF#64) = 0#1
    rw [BitVec.extractLsb'_and]
    exact BitVec.and_zero
  rw [unpack_eq, hmantissa, hexponent, hsign]
  rfl

theorem magnitude_unpack (x : Float) : (Elementary.magnitude x).toModel =
    Float.Model.pack (UnpackedFloat.unpack Format.binary64
      (x.toModel.toBits.toBitVec &&& 0x7FFFFFFFFFFFFFFF#64)) := rfl

theorem magnitude_positive {x : Float} {s : Sign} {m : Nat} {e : Int} {hm : 0 < m}
    (h : x.toModel.unpack = .finite s m e hm) : Positive (Elementary.magnitude x) m e := by
  obtain ⟨hc,hf⟩ := ofFields_finite ((unpack_eq _).symm.trans h)
  refine ⟨hm,?_⟩
  rw [magnitude_unpack, unpack_mask, hf]
  exact unpack_pack hc

theorem magnitude_zero {x : Float} (h : IsZero x) : IsZero (Elementary.magnitude x) := by
  obtain ⟨s,hu⟩ := h
  replace hu := (unpack_eq _).symm.trans hu
  rw [IsZero, magnitude_unpack, unpack_mask]
  generalize x.toModel.toBits.toBitVec = b at hu ⊢
  rcases ofFields_cases (@unpackExponent Format.binary64 b) (@unpackMantissa Format.binary64 b) with
    hn | hi | hz | ⟨m,e,hm,hc,hf⟩
  · cases (hn _).symm.trans hu
  · cases (hi _).symm.trans hu
  · rw [hz]
    exact ⟨.positive,rfl⟩
  · cases (hf _).symm.trans hu

/-! ## Comparisons -/

theorem ge_iff (x y : Float) : x ≥ y ↔ y.toModel.unpack.le x.toModel.unpack = true := by
  show decide (y.toModel ≤ x.toModel) = true ↔ _
  rw [decide_eq_true_iff]
  rfl

theorem lt_iff (x y : Float) : x < y ↔ x.toModel.unpack.lt y.toModel.unpack = true := by
  show decide (x.toModel < y.toModel) = true ↔ _
  rw [decide_eq_true_iff]
  rfl

theorem Positive.compare {x y : Float} {m k : Nat} {e f : Int} (hx : Positive x m e)
    (hy : Positive y k f) : x.toModel.unpack.compare y.toModel.unpack =
      some ((compare e f).then (compare m k)) := by
  obtain ⟨hm,hu⟩ := hx
  obtain ⟨hk,hv⟩ := hy
  rw [hu, hv]
  rfl

theorem Positive.lt_iff_parts {x y : Float} {m k : Nat} {e f : Int} (hx : Positive x m e)
    (hy : Positive y k f) : x < y ↔ e < f ∨ e = f ∧ m < k := by
  rw [lt_iff, UnpackedFloat.lt, hx.compare hy]
  simp [Ordering.then_eq_lt, Int.compare_eq_lt, Nat.compare_eq_lt]

theorem Positive.ge_iff_parts {x y : Float} {m k : Nat} {e f : Int} (hx : Positive x m e)
    (hy : Positive y k f) : x ≥ y ↔ f < e ∨ f = e ∧ k ≤ m := by
  rw [ge_iff, UnpackedFloat.le, hy.compare hx]
  simp [Ordering.isLE_then_iff_or, Int.compare_eq_lt, Nat.isLE_compare]

theorem IsZero.not_ge {x y : Float} {k : Nat} {f : Int} (hx : IsZero x) (hy : Positive y k f) :
    ¬ x ≥ y := by
  obtain ⟨s,hu⟩ := hx
  obtain ⟨hk,hv⟩ := hy
  rw [ge_iff, hu, hv]
  exact Bool.false_ne_true

theorem IsZero.lt_positive {x y : Float} {k : Nat} {f : Int} (hx : IsZero x)
    (hy : Positive y k f) : x < y := by
  obtain ⟨s,hu⟩ := hx
  obtain ⟨hk,hv⟩ := hy
  rw [lt_iff, hu, hv]
  rfl

theorem IsZero.beq_zero {x : Float} (hx : IsZero x) : (x == 0.0) = true := by
  obtain ⟨s,hu⟩ := hx
  show x.toModel.unpack.beq _ = true
  rw [hu]
  rfl

/-! ## Bounds -/

def Below (b : Int) (x : Float) : Prop := IsZero x ∨ ∃ m e, Positive x m e ∧ e ≤ b

theorem Positive.below {x : Float} {m : Nat} {e b : Int} (hx : Positive x m e) (hb : e ≤ b) :
    Below b x :=
  .inr ⟨m,e,hx,hb⟩

theorem Below.mono {b c : Int} {x : Float} (hx : Below b x) (h : b ≤ c) : Below c x := by
  rcases hx with hz | ⟨m,e,hp,hb⟩
  · exact .inl hz
  · exact hp.below (Int.le_trans hb h)

theorem Below.of_ge {b f : Int} {k : Nat} {x c : Float} (hx : Below b x) (hc : Positive c k f)
    (h : x ≥ c) : ∃ m e, Positive x m e ∧ f ≤ e ∧ e ≤ b := by
  rcases hx with hz | ⟨m,e,hp,hb⟩
  · exact absurd h (hz.not_ge hc)
  · rw [hp.ge_iff_parts hc] at h
    exact ⟨m,e,hp,by omega,hb⟩

theorem magnitude_below {x : Float} (hx : x.isFinite = true) :
    Below 971 (Elementary.magnitude x) := by
  rcases finite_cases hx with hz | ⟨s,m,e,hm,hu⟩
  · exact .inl (magnitude_zero hz)
  · have hp := magnitude_positive hu
    exact hp.below hp.canonical.greatest

/-- A positive double whose first bit has the place `b` or a higher one. -/
def FromPlace (b : Int) (x : Float) : Prop := ∃ m e, Positive x m e ∧ b ≤ m.log2 + e

theorem Positive.fromPlace {x : Float} {m : Nat} {e : Int} (hx : Positive x m e) :
    FromPlace (-1074) x := by
  have hleast := hx.canonical.least
  exact ⟨m,e,hx,by omega⟩

theorem FromPlace.mono {b c : Int} {x : Float} (hx : FromPlace b x) (h : c ≤ b) :
    FromPlace c x := by
  obtain ⟨m,e,hp,hb⟩ := hx
  exact ⟨m,e,hp,Int.le_trans h hb⟩

theorem FromPlace.below {b : Int} {x : Float} (hx : FromPlace b x) : Below 971 x := by
  obtain ⟨m,e,hp,-⟩ := hx
  exact hp.below hp.canonical.greatest

theorem Below.fromPlace {b : Int} {x : Float} (hx : Below b x) (h : ¬(x == 0.0) = true) :
    FromPlace (-1074) x := by
  rcases hx with hz | ⟨m,e,hp,-⟩
  · exact absurd hz.beq_zero h
  · exact hp.fromPlace

end Freestanding.Binary64
