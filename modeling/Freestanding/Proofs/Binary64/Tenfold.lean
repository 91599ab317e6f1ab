import Freestanding.Numeral.RealText
import Freestanding.Proofs.Binary64.Canonical

/-!
# Ten times and a tenth

Rounding cuts a mantissa at its last place and may add one there. So a tenth of
a double from one on has an exponent lower by three at least, and ten times a
double below one is three binary places up at least, also where bits are missing
at the least exponent.
-/

set_option autoImplicit false

namespace Freestanding.Binary64

open Float.Model Float.Model.UnpackedFloat

/-! ## The first bit -/

theorem shiftRight_pos {m k : Nat} (hm : m ≠ 0) (hk : k ≤ m.log2) : 0 < m >>> k := by
  rw [Nat.shiftRight_eq_div_pow]
  exact Nat.div_pos ((Nat.le_log2 hm).mp hk) (Nat.two_pow_pos k)

theorem le_log2_of_shiftRight {m k : Nat} (h : m >>> k ≠ 0) : k ≤ m.log2 := by
  rw [Nat.shiftRight_eq_div_pow] at h
  by_cases hm : m = 0
  · subst hm
    exact absurd (Nat.zero_div _) h
  · rw [Nat.le_log2 hm]
    by_contra hlt
    exact h (Nat.div_eq_of_lt (Nat.not_le.mp hlt))

theorem log2_shiftRight {m k : Nat} (hm : m ≠ 0) (hk : k ≤ m.log2) :
    (m >>> k).log2 = m.log2 - k := by
  have hle : 2 ^ (m.log2 - k) ≤ m >>> k := by
    rw [Nat.shiftRight_eq_div_pow, Nat.le_div_iff_mul_le (Nat.two_pow_pos k), ← Nat.pow_add,
      Nat.sub_add_cancel hk]
    exact Nat.log2_self_le hm
  have hlt : m >>> k < 2 ^ (m.log2 - k + 1) := by
    have hsum : m.log2 - k + 1 + k = m.log2 + 1 := by omega
    rw [Nat.shiftRight_eq_div_pow, Nat.div_lt_iff_lt_mul (Nat.two_pow_pos k), ← Nat.pow_add, hsum]
    exact Nat.lt_log2_self
  exact (Nat.log2_eq_iff (Nat.ne_of_gt (shiftRight_pos hm hk))).mpr ⟨hle,hlt⟩

theorem log2_shiftLeft {m : Nat} (hm : m ≠ 0) (k : Nat) : (m <<< k).log2 = m.log2 + k := by
  induction k with
  | zero => rfl
  | succ k ih =>
    have hpos : m <<< k ≠ 0 := by
      rw [Nat.shiftLeft_eq]
      exact Nat.mul_ne_zero hm (Nat.ne_of_gt (Nat.two_pow_pos k))
    rw [Nat.shiftLeft_succ, Nat.log2_two_mul hpos, ih]
    rfl

theorem log2_le_log2 {m r : Nat} (hm : m ≠ 0) (h : m ≤ r) : m.log2 ≤ r.log2 :=
  (Nat.le_log2 (by omega)).mpr (Nat.le_trans (Nat.log2_self_le hm) h)

/-! ## Rounding -/

theorem shift_mantissa (em : ExtendedMantissa) (k : Nat) :
    (em >>> k).mantissa = em.mantissa >>> k := by
  induction k with
  | zero => rfl
  | succ k ih =>
    show (em >>> k).mantissa / 2 = _
    rw [ih, Nat.shiftRight_succ]

theorem roundedMantissa_bounds (em : ExtendedMantissa) :
    em.mantissa ≤ em.roundedMantissa ∧ em.roundedMantissa ≤ em.mantissa + 1 := by
  obtain ⟨m,round,sticky⟩ := em
  cases round <;> cases sticky <;>
    simp only [ExtendedMantissa.roundedMantissa, ExtendedMantissa.accuracy,
      Accuracy.roundToNearestEven] <;> omega

theorem ofMantissaAndAccuracy_mantissa (m : Nat) (acc : Accuracy) :
    (ExtendedMantissa.ofMantissaAndAccuracy m acc).mantissa = m := by
  cases acc with
  | exact => rfl
  | inexact o => cases o <;> rfl

def lastPlace (m : Nat) (e : Int) : Int := max (m.log2 + e - 52) (-1074)

theorem mantissaBits_eq : Format.binary64.mantissaBits = 53 := rfl

theorem targetExponent_eq (m : Nat) (e : Int) :
    Format.binary64.targetExponent (totalExponent m e) = lastPlace m e := by
  have hmin : Format.binary64.minExponent = -1074 := rfl
  rw [Format.targetExponent, totalExponent, mantissaBits_eq, hmin, lastPlace]
  omega

theorem lastPlace_le {m : Nat} {e : Int} (hm : m < 9007199254740992) (he : -1074 ≤ e) :
    lastPlace m e ≤ e := by
  have hlog : m.log2 < 53 := by
    by_cases hz : m = 0
    · subst hz
      decide
    · exact (Nat.log2_lt hz).mpr hm
  rw [lastPlace]
  omega

theorem shiftToTargetExponent_fit {m : Nat} {e : Int} (acc : Accuracy)
    (hm : m < 9007199254740992) (he : -1074 ≤ e) :
    shiftToTargetExponent Format.binary64 m e acc =
      (ExtendedMantissa.ofMantissaAndAccuracy m acc,e) := by
  have hplace := lastPlace_le hm he
  have hzero : (lastPlace m e - e).toNat = 0 := by omega
  rw [shiftToTargetExponent, targetExponent_eq, shiftToExponent, hzero]
  exact congrArg (Prod.mk _) (Int.add_zero e)

theorem roundWithAccuracy_eq (s : Sign) {m : Nat} {e : Int} {acc : Accuracy}
    {em em' : ExtendedMantissa} {t f : Int}
    (hcut : shiftToTargetExponent Format.binary64 m e acc = (em,t))
    (hfit : shiftToTargetExponent Format.binary64 em.roundedMantissa t .exact = (em',f))
    (hpos : 0 < em'.mantissa) :
    roundWithAccuracy Format.binary64 s m e acc = .finite s em'.mantissa f hpos := by
  rw [roundWithAccuracy, hcut]
  dsimp only
  rw [hfit]
  exact dif_neg (Nat.ne_of_gt hpos)

theorem roundWithAccuracy_exact (s : Sign) {m : Nat} {e : Int} (hm : 0 < m)
    (hbits : m < 9007199254740992) (he : -1074 ≤ e) :
    roundWithAccuracy Format.binary64 s m e .exact = .finite s m e hm :=
  have hfit := shiftToTargetExponent_fit .exact hbits he
  roundWithAccuracy_eq s hfit hfit hm

/-- What rounding `m * 2 ^ e` may give. -/
structure Rounded (m : Nat) (e : Int) (r : Nat) (f : Int) : Prop where
  bits : r < 9007199254740992
  full : 4503599627370496 ≤ r ∨ f = -1074
  place : lastPlace m e ≤ f
  level : m.log2 + e ≤ r.log2 + f
  carry : f ≤ lastPlace m e ∨
    f = lastPlace m e + 1 ∧ 9007199254740992 ≤ (m >>> (lastPlace m e - e).toNat) + 1

theorem shifted_log2 {m : Nat} {e : Int} (hm : 0 < m) (he : e ≤ lastPlace m e)
    (hk : (lastPlace m e - e).toNat ≤ m.log2) :
    ((m >>> (lastPlace m e - e).toNat).log2 : Int) = m.log2 + e - lastPlace m e := by
  rw [log2_shiftRight (by omega) hk]
  omega

theorem shifted_lt {m : Nat} {e : Int} (hm : 0 < m) (he : e ≤ lastPlace m e)
    (hk : (lastPlace m e - e).toNat ≤ m.log2) :
    m >>> (lastPlace m e - e).toNat < 9007199254740992 := by
  have hlog := shifted_log2 hm he hk
  have hplace : m.log2 + e - 52 ≤ lastPlace m e := Int.le_max_left _ _
  by_cases hz : m >>> (lastPlace m e - e).toNat = 0
  · omega
  · exact (Nat.log2_lt hz).mp (show _ < 53 by omega)

theorem shiftToTargetExponent_cut {m : Nat} {e : Int} (acc : Accuracy) (he : e ≤ lastPlace m e) :
    shiftToTargetExponent Format.binary64 m e acc =
      (ExtendedMantissa.ofMantissaAndAccuracy m acc >>> (lastPlace m e - e).toNat,
        lastPlace m e) := by
  have hsum : e + ((lastPlace m e - e).toNat : Int) = lastPlace m e := by omega
  rw [shiftToTargetExponent, targetExponent_eq, shiftToExponent, hsum]

theorem shiftToTargetExponent_carry {e : Int} (he : -1074 ≤ e) :
    ∃ em, shiftToTargetExponent Format.binary64 9007199254740992 e .exact = (em,e + 1) ∧
      em.mantissa = 4503599627370496 := by
  have hlog : Nat.log2 9007199254740992 = 53 := by decide +kernel
  have hplace : lastPlace 9007199254740992 e = e + 1 := by
    rw [lastPlace, hlog]
    omega
  have hone : (e + 1 - e).toNat = 1 := by omega
  rw [shiftToTargetExponent_cut .exact (by omega), hplace, hone]
  exact ⟨_,rfl,rfl⟩

theorem rounded_fit {m r : Nat} {e : Int} (hm : 0 < m) (he : e ≤ lastPlace m e)
    (hk : (lastPlace m e - e).toNat ≤ m.log2) (hlow : m >>> (lastPlace m e - e).toNat ≤ r)
    (hbits : r < 9007199254740992) : Rounded m e r (lastPlace m e) := by
  have hlog := shifted_log2 hm he hk
  have hpos := shiftRight_pos (Nat.ne_of_gt hm) hk
  refine ⟨hbits,?_,Int.le_refl _,?_,.inl (Int.le_refl _)⟩
  · by_cases hleast : lastPlace m e = -1074
    · exact .inr hleast
    · have hplace : lastPlace m e = m.log2 + e - 52 := by
        rw [lastPlace] at hleast ⊢
        omega
      have hfull : 52 ≤ (m >>> (lastPlace m e - e).toNat).log2 := by omega
      exact .inl (Nat.le_trans ((Nat.le_log2 (by omega)).mp hfull) hlow)
  · have hlevel := log2_le_log2 (Nat.ne_of_gt hpos) hlow
    omega

theorem rounded_carry {m : Nat} {e : Int} (hm : 0 < m) (he : e ≤ lastPlace m e)
    (hk : (lastPlace m e - e).toNat ≤ m.log2)
    (hcarry : 9007199254740992 ≤ (m >>> (lastPlace m e - e).toNat) + 1) :
    Rounded m e 4503599627370496 (lastPlace m e + 1) := by
  have hlog := shifted_log2 hm he hk
  have hpos := shiftRight_pos (Nat.ne_of_gt hm) hk
  have hless : (m >>> (lastPlace m e - e).toNat).log2 < 53 :=
    (Nat.log2_lt (Nat.ne_of_gt hpos)).mpr (shifted_lt hm he hk)
  have hlevel : Nat.log2 4503599627370496 = 52 := by decide +kernel
  exact ⟨by decide,.inl (Nat.le_refl _),by omega,by omega,.inr ⟨rfl,hcarry⟩⟩

/-- Rounding cuts the mantissa at its last place and moves it up by one at
most. Where this takes one more bit, the exponent moves on. -/
theorem roundWithAccuracy_rounded (s : Sign) {m : Nat} {e : Int} (acc : Accuracy) (hm : 0 < m)
    (he : e ≤ lastPlace m e) (hk : (lastPlace m e - e).toNat ≤ m.log2) :
    ∃ r f hr, roundWithAccuracy Format.binary64 s m e acc = .finite s r f hr ∧
      Rounded m e r f := by
  have hlast : -1074 ≤ lastPlace m e := Int.le_max_right _ _
  have hpos := shiftRight_pos (Nat.ne_of_gt hm) hk
  have hlt := shifted_lt hm he hk
  have hcut := shiftToTargetExponent_cut acc he
  obtain ⟨hlow,hhigh⟩ := roundedMantissa_bounds
    (ExtendedMantissa.ofMantissaAndAccuracy m acc >>> (lastPlace m e - e).toNat)
  rw [shift_mantissa, ofMantissaAndAccuracy_mantissa] at hlow hhigh
  generalize ExtendedMantissa.ofMantissaAndAccuracy m acc >>> (lastPlace m e - e).toNat = em
    at hcut hlow hhigh
  by_cases hbits : em.roundedMantissa < 9007199254740992
  · have hfit := shiftToTargetExponent_fit .exact hbits hlast
    exact ⟨_,_,_,roundWithAccuracy_eq s hcut hfit (Nat.lt_of_lt_of_le hpos hlow),
      rounded_fit hm he hk hlow hbits⟩
  · obtain ⟨em',hfit,hmantissa⟩ := shiftToTargetExponent_carry hlast
    have hcarry : em.roundedMantissa = 9007199254740992 := by omega
    rw [← hcarry] at hfit
    refine ⟨_,_,_,roundWithAccuracy_eq s hcut hfit (by omega),?_⟩
    rw [hmantissa]
    exact rounded_carry hm he hk (by omega)

theorem Rounded.canonical {m r : Nat} {e f : Int} (h : Rounded m e r f)
    (hgreatest : lastPlace m e ≤ 970) : Canonical r f := by
  have hlast : -1074 ≤ lastPlace m e := Int.le_max_right _ _
  have hplace := h.place
  have hcarry := h.carry
  exact ⟨h.bits,by omega,by omega,h.full⟩

theorem positive_of_rounding {y : Float} {m : Nat} {e : Int} {acc : Accuracy}
    (hy : y.toModel =
      Float.Model.pack (roundWithAccuracy Format.binary64 .positive m e acc))
    (hm : 0 < m) (he : e ≤ lastPlace m e) (hk : (lastPlace m e - e).toNat ≤ m.log2)
    (hgreatest : lastPlace m e ≤ 970) : ∃ r f, Positive y r f ∧ Rounded m e r f := by
  obtain ⟨r,f,hr,hround,hrounded⟩ := roundWithAccuracy_rounded .positive acc hm he hk
  refine ⟨r,f,⟨hr,?_⟩,hrounded⟩
  rw [hy, hround]
  exact unpack_pack (hrounded.canonical hgreatest)

/-! ## A tenth -/

theorem positive_ten : Positive 10.0 5629499534213120 (-49) := ⟨by decide,rfl⟩

theorem Positive.full {x : Float} {m : Nat} {e : Int} (hx : Positive x m e) (he : -1074 < e) :
    4503599627370496 ≤ m :=
  hx.canonical.full.resolve_right (by omega)

theorem log2_full {m : Nat} (hlow : 4503599627370496 ≤ m) (hhigh : m < 9007199254740992) :
    m.log2 = 52 :=
  (Nat.log2_eq_iff (by omega)).mpr ⟨hlow,hhigh⟩

theorem divCore_ten {m : Nat} {e : Int} (hlow : 4503599627370496 ≤ m)
    (hhigh : m < 9007199254740992) (he : -52 ≤ e) :
    ∃ acc, divCore Format.binary64 m e 5629499534213120 (-49) = (8 * m / 5,e - 4,acc) := by
  have hten : Nat.log2 5629499534213120 = 52 := by decide +kernel
  have hmin : Format.binary64.minExponent = -1074 := rfl
  have htarget : min (e - -49) (Format.binary64.targetExponent
      (totalExponent m e - totalExponent 5629499534213120 (-49))) = e - 4 := by
    rw [Format.targetExponent, totalExponent, totalExponent, mantissaBits_eq, hmin,
      log2_full hlow hhigh, hten]
    omega
  have hshift : (e - -49 - (e - 4)).toNat = 53 := by omega
  have hquotient : m <<< 53 / 5629499534213120 = 8 * m / 5 := by
    rw [Nat.shiftLeft_eq]
    omega
  rw [divCore, htarget, hshift, hquotient]
  exact ⟨_,rfl⟩

theorem tenth_toModel {x : Float} {m : Nat} {e : Int} (hx : Positive x m e) (he : -52 ≤ e) :
    ∃ acc, (x / 10.0).toModel = Float.Model.pack
      (roundWithAccuracy Format.binary64 .positive (8 * m / 5) (e - 4) acc) := by
  obtain ⟨acc,hcore⟩ := divCore_ten (hx.full (by omega)) hx.canonical.bits he
  obtain ⟨hm,hu⟩ := hx
  obtain ⟨hten,hv⟩ := positive_ten
  refine ⟨acc,?_⟩
  have hdiv : UnpackedFloat.div Format.binary64 (.finite .positive m e hm)
      (.finite .positive 5629499534213120 (-49) hten) =
        roundWithAccuracy Format.binary64 .positive (8 * m / 5) (e - 4) acc := by
    show roundWithAccuracy Format.binary64 _ (divCore _ _ _ _ _).1 (divCore _ _ _ _ _).2.1
      (divCore _ _ _ _ _).2.2 = _
    rw [hcore]
    rfl
  show Float.Model.pack (UnpackedFloat.div Format.binary64 x.toModel.unpack _) = _
  rw [hu, hv, hdiv]

/-- A tenth of a double from one on has an exponent lower by three at least. -/
theorem Positive.tenth {x : Float} {m : Nat} {e : Int} (hx : Positive x m e) (he : -52 ≤ e) :
    ∃ m' e', Positive (x / 10.0) m' e' ∧ e' ≤ e - 3 := by
  obtain ⟨acc,hmodel⟩ := tenth_toModel hx he
  have hlow := hx.full (by omega)
  have hhigh := hx.canonical.bits
  have hgreatest := hx.canonical.greatest
  have hleast : 52 ≤ (8 * m / 5).log2 :=
    (Nat.le_log2 (by omega)).mpr (show 4503599627370496 ≤ _ by omega)
  have hmost : (8 * m / 5).log2 < 54 :=
    (Nat.log2_lt (by omega)).mpr (show _ < 18014398509481984 by omega)
  have hplace : lastPlace (8 * m / 5) (e - 4) = (8 * m / 5).log2 + e - 56 := by
    rw [lastPlace]
    omega
  obtain ⟨r,f,hpositive,hrounded⟩ :=
    positive_of_rounding hmodel (by omega) (by omega) (by omega) (by omega)
  refine ⟨r,f,hpositive,?_⟩
  rcases hrounded.carry with hstay | ⟨hnext,hcarry⟩
  · omega
  · by_cases hlog : (8 * m / 5).log2 = 52
    · omega
    · -- Eight fifths of a mantissa, halved, stay clear of the next power of two.
      have hone : (lastPlace (8 * m / 5) (e - 4) - (e - 4)).toNat = 1 := by omega
      rw [hone, Nat.shiftRight_eq_div_pow] at hcarry
      omega

/-! ## Ten times -/

theorem tenfold_toModel {x : Float} {m : Nat} {e : Int} (hx : Positive x m e) :
    (x * 10.0).toModel = Float.Model.pack
      (roundWithAccuracy Format.binary64 .positive (m * 5629499534213120) (e - 49) .exact) := by
  obtain ⟨hm,hu⟩ := hx
  obtain ⟨hten,hv⟩ := positive_ten
  show Float.Model.pack (UnpackedFloat.mul Format.binary64 x.toModel.unpack _) = _
  rw [hu, hv]
  rfl

theorem log2_mul_ten {m : Nat} (hm : 0 < m) :
    m.log2 + 52 ≤ (m * 5629499534213120).log2 ∧ (m * 5629499534213120).log2 ≤ m.log2 + 53 := by
  have hlow := Nat.log2_self_le (Nat.ne_of_gt hm)
  have hhigh := @Nat.lt_log2_self m
  constructor
  · rw [Nat.le_log2 (by omega), Nat.pow_add]
    omega
  · have hlt : (m * 5629499534213120).log2 < m.log2 + 1 + 53 := by
      rw [Nat.log2_lt (by omega), Nat.pow_add]
      omega
    omega

/-- Ten times a double below one is three binary places up at least. -/
theorem Positive.tenfold {x : Float} {m : Nat} {e : Int} (hx : Positive x m e) (he : e ≤ -53) :
    ∃ m' e', Positive (x * 10.0) m' e' ∧ m.log2 + e + 3 ≤ m'.log2 + e' := by
  have hmodel := tenfold_toModel hx
  have hleast := hx.canonical.least
  have hlog := hx.log2_lt
  have hm := hx.1
  obtain ⟨hlow,hhigh⟩ := log2_mul_ten hm
  obtain ⟨r,f,hpositive,hrounded⟩ := positive_of_rounding hmodel (by omega)
    (by rw [lastPlace]; omega) (by rw [lastPlace]; omega) (by rw [lastPlace]; omega)
  have hlevel := hrounded.level
  exact ⟨r,f,hpositive,by omega⟩

/-! ## Whole parts -/

theorem toUInt64_positive {x : Float} {m : Nat} {e : Int} (hx : Positive x m e) (he : e ≤ 0) :
    x.toUInt64.toNat = m >>> (-e).toNat := by
  have hbits := hx.canonical.bits
  obtain ⟨hm,hu⟩ := hx
  have hstay : decreaseExponent m e 0 = (m,e) := by
    have hzero : (e - 0).toNat = 0 := by omega
    rw [decreaseExponent, hzero]
    exact congrArg (Prod.mk m) (Int.sub_zero e)
  have hint : toInt 0 (UInt64.size - 1) x.toModel.unpack = m >>> (-e).toNat := by
    rw [hu]
    show roundToInt .positive m e = _
    simp only [roundToInt, hstay, shiftToExponent, shift_mantissa,
      ofMantissaAndAccuracy_mantissa, Int.zero_sub]
    rfl
  have hle : m >>> (-e).toNat ≤ m := Nat.shiftRight_le m _
  show (UInt64.ofNatClamp (toInt 0 (UInt64.size - 1) x.toModel.unpack).toNat).toNat = _
  rw [hint, Int.toNat_natCast]
  exact UInt64.toNat_ofNatClamp_of_lt (show _ < 18446744073709551616 by omega)

theorem round_whole {n : Nat} (hpos : 0 < n) (hbits : n.log2 ≤ 52) :
    ∃ hn, UnpackedFloat.round Format.binary64 .positive n 0 =
      .finite .positive (n <<< (52 - n.log2)) (n.log2 - 52) hn := by
  have hplace : lastPlace n 0 = n.log2 - 52 := by
    rw [lastPlace]
    omega
  have hlog := log2_shiftLeft (Nat.ne_of_gt hpos) (52 - n.log2)
  have hn : 0 < n <<< (52 - n.log2) := by
    rw [Nat.shiftLeft_eq]
    exact Nat.mul_pos hpos (Nat.two_pow_pos _)
  have hshift : (0 - ((n.log2 : Int) - 52)).toNat = 52 - n.log2 := by omega
  have hexponent : (0 : Int) - ((52 - n.log2 : Nat) : Int) = n.log2 - 52 := by omega
  refine ⟨hn,?_⟩
  rw [UnpackedFloat.round, targetExponent_eq, hplace, decreaseExponent, hshift, hexponent]
  exact roundWithAccuracy_exact .positive hn
    ((Nat.log2_lt (Nat.ne_of_gt hn)).mp (show _ < 53 by omega)) (by omega)

theorem toFloat_positive {n : UInt64} (hpos : 0 < n.toNat) (hbits : n.toNat.log2 ≤ 52) :
    Positive n.toFloat (n.toNat <<< (52 - n.toNat.log2)) (n.toNat.log2 - 52) := by
  obtain ⟨hn,hround⟩ := round_whole hpos hbits
  have hlog := log2_shiftLeft (Nat.ne_of_gt hpos) (52 - n.toNat.log2)
  have hcompare : compare (n.toNat : Int) 0 = .gt := Int.compare_eq_gt.mpr (by omega)
  have hmodel : n.toFloat.toModel = Float.Model.pack (.finite .positive
      (n.toNat <<< (52 - n.toNat.log2)) (n.toNat.log2 - 52) hn) := by
    rw [← hround]
    show Float.Model.pack (UnpackedFloat.normalize Format.binary64 (n.toNat : Int) 0 .positive) = _
    simp only [UnpackedFloat.normalize, hcompare, Int.toNat_natCast]
  refine ⟨hn,?_⟩
  rw [hmodel]
  apply unpack_pack
  refine ⟨?_,by omega,by omega,.inl ?_⟩
  · exact (Nat.log2_lt (Nat.ne_of_gt hn)).mp (show _ < 53 by omega)
  · exact (Nat.le_log2 (Nat.ne_of_gt hn)).mp (show 52 ≤ _ by omega)

theorem positive_wholeFrom : Positive Elementary.wholeFrom 4503599627370496 0 := ⟨by decide,rfl⟩

theorem Positive.dropFraction_below {x : Float} {m : Nat} {e : Int} (hx : Positive x m e) :
    Below e (Numeral.dropFraction x) := by
  rw [Numeral.dropFraction]
  by_cases hwhole : x ≥ Elementary.wholeFrom
  · rw [if_pos hwhole]
    exact hx.below (Int.le_refl e)
  · rw [if_neg hwhole]
    rw [hx.ge_iff_parts positive_wholeFrom] at hwhole
    have hfull := hx.canonical.full
    have hnat := toUInt64_positive hx (by omega)
    by_cases hzero : m >>> (-e).toNat = 0
    · have hword : x.toUInt64 = 0 := UInt64.toNat_inj.mp (hnat.trans hzero)
      rw [hword]
      exact .inl ⟨.positive,rfl⟩
    · have hlog := hx.log2_lt
      have hplaces := le_log2_of_shiftRight hzero
      have hshifted := log2_shiftRight (Nat.ne_of_gt hx.1) hplaces
      rw [← hnat] at hzero hshifted
      exact (toFloat_positive (by omega) (by omega)).below (by omega)

theorem IsZero.dropFraction {x : Float} (hx : IsZero x) : IsZero (Numeral.dropFraction x) := by
  have hword : x.toUInt64 = 0 := by
    obtain ⟨s,hu⟩ := hx
    show x.toModel.unpack.toUInt64 = 0
    rw [hu]
    rfl
  rw [Numeral.dropFraction, if_neg (hx.not_ge positive_wholeFrom), hword]
  exact ⟨.positive,rfl⟩

theorem Below.dropFraction {b : Int} {x : Float} (hx : Below b x) :
    Below b (Numeral.dropFraction x) := by
  rcases hx with hz | ⟨m,e,hp,hb⟩
  · exact .inl hz.dropFraction
  · exact hp.dropFraction_below.mono hb

end Freestanding.Binary64
