import Freestanding.Proofs.Calendar.Normal

/-!
# The order of dates and times

Proper dates and times are in the same order as their seconds when their fields
are compared from the year down: a later field never makes up for an earlier
one. Every four hundred years the calendar repeats with the same weekdays.
-/

set_option autoImplicit false

namespace Freestanding.Calendar

/-! ## Four hundred years -/

theorem isLeap_cycles (year cycles : Int) : isLeap (year + cycles * 400) = isLeap year := by
  rw [Bool.eq_iff_iff, isLeap_iff, isLeap_iff]
  omega

theorem monthLengths_cycles (year cycles : Int) :
    monthLengths (year + cycles * 400) = monthLengths year := by
  rw [monthLengths, monthLengths, isLeap_cycles]

theorem daysInMonth_cycles (year cycles : Int) (month : Nat) :
    daysInMonth (year + cycles * 400) month = daysInMonth year month := by
  rw [daysInMonth, daysInMonth, monthLengths_cycles]

theorem monthsBefore_cycles (year cycles : Int) (month : Nat) :
    monthsBefore (year + cycles * 400) month = monthsBefore year month := by
  rw [monthsBefore_eq, monthsBefore_eq, daysBeforeMonth, daysBeforeMonth, monthLengths_cycles]

namespace DateTime

def later (t : DateTime) (cycles : Int) : DateTime := { t with year := t.year + cycles * 400 }

theorem Proper.later {t : DateTime} (h : t.Proper) (cycles : Int) : (t.later cycles).Proper where
  month := h.month
  day := by
    rw [DateTime.later, daysInMonth_cycles]
    exact h.day
  hour := h.hour
  minute := h.minute
  second := h.second

theorem later_dayCount (t : DateTime) (cycles : Int) :
    (t.later cycles).dayCount = t.dayCount + cycles * 146097 := by
  have hyear := newYear_cycles t.year cycles
  have hc : (daysInCycle : Int) = 146097 := rfl
  simp only [dayCount, yearStart_eq, later, monthsBefore_cycles, hyear, hc]
  omega

theorem later_exactSeconds (t : DateTime) (cycles : Int) :
    (t.later cycles).exactSeconds = t.exactSeconds + cycles * (146097 * 86400) := by
  have htime : (t.later cycles).timeOfDay = t.timeOfDay := rfl
  rw [exactSeconds_eq, exactSeconds_eq, later_dayCount, htime]
  omega

theorem ofEpoch_cycles (s cycles : Int) :
    ofEpoch (s + cycles * (146097 * 86400)) = (ofEpoch s).later cycles := by
  have hn := ofEpoch_normal s
  have hn' := ofEpoch_normal (s + cycles * (146097 * 86400))
  have hsame := hn'.toProper.unique (hn.toProper.later cycles) rfl rfl
    (by rw [later_exactSeconds, ofEpoch_exactSeconds, ofEpoch_exactSeconds])
  have hweekday : (ofEpoch (s + cycles * (146097 * 86400))).weekday = (ofEpoch s).weekday := by
    simp only [ofEpoch]
    omega
  have hyearday : (ofEpoch (s + cycles * (146097 * 86400))).yearday = (ofEpoch s).yearday := by
    have hplace := hn'.place
    rw [hsame] at hplace
    rw [hn.place, ← monthsBefore_cycles (ofEpoch s).year cycles]
    exact hplace
  rw [hsame, hweekday, hyearday]
  rfl

/-! ## Order -/

def fields (t : DateTime) : List Int := [t.year, t.month, t.day, t.hour, t.minute, t.second]

def Before (t u : DateTime) : Prop := List.Lex (· < ·) t.fields u.fields

theorem before_iff {t u : DateTime} : t.Before u ↔
    t.year < u.year ∨ t.year = u.year ∧ (t.month < u.month ∨ t.month = u.month ∧
      (t.day < u.day ∨ t.day = u.day ∧ (t.hour < u.hour ∨ t.hour = u.hour ∧
        (t.minute < u.minute ∨ t.minute = u.minute ∧ t.second < u.second)))) := by
  simp only [Before, fields, List.cons_lex_cons_iff, List.not_lex_nil, Int.ofNat_lt, Int.natCast_inj,
    and_false, or_false]

theorem before_trichotomy (t u : DateTime) : t.Before u ∨ t.fields = u.fields ∨ u.Before t := by
  simp only [before_iff, fields, List.cons.injEq, Int.natCast_inj, and_true]
  omega

theorem exactSeconds_eq_of_fields {t u : DateTime} (hdst : t.dst = u.dst)
    (h : t.fields = u.fields) : t.exactSeconds = u.exactSeconds := by
  simp only [fields, List.cons.injEq, Int.natCast_inj, and_true] at h
  simp only [exactSeconds, dayCount, h, hdst]

namespace Proper

variable {t u : DateTime} (ht : t.Proper) (hu : u.Proper)
include ht hu

theorem dayCount_lt_of_year (h : t.year < u.year) : t.dayCount < u.dayCount := by
  have hplace := ht.place_lt
  have hday := ht.day.1
  have hday' := hu.day.1
  have hsucc := newYear_succ t.year
  have hmono := newYear_mono (show t.year + 1 ≤ u.year by omega)
  rw [dayCount, dayCount, yearStart_eq, yearStart_eq]
  omega

theorem dayCount_lt_of_month (hy : t.year = u.year) (h : t.month < u.month) :
    t.dayCount < u.dayCount := by
  obtain ⟨-,length,hlength,hle⟩ := ht.day
  have hday' := hu.day.1
  have hsucc := monthsBefore_succ hlength
  have hmono := monthsBefore_mono t.year (show t.month + 1 ≤ u.month from h)
  rw [dayCount, dayCount, ← hy]
  omega

omit hu in
/-- No time of day makes up for a day. -/
theorem exactSeconds_lt_of_dayCount (hdt : t.dst = false) (h : t.dayCount < u.dayCount) :
    t.exactSeconds < u.exactSeconds := by
  have hhigh := ht.timeOfDay_lt hdt
  have hlow := u.timeOfDay_nonneg
  rw [exactSeconds_eq, exactSeconds_eq]
  omega

theorem exactSeconds_lt (hdt : t.dst = false) (hdu : u.dst = false) (h : t.Before u) :
    t.exactSeconds < u.exactSeconds := by
  rcases before_iff.mp h with hyear | ⟨hyear,hmonth | ⟨hmonth,hday | ⟨hday,htime⟩⟩⟩
  · exact ht.exactSeconds_lt_of_dayCount hdt (ht.dayCount_lt_of_year hu hyear)
  · exact ht.exactSeconds_lt_of_dayCount hdt (ht.dayCount_lt_of_month hu hyear hmonth)
  · apply ht.exactSeconds_lt_of_dayCount hdt
    rw [dayCount, dayCount, hyear, hmonth]
    omega
  · have hm := ht.minute
    have hs := ht.second
    rw [exactSeconds, exactSeconds, dayCount, dayCount, hyear, hmonth, hday, hdt, hdu]
    simp only [Bool.false_eq_true, if_false]
    omega

theorem before_iff_lt (hdt : t.dst = false) (hdu : u.dst = false) :
    t.Before u ↔ t.exactSeconds < u.exactSeconds := by
  refine ⟨ht.exactSeconds_lt hu hdt hdu,fun h => ?_⟩
  rcases before_trichotomy t u with hb | he | ha
  · exact hb
  · have hsame := exactSeconds_eq_of_fields (hdt.trans hdu.symm) he
    omega
  · have hlt := hu.exactSeconds_lt ht hdu hdt ha
    omega

end Proper

/-- The fields of seconds are in the order of the seconds, and going on by any number
of four hundred years, of 146097 days each, changes nothing but the year. -/
theorem fields_follow_seconds :
    (∀ s₁ s₂, (ofEpoch s₁).Before (ofEpoch s₂) ↔ s₁ < s₂) ∧
    ∀ s cycles, ofEpoch (s + cycles * (146097 * 86400)) =
      { ofEpoch s with year := (ofEpoch s).year + cycles * 400 } := by
  refine ⟨fun s₁ s₂ => ?_,fun s cycles => ofEpoch_cycles s cycles⟩
  have h := (ofEpoch_normal s₁).toProper.before_iff_lt (ofEpoch_normal s₂).toProper rfl rfl
  rwa [ofEpoch_exactSeconds, ofEpoch_exactSeconds] at h

end DateTime

end Freestanding.Calendar
