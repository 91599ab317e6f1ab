import Freestanding.Proofs.Calendar.Epoch

/-!
# The exact count of seconds

The seconds of a date and time can be counted without bound, by stepping
through every year since 1970, or back to an earlier one, and through the months
of the last year. The count by whole cycles of four hundred years is the same
wherever it has an answer. It has one if the count is a long and so is that of
the midnight before, and only then.
-/

set_option autoImplicit false

namespace Freestanding.Calendar

/-! ## Counting one by one -/

def yearsFrom (year : Int) : Nat → Nat
  | 0 => 0
  | n + 1 => daysInYear year + yearsFrom (year + 1) n

def yearStart (year : Int) : Int :=
  if 1970 ≤ year then yearsFrom 1970 (year - 1970).toNat
  else -yearsFrom year (1970 - year).toNat

def monthsBefore (year : Int) : Nat → Nat
  | 0 => 0
  | month + 1 => monthsBefore year month + (daysInMonth year month).toOption.getD 0

theorem newYear_add (year : Int) (n : Nat) :
    newYear (year + n) = newYear year + yearsFrom year n := by
  induction n generalizing year with
  | zero => simp [yearsFrom]
  | succ n ih =>
    have hshift : year + (n + 1 : Nat) = year + 1 + n := by omega
    rw [hshift, ih, newYear_succ, yearsFrom]
    omega

theorem yearStart_eq (year : Int) : yearStart year = newYear year := by
  rw [yearStart]
  split_ifs with h
  · have hadd := newYear_add 1970 (year - 1970).toNat
    have hyear : 1970 + ((year - 1970).toNat : Int) = year := by omega
    rw [hyear, newYear_epoch] at hadd
    omega
  · have hadd := newYear_add year (1970 - year).toNat
    have hyear : year + ((1970 - year).toNat : Int) = 1970 := by omega
    rw [hyear, newYear_epoch] at hadd
    omega

theorem daysInMonth_ok_iff {year : Int} {month length : Nat} :
    daysInMonth year month = .ok length ↔
      1 ≤ month ∧ (monthLengths year)[month - 1]? = some length := by
  rw [daysInMonth]
  split_ifs with h
  · simp [h]
  · have hpos : 1 ≤ month := by omega
    cases (monthLengths year)[month - 1]? <;> simp [hpos]

theorem monthsBefore_succ {year : Int} {month length : Nat}
    (h : daysInMonth year month = .ok length) :
    monthsBefore year (month + 1) = monthsBefore year month + length := by
  rw [monthsBefore, h]
  rfl

theorem monthsBefore_eq (year : Int) (month : Nat) :
    monthsBefore year month = daysBeforeMonth year month := by
  induction month with
  | zero => rfl
  | succ month ih =>
    cases month with
    | zero => rfl
    | succ k =>
      rw [monthsBefore, ih, daysBeforeMonth, daysBeforeMonth, daysInMonth]
      rw [if_neg (Nat.succ_ne_zero k), Nat.add_sub_cancel, Nat.add_sub_cancel,
        List.take_add_one, List.foldl_append]
      cases (monthLengths year)[k]? with
      | none => rfl
      | some length => simp [Except.toOption]

namespace DateTime

/-- The days from the start of 1970 to a date, counted one by one. -/
def dayCount (t : DateTime) : Int :=
  yearStart t.year + monthsBefore t.year t.month + ((t.day : Int) - 1)

/-- The seconds from the start of 1970 to a date and time, counted without bound. -/
def exactSeconds (t : DateTime) : Int :=
  86400 * t.dayCount + 3600 * t.hour + 60 * t.minute + t.second + if t.dst then 3600 else 0

theorem dayCount_eq (t : DateTime) : t.dayCount =
    newYear t.year + daysBeforeMonth t.year t.month + ((t.day : Int) - 1) := by
  rw [dayCount, yearStart_eq, monthsBefore_eq]

theorem exactSeconds_eq (t : DateTime) : t.exactSeconds = t.dayCount * 86400 + t.timeOfDay := by
  rw [exactSeconds, timeOfDay]
  omega

theorem timeOfDay_nonneg (t : DateTime) : 0 ≤ t.timeOfDay := by
  rw [timeOfDay]
  split_ifs <;> omega

theorem ofEpoch_dayCount (s : Int) : (ofEpoch s).dayCount = s / 86400 := by
  rw [dayCount_eq]
  exact (ofEpoch_days s).2.2

theorem ofEpoch_exactSeconds (s : Int) : (ofEpoch s).exactSeconds = s := by
  rw [exactSeconds_eq, ofEpoch_dayCount, ofEpoch_time]
  omega

/-! ## Answers are exact -/

theorem addYears?_eq_some {year : Int} {n : Nat} {days v : Int}
    (h : addYears? year n days = some v) : v = days + yearsFrom year n := by
  induction n generalizing year days with
  | zero => simpa [addYears?, yearsFrom, eq_comm] using h
  | succ n ih =>
    rw [addYears?, Option.bind_eq_some_iff] at h
    obtain ⟨sum,hsum,hrest⟩ := h
    obtain ⟨-,rfl⟩ := long?_eq_some_iff.mp hsum
    rw [ih hrest, yearsFrom]
    omega

theorem cycles_yearsFrom (year : Int) : (year - 1970) / 400 * daysInCycle +
    yearsFrom (1970 + (year - 1970) / 400 * 400) ((year - 1970) % 400).toNat = newYear year := by
  have hadd := newYear_add (1970 + (year - 1970) / 400 * 400) ((year - 1970) % 400).toNat
  have hyear : 1970 + (year - 1970) / 400 * 400 + ((year - 1970) % 400).toNat = year := by omega
  rw [hyear, newYear_cycles, newYear_epoch] at hadd
  omega

theorem dayNumber?_eq_some {t : DateTime} {days : Int} (h : t.dayNumber? = some days) :
    days = t.dayCount := by
  simp only [dayNumber?, Option.bind_eq_bind, Option.bind_eq_some_iff, long?_eq_some_iff] at h
  obtain ⟨_,⟨-,rfl⟩,_,⟨-,rfl⟩,years,hyears,_,⟨-,rfl⟩,-,rfl⟩ := h
  rw [addYears?_eq_some hyears, cycles_yearsFrom, dayCount_eq]

theorem toEpoch_ok {t : DateTime} {v : Int} (h : t.toEpoch = .ok v) :
    v = t.exactSeconds ∧ longMin ≤ 86400 * t.dayCount ∧ v ≤ longMax := by
  rw [toEpoch] at h
  split_ifs at h with hm
  split at h
  · rename_i seconds hs
    cases h
    simp only [Option.bind_eq_some_iff, long?_eq_some_iff] at hs
    obtain ⟨_,⟨days,hdays,hmid,rfl⟩,hrange,rfl⟩ := hs
    obtain rfl := dayNumber?_eq_some hdays
    rw [exactSeconds_eq, Int.mul_comm 86400]
    exact ⟨rfl,hmid.1,hrange.2⟩
  · cases h

/-! ## When there is an answer -/

structure Fits (t : DateTime) : Prop where
  day : t.day ≤ 4294967295
  hour : t.hour ≤ 4294967295
  minute : t.minute ≤ 4294967295
  second : t.second ≤ 4294967295

theorem toEpoch_exact {t : DateTime} (hm : 1 ≤ t.month ∧ t.month ≤ 12) (ht : t.Fits)
    (hl : longMin ≤ 86400 * t.dayCount) (hu : t.exactSeconds ≤ longMax) :
    t.toEpoch = .ok t.exactSeconds := by
  have htime := t.timeOfDay_nonneg
  have hdays := t.dayCount_eq
  rw [exactSeconds_eq] at hu ⊢
  simp only [longMin, longMax] at hl hu
  have hday := ht.day
  have hmonths := daysBeforeMonth_le t.year t.month
  have hlength := daysInYear_eq t.year
  have hyear : -1000000000000 ≤ t.year ∧ t.year ≤ 1000000000000 := by
    apply year_bounds
    omega
  apply toEpoch_of_checked hm
  refine toEpoch?_eq hyear.1 hyear.2 hday ht.hour ht.minute ht.second hdays.symm ?_ ?_ ?_ ?_
  all_goals
    simp only [longMin, longMax]
    omega

theorem toEpoch_refused {t : DateTime} (hm : 1 ≤ t.month ∧ t.month ≤ 12)
    (h : 86400 * t.dayCount < longMin ∨ longMax < t.exactSeconds) :
    t.toEpoch = .error .outOfRange := by
  cases he : t.toEpoch with
  | ok v =>
    obtain ⟨rfl,hl,hu⟩ := toEpoch_ok he
    omega
  | error e =>
    rw [toEpoch, if_pos hm] at he
    split at he
    · cases he
    · exact he.symm

/-! ## Every date and time -/

/-- The count by cycles is the count by single years and months wherever it has an
answer, and it has one if that count and the midnight before are longs. The
weekday and the day of the year have no part in it. -/
theorem seconds_counted_exactly (t : DateTime) :
    (∀ v, t.toEpoch = .ok v → v = 86400 * (yearStart t.year + monthsBefore t.year t.month +
      ((t.day : Int) - 1)) + 3600 * t.hour + 60 * t.minute + t.second + if t.dst then 3600 else 0) ∧
    (1 ≤ t.month ∧ t.month ≤ 12 → t.Fits → longMin ≤ 86400 * t.dayCount →
      t.exactSeconds ≤ longMax → ∃ v, t.toEpoch = .ok v) ∧
    ∀ weekday yearday, ({ t with weekday, yearday } : DateTime).toEpoch = t.toEpoch :=
  ⟨fun _ h => (toEpoch_ok h).1,fun hm ht hl hu => ⟨_,toEpoch_exact hm ht hl hu⟩,fun _ _ => rfl⟩

theorem unusual_fields_counted_exactly :
    (⟨1599,3,400,30,90,4000,9,999,true⟩ : DateTime).toEpoch = .ok (-11667939800) ∧
    -11667939800 = 86400 * (yearStart 1599 + monthsBefore 1599 3 + ((400 : Nat) - 1 : Int)) +
      3600 * (30 : Nat) + 60 * (90 : Nat) + (4000 : Nat) + 3600 := by
  have ht : Fits ⟨1599,3,400,30,90,4000,9,999,true⟩ :=
    ⟨by decide,by decide,by decide,by decide⟩
  have hdays : dayCount ⟨1599,3,400,30,90,4000,9,999,true⟩ = -135047 := by
    rw [dayCount_eq]
    rfl
  have hexact : exactSeconds ⟨1599,3,400,30,90,4000,9,999,true⟩ = -11667939800 := by
    rw [exactSeconds_eq, hdays]
    rfl
  obtain ⟨hcount,hfound,-⟩ := seconds_counted_exactly ⟨1599,3,400,30,90,4000,9,999,true⟩
  obtain ⟨v,hv⟩ := hfound (by decide) ht (by rw [hdays]; decide) (by rw [hexact]; decide)
  obtain rfl : v = -11667939800 := (hcount v hv).trans hexact
  exact ⟨hv,hcount _ hv⟩

/-- The seconds of a date and time are found exactly if they are a long and so are
those of the midnight before, and are out of range otherwise. So the fields of a
long give it back from the first midnight on. -/
theorem found_unless_midnight_overflows (t : DateTime) (hm : 1 ≤ t.month ∧ t.month ≤ 12)
    (ht : t.Fits) :
    (longMin ≤ 86400 * t.dayCount ∧ t.exactSeconds ≤ longMax → t.toEpoch = .ok t.exactSeconds) ∧
    (¬(longMin ≤ 86400 * t.dayCount ∧ t.exactSeconds ≤ longMax) →
      t.toEpoch = .error .outOfRange) ∧
    ∀ s, longMin ≤ s → s ≤ longMax → (ofEpoch s).exactSeconds = s ∧
      ((ofEpoch s).toEpoch = .ok s ↔ -9223372036854720000 ≤ s) := by
  refine ⟨fun h => toEpoch_exact hm ht h.1 h.2,fun h => toEpoch_refused hm (by omega),?_⟩
  intro s hmin hu
  refine ⟨ofEpoch_exactSeconds s,fun h => ?_,fun h => toEpoch_ofEpoch h hu _ _⟩
  have hmid := (toEpoch_ok h).2.1
  rw [ofEpoch_dayCount, longMin] at hmid
  omega

theorem last_second_found :
    (1 ≤ 11 ∧ 11 ≤ 12) ∧ Fits ⟨292277026596,11,34,15,30,7,0,0,false⟩ ∧
    (⟨292277026596,11,34,15,30,7,0,0,false⟩ : DateTime).toEpoch = .ok longMax := by
  have ht : Fits ⟨292277026596,11,34,15,30,7,0,0,false⟩ :=
    ⟨by decide,by decide,by decide,by decide⟩
  have hdays : dayCount ⟨292277026596,11,34,15,30,7,0,0,false⟩ = 106751991167300 := by
    rw [dayCount_eq]
    rfl
  have hexact : exactSeconds ⟨292277026596,11,34,15,30,7,0,0,false⟩ = longMax := by
    rw [exactSeconds_eq, hdays]
    rfl
  have h := (found_unless_midnight_overflows _ (by decide) ht).1
  rw [hdays, hexact] at h
  exact ⟨by decide,ht,h ⟨by decide,by decide⟩⟩

/-- The least long has fields that stand for it, and they are out of range: the
midnight before is no long. -/
theorem least_long_is_refused :
    exactSeconds ⟨-292277022657,1,27,8,29,52,0,0,false⟩ = longMin ∧
    (⟨-292277022657,1,27,8,29,52,0,0,false⟩ : DateTime).toEpoch = .error .outOfRange ∧
    (ofEpoch longMin).exactSeconds = longMin ∧
    (ofEpoch longMin).toEpoch = .error .outOfRange := by
  refine ⟨?_,by decide +kernel,ofEpoch_exactSeconds longMin,?_⟩
  · rw [exactSeconds_eq, dayCount_eq]
    rfl
  · apply toEpoch_refused (ofEpoch_days longMin).1
    rw [ofEpoch_dayCount]
    decide

end DateTime

end Freestanding.Calendar
