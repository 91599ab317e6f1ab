import Freestanding.Proofs.Calendar.Days

/-!
# Seconds to fields and back

The fields of a count of seconds give the count back, from the first midnight
that a long can hold on. Both directions are also written with every sum,
difference and product checked to be a long. The checks never fail, so nothing
on the way leaves the range.
-/

set_option autoImplicit false

namespace Freestanding.Calendar

theorem long?_eq_some {i : Int} (hl : -9223372036854775808 ≤ i) (hu : i ≤ 9223372036854775807) :
    long? i = some i :=
  if_pos ⟨hl,hu⟩

theorem long?_eq_some_iff {i j : Int} :
    long? i = some j ↔ (longMin ≤ i ∧ i ≤ longMax) ∧ i = j := by
  simp [long?]

namespace DateTime

/-! ## Checked steps -/

def findYear? (year days : Int) : Option (Int × Int) :=
  if days < daysInYear year then some (year, days)
  else if (long? (days - daysInYear year)).isSome ∧ (long? (year + 1)).isSome then
    findYear? (year + 1) (days - daysInYear year)
  else none
termination_by days.toNat
decreasing_by
  have := daysInYear_eq year
  omega

def findMonth? (month : Nat) : List Nat → Int → Option (Nat × Int)
  | length :: next :: lengths, days =>
    if days < length then some (month, days)
    else (long? (days - length)).bind (findMonth? (month + 1) (next :: lengths))
  | _, days => some (month, days)

def ofEpoch? (seconds : Int) : Option DateTime := do
  let days ← long? (seconds / 86400)
  let time ← long? (seconds % 86400)
  let shifted ← long? (days + 4)
  let cycles ← long? (days / daysInCycle)
  let whole ← long? (cycles * daysInCycle)
  let rest ← long? (days - whole)
  let years ← long? (cycles * 400)
  let start ← long? (1970 + years)
  let y ← findYear? start rest
  let m ← findMonth? 1 (monthLengths y.1) y.2
  some
    { year := y.1
      month := m.1
      day := m.2.toNat + 1
      hour := (time / 3600).toNat
      minute := (time % 3600 / 60).toNat
      second := (time % 60).toNat
      weekday := (shifted % 7).toNat
      yearday := y.2.toNat }

def timeOfDay? (t : DateTime) : Option Int := do
  let hours ← long? (t.hour * 3600)
  let minutes ← long? (t.minute * 60)
  let time ← long? (hours + minutes)
  let time ← long? (time + t.second)
  long? (time + if t.dst then 3600 else 0)

def toEpoch? (t : DateTime) : Option Int := do
  let years ← long? (t.year - 1970)
  let cycles ← long? (years / 400)
  let days ← long? (cycles * daysInCycle)
  let past ← long? (cycles * 400)
  let start ← long? (1970 + past)
  let days ← addYears? start (years % 400).toNat days
  let days ← long? (days + daysBeforeMonth t.year t.month)
  let before ← long? ((t.day : Int) - 1)
  let days ← long? (days + before)
  let time ← t.timeOfDay?
  let seconds ← long? (days * 86400)
  long? (seconds + time)

theorem findYear?_eq (year : Int) (days : Nat) (hl : -9223372036854775808 ≤ year)
    (hu : year + days ≤ 9223372036854775807) (hd : days ≤ 9223372036854775807) :
    findYear? year days = some ((findYear year days).1, ((findYear year days).2 : Int)) := by
  fun_induction findYear year days with
  | case1 year days h =>
    rw [findYear?, if_pos (by omega)]
  | case2 year days h ih =>
    have hpos := daysInYear_eq year
    have hcast : (days : Int) - daysInYear year = (days - daysInYear year : Nat) := by omega
    rw [findYear?, if_neg (by omega), if_pos, hcast, ih (by omega) (by omega) (by omega)]
    rw [long?_eq_some (by omega) (by omega), long?_eq_some (by omega) (by omega)]
    exact ⟨rfl,rfl⟩

theorem findMonth?_eq (month : Nat) (lengths : List Nat) (days : Nat)
    (hd : days ≤ 9223372036854775807) : findMonth? month lengths days =
      some ((findMonth month lengths days).1, ((findMonth month lengths days).2 : Int)) := by
  fun_induction findMonth month lengths days with
  | case1 month length next lengths days h =>
    rw [findMonth?, if_pos (by omega)]
  | case2 month length next lengths days h ih =>
    have hcast : (days : Int) - length = (days - length : Nat) := by omega
    rw [findMonth?, if_neg (by omega), hcast, long?_eq_some (by omega) (by omega),
      Option.bind_some, ih (by omega)]
  | case3 month lengths days h =>
    rw [findMonth?]
    exact h

/-! ## From seconds to fields -/

theorem ofEpoch?_eq {s : Int} (hl : longMin ≤ s) (hu : s ≤ longMax) :
    ofEpoch? s = some (ofEpoch s) := by
  have hc : (daysInCycle : Int) = 146097 := rfl
  have hd : -200000000000000 ≤ s / 86400 ∧ s / 86400 ≤ 200000000000000 := by
    simp only [longMin, longMax] at hl hu
    omega
  have ht : 0 ≤ s % 86400 ∧ s % 86400 < 86400 := by omega
  simp only [ofEpoch?, ofEpoch, hc]
  generalize s / 86400 = d at hd ⊢
  generalize s % 86400 = time at ht ⊢
  have hdays : long? d = some d := long?_eq_some (by omega) (by omega)
  have htime : long? time = some time := long?_eq_some (by omega) (by omega)
  have hshifted : long? (d + 4) = some (d + 4) := long?_eq_some (by omega) (by omega)
  have hcycles : long? (d / 146097) = some (d / 146097) := long?_eq_some (by omega) (by omega)
  have hwhole : long? (d / 146097 * 146097) = some (d / 146097 * 146097) :=
    long?_eq_some (by omega) (by omega)
  have hrest : long? (d - d / 146097 * 146097) = some ((d % 146097).toNat : Int) := by
    have hmod : d - d / 146097 * 146097 = ((d % 146097).toNat : Int) := by omega
    rw [hmod]
    exact long?_eq_some (by omega) (by omega)
  have hyears : long? (d / 146097 * 400) = some (d / 146097 * 400) :=
    long?_eq_some (by omega) (by omega)
  have hstart : long? (1970 + d / 146097 * 400) = some (1970 + d / 146097 * 400) :=
    long?_eq_some (by omega) (by omega)
  have hy := findYear?_eq (1970 + d / 146097 * 400) (d % 146097).toNat
    (by omega) (by omega) (by omega)
  have hplace := (findYear_spec (1970 + d / 146097 * 400) (d % 146097).toNat).2.2
  generalize findYear (1970 + d / 146097 * 400) (d % 146097).toNat = f at hy hplace ⊢
  have hlength := daysInYear_eq f.1
  have hm := findMonth?_eq 1 (monthLengths f.1) f.2 (by omega)
  have hhour : (time / 3600).toNat = time.toNat / 3600 := by omega
  have hminute : (time % 3600 / 60).toNat = time.toNat % 3600 / 60 := by omega
  have hsecond : (time % 60).toNat = time.toNat % 60 := by omega
  simp only [hdays, htime, hshifted, hcycles, hwhole, hrest, hyears, hstart, hy, hm, hhour,
    hminute, hsecond, Option.bind_eq_bind, Option.bind_some, Int.toNat_natCast]

theorem ofEpoch_days (s : Int) : (1 ≤ (ofEpoch s).month ∧ (ofEpoch s).month ≤ 12) ∧
    (1 ≤ (ofEpoch s).day ∧ (ofEpoch s).day ≤ 366) ∧
    newYear (ofEpoch s).year + daysBeforeMonth (ofEpoch s).year (ofEpoch s).month +
      (((ofEpoch s).day : Int) - 1) = s / 86400 := by
  generalize hf : findYear (1970 + s / 86400 / daysInCycle * 400)
    (s / 86400 % daysInCycle).toNat = f
  obtain ⟨-,hd,hplace⟩ := findYear_spec (1970 + s / 86400 / daysInCycle * 400)
    (s / 86400 % daysInCycle).toNat
  rw [hf] at hd hplace
  have hlength := daysInYear_eq f.1
  have hcycle := newYear_cycles 1970 (s / 86400 / daysInCycle)
  obtain ⟨k,hk,hmonth,hday⟩ := findMonth_spec 1 (show monthLengths f.1 ≠ [] by simp [monthLengths]) f.2
  have hk : k < 12 := hk
  have hbefore : daysBeforeMonth f.1 (1 + k) + (findMonth 1 (monthLengths f.1) f.2).2 = f.2 := by
    rw [daysBeforeMonth, Nat.add_sub_cancel_left]
    exact hday
  simp only [ofEpoch, hf, hmonth]
  have hc : (daysInCycle : Int) = 146097 := rfl
  rw [hcycle, newYear_epoch, hc] at hd
  omega

theorem ofEpoch_time (s : Int) : (ofEpoch s).timeOfDay = s % 86400 := by
  simp only [timeOfDay, ofEpoch, Bool.false_eq_true, if_false]
  omega

theorem ofEpoch_clock (s : Int) :
    (ofEpoch s).hour < 24 ∧ (ofEpoch s).minute < 60 ∧ (ofEpoch s).second < 60 := by
  simp only [ofEpoch]
  omega

/-! ## From fields to seconds -/

theorem addYears?_eq (year : Int) (n : Nat) (days : Int) (hl : -9223372036854775808 ≤ days)
    (hu : days + (newYear (year + n) - newYear year) ≤ 9223372036854775807) :
    addYears? year n days = some (days + (newYear (year + n) - newYear year)) := by
  induction n generalizing year days with
  | zero => simp [addYears?]
  | succ n ih =>
    have hs := newYear_succ year
    have hm := newYear_mono (show year + 1 ≤ year + 1 + n by omega)
    have hshift : year + (n + 1 : Nat) = year + 1 + n := by omega
    rw [hshift] at hu ⊢
    rw [addYears?, long?_eq_some (by omega) (by omega), Option.bind_some,
      ih (year + 1) _ (by omega) (by omega), hs]
    congr 1
    omega

theorem timeOfDay?_eq_some {t : DateTime} {v : Int} (h : t.timeOfDay? = some v) :
    v = t.timeOfDay := by
  simp only [timeOfDay?, Option.bind_eq_bind, Option.bind_eq_some_iff, long?_eq_some_iff] at h
  obtain ⟨_,⟨-,rfl⟩,_,⟨-,rfl⟩,_,⟨-,rfl⟩,_,⟨-,rfl⟩,-,rfl⟩ := h
  rfl

theorem toEpoch_of_checked {t : DateTime} {v : Int} (hm : 1 ≤ t.month ∧ t.month ≤ 12)
    (h : t.toEpoch? = some v) : t.toEpoch = .ok v := by
  simp only [toEpoch?, Option.bind_eq_bind, Option.bind_eq_some_iff, long?_eq_some_iff] at h
  obtain ⟨_,⟨h1,rfl⟩,_,⟨-,rfl⟩,_,⟨h2,rfl⟩,_,⟨-,rfl⟩,_,⟨-,rfl⟩,days,h3,_,⟨h4,rfl⟩,_,⟨-,rfl⟩,_,
    ⟨h5,rfl⟩,time,h6,_,⟨h7,rfl⟩,h8,rfl⟩ := h
  obtain rfl := timeOfDay?_eq_some h6
  simp only [toEpoch, if_pos hm, dayNumber?, Option.bind_eq_bind, long?_eq_some h1.1 h1.2,
    long?_eq_some h2.1 h2.2, long?_eq_some h4.1 h4.2, long?_eq_some h5.1 h5.2,
    long?_eq_some h7.1 h7.2, long?_eq_some h8.1 h8.2, h3, Option.bind_some]

theorem timeOfDay?_eq {t : DateTime} (hh : t.hour ≤ 4294967295) (hm : t.minute ≤ 4294967295)
    (hs : t.second ≤ 4294967295) : t.timeOfDay? = some t.timeOfDay := by
  have hhours : long? (t.hour * 3600) = some (t.hour * 3600 : Int) :=
    long?_eq_some (by omega) (by omega)
  have hminutes : long? (t.minute * 60) = some (t.minute * 60 : Int) :=
    long?_eq_some (by omega) (by omega)
  have hsum : long? (t.hour * 3600 + t.minute * 60) = some (t.hour * 3600 + t.minute * 60 : Int) :=
    long?_eq_some (by omega) (by omega)
  have hseconds : long? (t.hour * 3600 + t.minute * 60 + t.second) =
      some (t.hour * 3600 + t.minute * 60 + t.second : Int) :=
    long?_eq_some (by omega) (by omega)
  have htime : long? t.timeOfDay = some t.timeOfDay := by
    rw [timeOfDay]
    split_ifs
    · exact long?_eq_some (by omega) (by omega)
    · exact long?_eq_some (by omega) (by omega)
  simp only [timeOfDay?, hhours, hminutes, hsum, hseconds, Option.bind_eq_bind, Option.bind_some]
  exact htime

/-- Fields of a year within a million million years give their count of seconds
where the count and that of the midnight before it are longs. -/
theorem toEpoch?_eq {t : DateTime} {days : Int} (hy : -1000000000000 ≤ t.year)
    (hy' : t.year ≤ 1000000000000) (hd : t.day ≤ 4294967295) (hh : t.hour ≤ 4294967295)
    (hm : t.minute ≤ 4294967295) (hs : t.second ≤ 4294967295)
    (hdays : newYear t.year + daysBeforeMonth t.year t.month + ((t.day : Int) - 1) = days)
    (hl : longMin ≤ days * 86400) (hu : days * 86400 ≤ longMax)
    (hl' : longMin ≤ days * 86400 + t.timeOfDay) (hu' : days * 86400 + t.timeOfDay ≤ longMax) :
    t.toEpoch? = some (days * 86400 + t.timeOfDay) := by
  have hc : (daysInCycle : Int) = 146097 := rfl
  have hbound : -400000000000000 ≤ newYear t.year ∧ newYear t.year ≤ 400000000000000 := by
    simp only [newYear, leapsBefore]
    omega
  have hbefore : daysBeforeMonth t.year t.month ≤ 366 := by
    have hmonths := daysBeforeMonth_le t.year t.month
    have hlength := daysInYear_eq t.year
    omega
  have hadd : addYears? (1970 + (t.year - 1970) / 400 * 400) ((t.year - 1970) % 400).toNat
      ((t.year - 1970) / 400 * 146097) = some (newYear t.year) := by
    have hcycle := newYear_cycles 1970 ((t.year - 1970) / 400)
    rw [newYear_epoch, hc, Int.zero_add] at hcycle
    have hstart : 1970 + (t.year - 1970) / 400 * 400 + ((t.year - 1970) % 400).toNat = t.year := by
      omega
    have hsum : (t.year - 1970) / 400 * 146097 +
        (newYear t.year - (t.year - 1970) / 400 * 146097) = newYear t.year := by omega
    have hyears := addYears?_eq (1970 + (t.year - 1970) / 400 * 400)
      ((t.year - 1970) % 400).toNat ((t.year - 1970) / 400 * 146097) (by omega)
    rw [hstart, hcycle, hsum] at hyears
    exact hyears (by omega)
  have hyears : long? (t.year - 1970) = some (t.year - 1970) := long?_eq_some (by omega) (by omega)
  have hcycles : long? ((t.year - 1970) / 400) = some ((t.year - 1970) / 400) :=
    long?_eq_some (by omega) (by omega)
  have hwhole : long? ((t.year - 1970) / 400 * 146097) = some ((t.year - 1970) / 400 * 146097) :=
    long?_eq_some (by omega) (by omega)
  have hpast : long? ((t.year - 1970) / 400 * 400) = some ((t.year - 1970) / 400 * 400) :=
    long?_eq_some (by omega) (by omega)
  have hstart : long? (1970 + (t.year - 1970) / 400 * 400) =
      some (1970 + (t.year - 1970) / 400 * 400) :=
    long?_eq_some (by omega) (by omega)
  have hmonth : long? (newYear t.year + daysBeforeMonth t.year t.month) =
      some (newYear t.year + daysBeforeMonth t.year t.month) :=
    long?_eq_some (by omega) (by omega)
  have hday : long? ((t.day : Int) - 1) = some ((t.day : Int) - 1) :=
    long?_eq_some (by omega) (by omega)
  have hsum : long? days = some days := long?_eq_some (by omega) (by omega)
  simp only [toEpoch?, hc, hyears, hcycles, hwhole, hpast, hstart, hadd, hmonth, hday, hdays, hsum,
    timeOfDay?_eq hh hm hs, long?_eq_some hl hu, long?_eq_some hl' hu', Option.bind_eq_bind,
    Option.bind_some]

theorem ofEpoch_year {s : Int} (hl : longMin ≤ s) (hu : s ≤ longMax) :
    -1000000000000 ≤ (ofEpoch s).year ∧ (ofEpoch s).year ≤ 1000000000000 := by
  obtain ⟨-,hday,hd⟩ := ofEpoch_days s
  have hmonths := daysBeforeMonth_le (ofEpoch s).year (ofEpoch s).month
  have hlength := daysInYear_eq (ofEpoch s).year
  apply year_bounds
  simp only [longMin, longMax] at hl hu
  omega

theorem toEpoch_ofEpoch {s : Int} (hl : -9223372036854720000 ≤ s) (hu : s ≤ longMax)
    (weekday yearday : Nat) : ({ ofEpoch s with weekday, yearday } : DateTime).toEpoch = .ok s := by
  have hmin : longMin ≤ s := Int.le_trans (by decide) hl
  obtain ⟨hm,hday,hdays⟩ := ofEpoch_days s
  obtain ⟨hhour,hminute,hsecond⟩ := ofEpoch_clock s
  obtain ⟨hy,hy'⟩ := ofEpoch_year hmin hu
  have htime : ({ ofEpoch s with weekday, yearday } : DateTime).timeOfDay = s % 86400 :=
    ofEpoch_time s
  have hwhole : s / 86400 * 86400 + s % 86400 = s := by omega
  apply toEpoch_of_checked hm
  have h := toEpoch?_eq (t := { ofEpoch s with weekday, yearday }) hy hy' (by simp only; omega)
    (by simp only; omega) (by simp only; omega) (by simp only; omega) hdays
    (by simp only [longMin]; omega) (by simp only [longMax] at hu ⊢; omega)
  rw [htime, hwhole] at h
  exact h hmin hu

/-- The fields of a count of seconds give it back, from the first midnight of
all longs on, and no step in either direction leaves the range of a long. -/
theorem fields_give_back_seconds (s : Int) (hl : -9223372036854720000 ≤ s) (hu : s ≤ longMax) :
    (ofEpoch s).toEpoch = .ok s ∧ ofEpoch? s = some (ofEpoch s) ∧
      (ofEpoch s).toEpoch? = some s := by
  have hmin : longMin ≤ s := Int.le_trans (by decide) hl
  obtain ⟨hm,hday,hdays⟩ := ofEpoch_days s
  obtain ⟨hhour,hminute,hsecond⟩ := ofEpoch_clock s
  obtain ⟨hy,hy'⟩ := ofEpoch_year hmin hu
  have htime := ofEpoch_time s
  have hwhole : s / 86400 * 86400 + s % 86400 = s := by omega
  have hback : (ofEpoch s).toEpoch? = some s := by
    have h := toEpoch?_eq hy hy' (by omega) (by omega) (by omega) (by omega) hdays
      (by simp only [longMin]; omega) (by simp only [longMax] at hu ⊢; omega)
    rw [htime, hwhole] at h
    exact h hmin hu
  exact ⟨toEpoch_of_checked hm hback,ofEpoch?_eq hmin hu,hback⟩

theorem first_midnight_gives_back_seconds :
    (-9223372036854720000 : Int) ≤ longMax ∧
    (ofEpoch (-9223372036854720000)).toEpoch = .ok (-9223372036854720000) ∧
    ofEpoch? (-9223372036854720000) = some (ofEpoch (-9223372036854720000)) ∧
    (ofEpoch (-9223372036854720000)).toEpoch? = some (-9223372036854720000) :=
  ⟨by decide,fields_give_back_seconds (-9223372036854720000) (by decide) (by decide)⟩

end DateTime

end Freestanding.Calendar
