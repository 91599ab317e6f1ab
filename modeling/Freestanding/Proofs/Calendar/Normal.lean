import Freestanding.Proofs.Calendar.Exact

/-!
# Normal form

The fields of a count of seconds are always in normal form: the day lies within
its month, the day of the year within its year, and the two agree. Finding the
month could go by the lengths alone, with no last month that takes what is left.
A date and time in normal form is the only one that stands for its seconds, so
it is found again.
-/

set_option autoImplicit false

namespace Freestanding.Calendar

/-! ## The only year of a day -/

theorem stretch_unique {ι : Type} {start finish : ι → Int}
    (h : ∀ a b, a ≠ b → finish a ≤ start b ∨ finish b ≤ start a) {a b : ι} {d : Int}
    (ha : start a ≤ d ∧ d < finish a) (hb : start b ≤ d ∧ d < finish b) : a = b := by
  by_contra hne
  rcases h a b hne with hle | hle
  · omega
  · omega

theorem newYear_unique {a b : Int} {j k : Nat} (h : newYear a + j = newYear b + k)
    (hj : j < daysInYear a) (hk : k < daysInYear b) : a = b ∧ j = k := by
  have ha := newYear_succ a
  have hb := newYear_succ b
  have hbehind : ∀ a b, a ≠ b → newYear (a + 1) ≤ newYear b ∨ newYear (b + 1) ≤ newYear a :=
    fun _ _ hne => (Int.lt_or_gt_of_ne hne).imp newYear_mono newYear_mono
  have hab : a = b := stretch_unique hbehind (d := newYear a + j) (by omega) (by omega)
  subst hab
  omega

/-! ## The only month of a day -/

theorem daysInMonth_month {year : Int} {month length : Nat}
    (h : daysInMonth year month = .ok length) : 1 ≤ month ∧ month ≤ 12 := by
  obtain ⟨hpos,hget⟩ := daysInMonth_ok_iff.mp h
  have hlt := (List.getElem?_eq_some_iff.mp hget).1
  have hlength : (monthLengths year).length = 12 := rfl
  omega

def monthOfDay? (year : Int) (month days : Nat) : Option (Nat × Nat) :=
  match _h : daysInMonth year month with
  | .error _ => none
  | .ok length =>
    if days < length then some (month, days) else monthOfDay? year (month + 1) (days - length)
termination_by 13 - month
decreasing_by
  have := daysInMonth_month _h
  omega

theorem monthOfDay?_ok {year : Int} {month length : Nat} (h : daysInMonth year month = .ok length)
    (days : Nat) : monthOfDay? year month days =
      if days < length then some (month, days)
      else monthOfDay? year (month + 1) (days - length) := by
  rw [monthOfDay?]
  split
  · rename_i he
    rw [h] at he
    cases he
  · rename_i he
    rw [h] at he
    cases he
    rfl

theorem daysInMonth_of_drop {year : Int} {month length : Nat} {rest : List Nat} (hm : 1 ≤ month)
    (h : (monthLengths year).drop (month - 1) = length :: rest) :
    daysInMonth year month = .ok length ∧ (monthLengths year).drop (month + 1 - 1) = rest := by
  have hhead := congrArg List.head? h
  have htail := congrArg List.tail h
  rw [List.head?_drop] at hhead
  rw [List.tail_drop, Nat.sub_add_cancel hm] at htail
  exact ⟨daysInMonth_ok_iff.mpr ⟨hm,hhead⟩,htail⟩

theorem monthOfDay?_eq {year : Int} {month : Nat} {lengths : List Nat} {days : Nat}
    (hm : 1 ≤ month) (hl : (monthLengths year).drop (month - 1) = lengths)
    (hd : days < lengths.foldl (· + ·) 0) :
    monthOfDay? year month days = some (findMonth month lengths days) := by
  fun_induction findMonth month lengths days with
  | case1 month length next lengths days h =>
    rw [monthOfDay?_ok (daysInMonth_of_drop hm hl).1, if_pos h]
  | case2 month length next lengths days h ih =>
    obtain ⟨hlength,hrest⟩ := daysInMonth_of_drop hm hl
    rw [List.foldl_cons, Nat.add_comm 0, List.foldl_assoc] at hd
    rw [monthOfDay?_ok hlength, if_neg h, ih (by omega) hrest (by omega)]
  | case3 lengths month days h =>
    cases lengths with
    | nil => exact absurd hd (Nat.not_lt_zero days)
    | cons length lengths =>
      cases lengths with
      | nil =>
        rw [List.foldl_cons, List.foldl_nil, Nat.zero_add] at hd
        rw [monthOfDay?_ok (daysInMonth_of_drop hm hl).1, if_pos hd]
      | cons next lengths => exact (h length next lengths rfl).elim

theorem monthOfDay?_spec {year : Int} {month days m d : Nat}
    (h : monthOfDay? year month days = some (m, d)) :
    monthsBefore year m + d = monthsBefore year month + days ∧
      ∃ length, daysInMonth year m = .ok length ∧ d < length := by
  fun_induction monthOfDay? year month days with
  | case1 month days e he => cases h
  | case2 month days length he hlt =>
    cases h
    exact ⟨rfl,length,he,hlt⟩
  | case3 month days length he hlt ih =>
    obtain ⟨hsum,hlast⟩ := ih h
    rw [monthsBefore_succ he] at hsum
    exact ⟨by omega,hlast⟩

theorem monthsBefore_mono (year : Int) {a b : Nat} (h : a ≤ b) :
    monthsBefore year a ≤ monthsBefore year b := by
  induction h with
  | refl => exact Nat.le_refl _
  | step _ ih => exact Nat.le_trans ih (Nat.le_add_right _ _)

theorem monthsBefore_unique {year : Int} {a b m n j k : Nat}
    (ha : daysInMonth year a = .ok m) (hb : daysInMonth year b = .ok n) (hj : j < m) (hk : k < n)
    (h : monthsBefore year a + j = monthsBefore year b + k) : a = b ∧ j = k := by
  have hsa := monthsBefore_succ ha
  have hsb := monthsBefore_succ hb
  have hmono : ∀ {a b}, a < b → (monthsBefore year (a + 1) : Int) ≤ monthsBefore year b :=
    fun hlt => Int.ofNat_le.mpr (monthsBefore_mono year hlt)
  have hab : a = b :=
    stretch_unique (fun _ _ hne => (Nat.lt_or_gt_of_ne hne).imp hmono hmono)
      (d := monthsBefore year a + j) (by omega) (by omega)
  subst hab
  omega

namespace DateTime

/-! ## Fields in normal form -/

/-- The date is on the calendar and the time on the clock. -/
structure Proper (t : DateTime) : Prop where
  month : 1 ≤ t.month ∧ t.month ≤ 12
  day : 1 ≤ t.day ∧ ∃ length, daysInMonth t.year t.month = .ok length ∧ t.day ≤ length
  hour : t.hour < 24
  minute : t.minute < 60
  second : t.second < 60

/-- The weekday and the day of the year are in range too, and the day of the year is
that of the date. -/
structure Normal (t : DateTime) : Prop extends Proper t where
  weekday : t.weekday < 7
  yearday : t.yearday < daysInYear t.year
  place : t.yearday = monthsBefore t.year t.month + (t.day - 1)

theorem ofEpoch_monthOfDay (s : Int) : (ofEpoch s).yearday < daysInYear (ofEpoch s).year ∧
    monthOfDay? (ofEpoch s).year 1 (ofEpoch s).yearday =
      some ((ofEpoch s).month, (ofEpoch s).day - 1) := by
  have hplace := (findYear_spec (1970 + s / 86400 / daysInCycle * 400)
    (s / 86400 % daysInCycle).toNat).2.2
  refine ⟨hplace,?_⟩
  rw [← monthLengths_total] at hplace
  exact monthOfDay?_eq (Nat.le_refl 1) rfl hplace

theorem ofEpoch_normal (s : Int) : (ofEpoch s).Normal := by
  obtain ⟨hyearday,hfound⟩ := ofEpoch_monthOfDay s
  obtain ⟨hplace,length,hlength,hday⟩ := monthOfDay?_spec hfound
  have hfirst : monthsBefore (ofEpoch s).year 1 = 0 := rfl
  obtain ⟨hhour,hminute,hsecond⟩ := ofEpoch_clock s
  have hpos : 1 ≤ (ofEpoch s).day := (ofEpoch_days s).2.1.1
  have hweekday : (ofEpoch s).weekday < 7 := by
    simp only [ofEpoch]
    omega
  exact
    { month := daysInMonth_month hlength
      day := ⟨hpos,length,hlength,by omega⟩
      hour := hhour
      minute := hminute
      second := hsecond
      weekday := hweekday
      yearday := hyearday
      place := by omega }

theorem ofEpoch_day (s : Int) : (ofEpoch s).day ≤ 31 := by
  obtain ⟨-,length,hlength,hle⟩ := (ofEpoch_normal s).day
  have hmem := List.mem_of_getElem? (daysInMonth_ok_iff.mp hlength).2
  exact Nat.le_trans hle (monthLengths_le _ length hmem)

/-! ## Fields found again -/

theorem Proper.place_lt {t : DateTime} (h : t.Proper) :
    monthsBefore t.year t.month + (t.day - 1) < daysInYear t.year := by
  obtain ⟨hpos,length,hlength,hle⟩ := h.day
  have hsucc := monthsBefore_succ hlength
  have htotal := daysBeforeMonth_le t.year (t.month + 1)
  rw [← monthsBefore_eq] at htotal
  omega

theorem Proper.timeOfDay_lt {t : DateTime} (h : t.Proper) (hdst : t.dst = false) :
    t.timeOfDay < 86400 := by
  have hh := h.hour
  have hm := h.minute
  have hs := h.second
  rw [timeOfDay, hdst]
  simp only [Bool.false_eq_true, if_false]
  omega

theorem Proper.date_unique {t u : DateTime} (ht : t.Proper) (hu : u.Proper)
    (h : t.dayCount = u.dayCount) : t.year = u.year ∧ t.month = u.month ∧ t.day = u.day := by
  obtain ⟨hpos,m,hm,hle⟩ := ht.day
  obtain ⟨hpos',n,hn,hle'⟩ := hu.day
  rw [dayCount, dayCount, yearStart_eq, yearStart_eq] at h
  obtain ⟨hyear,hplace⟩ := newYear_unique (by omega) ht.place_lt hu.place_lt
  rw [← hyear] at hn hplace
  obtain ⟨hmonth,hday⟩ := monthsBefore_unique hm hn (by omega) (by omega) hplace
  exact ⟨hyear,hmonth,by omega⟩

theorem Proper.time_unique {t u : DateTime} (ht : t.Proper) (hu : u.Proper)
    (hdt : t.dst = false) (hdu : u.dst = false) (h : t.timeOfDay = u.timeOfDay) :
    t.hour = u.hour ∧ t.minute = u.minute ∧ t.second = u.second := by
  have hm := ht.minute
  have hs := ht.second
  have hm' := hu.minute
  have hs' := hu.second
  rw [timeOfDay, timeOfDay, hdt, hdu] at h
  simp only [Bool.false_eq_true, if_false] at h
  omega

theorem Proper.unique {t u : DateTime} (ht : t.Proper) (hu : u.Proper) (hdt : t.dst = false)
    (hdu : u.dst = false) (h : t.exactSeconds = u.exactSeconds) :
    t = { u with weekday := t.weekday, yearday := t.yearday } := by
  have hlow := t.timeOfDay_nonneg
  have hlow' := u.timeOfDay_nonneg
  have hhigh := ht.timeOfDay_lt hdt
  have hhigh' := hu.timeOfDay_lt hdu
  rw [exactSeconds_eq, exactSeconds_eq] at h
  obtain ⟨hyear,hmonth,hday⟩ := ht.date_unique hu (by omega)
  obtain ⟨hhour,hminute,hsecond⟩ := ht.time_unique hu hdt hdu (by omega)
  cases t
  cases u
  rw [mk.injEq]
  exact ⟨hyear,hmonth,hday,hhour,hminute,hsecond,rfl,rfl,hdt.trans hdu.symm⟩

/-- The fields of every count of seconds are in normal form, and their month is found
by the lengths of the months alone. A proper date and time whose seconds are
found is brought to normal form by its weekday and day of the year alone. -/
theorem fields_are_normal :
    (∀ s, (ofEpoch s).Normal ∧ monthOfDay? (ofEpoch s).year 1 (ofEpoch s).yearday =
      some ((ofEpoch s).month, (ofEpoch s).day - 1)) ∧
    ∀ year month day hour minute second v,
      Proper { year, month, day, hour, minute, second } →
      toEpoch { year, month, day, hour, minute, second } = .ok v →
      ∃ weekday yearday, ofParts year month day hour minute second =
        .ok { year, month, day, hour, minute, second, weekday, yearday } := by
  refine ⟨fun s => ⟨ofEpoch_normal s,(ofEpoch_monthOfDay s).2⟩,?_⟩
  intro year month day hour minute second v hp hv
  have hexact := (toEpoch_ok hv).1.symm.trans (ofEpoch_exactSeconds v).symm
  have hsame := (ofEpoch_normal v).toProper.unique hp rfl rfl hexact.symm
  refine ⟨(ofEpoch v).weekday,(ofEpoch v).yearday,?_⟩
  rw [ofParts, hv, Except.map, hsame]

theorem leap_day_is_found_again :
    Proper ⟨-400,2,29,23,59,59,0,0,false⟩ ∧
    toEpoch ⟨-400,2,29,23,59,59,0,0,false⟩ = .ok (-74784816001) ∧
    ∃ weekday yearday, ofParts (-400) 2 29 23 59 59 =
      .ok ⟨-400,2,29,23,59,59,weekday,yearday,false⟩ := by
  have hp : Proper ⟨-400,2,29,23,59,59,0,0,false⟩ :=
    { month := by decide
      day := ⟨by decide,29,rfl,by decide⟩
      hour := by decide
      minute := by decide
      second := by decide }
  have hv : toEpoch ⟨-400,2,29,23,59,59,0,0,false⟩ = .ok (-74784816001) := by decide +kernel
  exact ⟨hp,hv,fields_are_normal.2 (-400) 2 29 23 59 59 _ hp hv⟩

end DateTime

end Freestanding.Calendar
