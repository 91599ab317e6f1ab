import Freestanding.Calendar.Template
import Freestanding.Proofs.Calendar.Normal
import Freestanding.Proofs.Format.Takers

/-!
# Weeks of the year

The number of a week is found by one division. It counts the days of the year,
up to the date, on which a week starts: Sundays or Mondays. The number has two
digits, and the subtraction in front of the division never goes below zero. The
templates that stand behind the letters suit their fields, so an expansion never
fails.
-/

set_option autoImplicit false

namespace Freestanding.Calendar

open Numeral (natural digits digitByte clampBase)

/-! ## Days that start a week -/

theorem countP_sevenths (first : Int) (n : Nat) :
    ((List.range n).countP (fun k : Nat => (first + k) % 7 == 0) : Nat) =
      (first + n + 6) / 7 - (first + 6) / 7 := by
  induction n with
  | zero => simp
  | succ n ih =>
    rw [List.range_succ, List.countP_append, List.countP_singleton]
    by_cases h : (first + n) % 7 = 0
    · rw [if_pos (by simpa using h)]
      omega
    · rw [if_neg (by simpa using h)]
      omega

namespace DateTime

def weekdayOn (t : DateTime) (yearday : Nat) : Int :=
  ((t.weekday : Int) - ((t.yearday : Int) - yearday)) % 7

/-- How many days of the year, up to the date, fall on a weekday. -/
def daysOn (t : DateTime) (weekday : Nat) : Nat :=
  (List.range (t.yearday + 1)).countP fun k => t.weekdayOn k == weekday

theorem daysOn_eq {t : DateTime} (ht : t.weekday < 7) {weekday : Nat} (hw : weekday < 7) :
    t.daysOn weekday = (t.yearday + 7 - (t.weekday + 7 - weekday) % 7) / 7 := by
  have hcount := countP_sevenths ((t.weekday : Int) - t.yearday - weekday) (t.yearday + 1)
  have hsame : t.daysOn weekday = (List.range (t.yearday + 1)).countP fun k : Nat =>
      ((t.weekday : Int) - t.yearday - weekday + k) % 7 == 0 := by
    apply List.countP_congr
    intro k _
    simp only [weekdayOn, beq_iff_eq]
    omega
  rw [hsame]
  omega

end DateTime

theorem weekNumber_toNat {yearday since : Nat} (hy : yearday < 366) (hs : since < 7) :
    (weekNumber yearday.toUInt32 since.toUInt32).toNat = (yearday + 7 - since) / 7 := by
  have hday : (yearday.toUInt32 + 7).toNat = yearday + 7 := by
    rw [UInt32.toNat_add, Nat.toUInt32, UInt32.toNat_ofNat']
    change (yearday % 4294967296 + 7) % 4294967296 = _
    omega
  have hsince : since.toUInt32.toNat = since := by
    rw [Nat.toUInt32, UInt32.toNat_ofNat']
    omega
  rw [weekNumber, UInt32.toNat_div, UInt32.toNat_sub_of_le, hday, hsince]
  · rfl
  · rw [UInt32.le_iff_toNat_le, hday, hsince]
    omega

theorem monday_since {weekday : Nat} (h : weekday < 7) :
    (weekday.toUInt32 + 6) % 7 = ((weekday + 6) % 7).toUInt32 := by
  have hword : weekday.toUInt32.toNat = weekday := by
    rw [Nat.toUInt32, UInt32.toNat_ofNat']
    omega
  apply UInt32.toNat_inj.mp
  rw [UInt32.toNat_mod, UInt32.toNat_add, hword, Nat.toUInt32, UInt32.toNat_ofNat']
  change (weekday + 6) % 4294967296 % 7 = (weekday + 6) % 7 % 4294967296
  omega

/-! ## Two digits -/

def twoDigits (n : Nat) : Bytes := [(48 + n / 10).toUInt8, (48 + n % 10).toUInt8]

theorem digits_one {n : Nat} (h : n < 10) : digits 10 n = [n] := by
  rw [digits, dif_neg (by omega), Nat.mod_eq_of_lt h]

theorem digits_two {n : Nat} (hl : 10 ≤ n) (hu : n < 100) : digits 10 n = [n / 10, n % 10] := by
  rw [digits, dif_pos (by omega), digits_one (by omega)]
  rfl

theorem digitByte_of_lt_ten {n : Nat} (h : n < 10) : digitByte false n = (48 + n).toUInt8 :=
  if_pos h

theorem natural_two {n : Nat} (h : n < 100) :
    List.replicate (2 - (natural 10 false n).length) 48 ++ natural 10 false n = twoDigits n := by
  have hbase : clampBase 10 = 10 := rfl
  rw [natural, hbase]
  by_cases hs : n < 10
  · rw [digits_one hs, List.map_singleton, digitByte_of_lt_ten hs, twoDigits, Nat.div_eq_of_lt hs,
      Nat.mod_eq_of_lt hs]
    rfl
  · rw [digits_two (by omega) h, List.map_cons, List.map_singleton,
      digitByte_of_lt_ten (by omega), digitByte_of_lt_ten (by omega)]
    rfl

theorem put_two {n : UInt32} (h : n.toNat < 100) :
    put "%02d" [number n] = .ok (twoDigits n.toNat) := by
  have hword : n.toUInt64.toInt64.toInt = n.toNat := by
    have hbits : n.toUInt64.toInt64.toInt = n.toUInt64.toBitVec.toInt := rfl
    have hnat : n.toUInt64.toBitVec.toNat = n.toNat := n.toNat_toUInt64
    rw [hbits, BitVec.toInt_eq_toNat_bmod, hnat]
    simp only [Int.bmod]
    omega
  have hcut : Format.Length.int.signed n.toNat = n.toNat := by
    simp only [Format.Length.signed, Int.bmod]
    omega
  have hneg : ¬(n.toNat : Int) < 0 := by omega
  refine @Format.format_directive _ [48, 50, 100]
    { flags := { zero := true }, width := 2, conversion := .signed, letter := 100 } _ _
    (by decide) (by decide) (by decide) (by decide) ?_
  simp only [Format.Directive.field?, number, Format.Argument.signed?, Option.map_some, hword, hcut]
  simp [hneg, ← natural_two h, Format.integerField, Format.integerDigits, Format.integerFront,
    Format.signText, Format.padded, Format.Conversion.base, Format.Conversion.isUpper]

/-! ## Expansions -/

theorem put_ok {template : String} {args : List Format.Argument}
    (h : (Format.run (Bytes.ofAscii template) (args.map Format.Argument.plain)).error = none) :
    ∃ out, put template args = .ok out := by
  refine ⟨(Format.run (Bytes.ofAscii template) args).written,?_⟩
  rw [Format.run, Format.writePieces_plain] at h
  simp only [put, Format.format, Format.run, h]

theorem expand_ok (t : DateTime) (letter : UInt8) : ∃ out, expand t letter = .ok out := by
  have hnumber {template : String} {n : UInt32}
      (h : (Format.run (Bytes.ofAscii template) [.uint 0]).error = none) :
      ∃ out, put template [number n] = .ok out := put_ok h
  have hname {template s : String}
      (h : (Format.run (Bytes.ofAscii template) [.text none]).error = none) :
      ∃ out, put template [name s] = .ok out := put_ok h
  have hlong {template : String} {i : Int}
      (h : (Format.run (Bytes.ofAscii template) [.int 0]).error = none) :
      ∃ out, put template [long i] = .ok out := put_ok h
  have hfull : t.fullDate.map Format.Argument.plain =
      [.text none, .text none, .uint 0, .uint 0, .uint 0, .uint 0, .int 0] := rfl
  have hshort : t.shortDate.map Format.Argument.plain = [.uint 0, .uint 0, .int 0] := rfl
  have hclock : t.clock.map Format.Argument.plain = [.uint 0, .uint 0, .uint 0] := rfl
  unfold expand
  dsimp only
  split
  all_goals first
    | exact hnumber (by decide +kernel)
    | exact hname (by decide +kernel)
    | exact hlong (by decide +kernel)
    | exact put_ok (by rw [hfull]; decide +kernel)
    | exact put_ok (by rw [hshort]; decide +kernel)
    | exact put_ok (by rw [hclock]; decide +kernel)
    | exact @put_ok _ [] (by decide +kernel)
    | exact ⟨_,rfl⟩

theorem expandAll_ok (t : DateTime) (s : Bytes) : ∃ out, expandAll t s = .ok out := by
  fun_induction expandAll t s with
  | case1 => exact ⟨_,rfl⟩
  | case2 c => exact ⟨_,rfl⟩
  | case3 d s ih =>
    obtain ⟨field,hf⟩ := expand_ok t d
    obtain ⟨out,ho⟩ := ih
    exact ⟨field ++ out,by rw [hf, ho]; rfl⟩
  | case4 c d s hc ih =>
    obtain ⟨out,ho⟩ := ih
    exact ⟨c :: out,by rw [ho]; rfl⟩

/-! ## Every count of seconds -/

namespace DateTime

theorem newYear_yearday (s : Int) :
    newYear (ofEpoch s).year + (ofEpoch s).yearday = s / 86400 := by
  have hday := (ofEpoch_normal s).day.1
  have hplace := (ofEpoch_normal s).place
  have hcount := ofEpoch_dayCount s
  rw [dayCount, yearStart_eq] at hcount
  omega

theorem weekdayOn_ofEpoch (s : Int) {k : Nat} (hk : k ≤ (ofEpoch s).yearday) :
    ∃ r, (ofEpoch r).year = (ofEpoch s).year ∧ (ofEpoch r).yearday = k ∧
      (ofEpoch r).weekday = (ofEpoch s).weekdayOn k := by
  let r := s - 86400 * ((ofEpoch s).yearday - k : Int)
  have hr := newYear_yearday r
  have hs := newYear_yearday s
  have hdays : r / 86400 = s / 86400 - ((ofEpoch s).yearday - k : Int) := by omega
  obtain ⟨hyear,hplace⟩ := newYear_unique (k := k) (b := (ofEpoch s).year)
    (by omega : newYear (ofEpoch r).year + (ofEpoch r).yearday = _)
    (ofEpoch_normal r).yearday (Nat.lt_of_le_of_lt hk (ofEpoch_normal s).yearday)
  have hweekday : ((ofEpoch r).weekday : Int) = (r / 86400 + 4) % 7 := by
    simp only [ofEpoch]
    omega
  have hweekday' : ((ofEpoch s).weekday : Int) = (s / 86400 + 4) % 7 := by
    simp only [ofEpoch]
    omega
  refine ⟨r,hyear,hplace,?_⟩
  rw [weekdayOn]
  omega

theorem expandAll_field {t : DateTime} {letter : UInt8} {field rest out : Bytes}
    (hf : expand t letter = .ok field) (hr : expandAll t rest = .ok out) :
    expandAll t (37 :: letter :: rest) = .ok (field ++ out) := by
  rw [expandAll, if_pos rfl, hf, hr]
  rfl

/-- The number of a week is that of the Sundays, for `%U`, or of the Mondays, for `%W`,
up to the date in its year. It is written with two digits, and nothing is taken
below zero. -/
theorem week_numbers_count_days (s : Int) (rest : Bytes) :
    (∃ out, expandAll (ofEpoch s) rest = .ok out ∧
      expandAll (ofEpoch s) (37 :: 85 :: rest) = .ok (twoDigits ((ofEpoch s).daysOn 0) ++ out) ∧
      expandAll (ofEpoch s) (37 :: 87 :: rest) = .ok (twoDigits ((ofEpoch s).daysOn 1) ++ out)) ∧
    (ofEpoch s).daysOn 0 < 100 ∧ (ofEpoch s).daysOn 1 < 100 ∧
    (ofEpoch s).weekday ≤ (ofEpoch s).yearday + 7 ∧
    ((ofEpoch s).weekday + 6) % 7 ≤ (ofEpoch s).yearday + 7 ∧
    ∀ k ≤ (ofEpoch s).yearday, ∃ r, (ofEpoch r).year = (ofEpoch s).year ∧
      (ofEpoch r).yearday = k ∧ (ofEpoch r).weekday = (ofEpoch s).weekdayOn k := by
  have hweekday := (ofEpoch_normal s).weekday
  have hyearday := (ofEpoch_normal s).yearday
  have hlength := daysInYear_eq (ofEpoch s).year
  have hday : (ofEpoch s).yearday < 366 := by omega
  have hsunday := weekNumber_toNat hday hweekday
  have hmonday := weekNumber_toNat hday (Nat.mod_lt ((ofEpoch s).weekday + 6) (by decide : 7 > 0))
  have hfirst := daysOn_eq hweekday (by decide : 0 < 7)
  have hsecond := daysOn_eq hweekday (by decide : 1 < 7)
  rw [Nat.sub_zero, Nat.add_mod_right, Nat.mod_eq_of_lt hweekday, ← hsunday] at hfirst
  rw [Nat.add_sub_assoc (by decide) (ofEpoch s).weekday, ← hmonday] at hsecond
  have hbelow : (ofEpoch s).daysOn 0 < 100 ∧ (ofEpoch s).daysOn 1 < 100 := by
    rw [hfirst, hsecond, hsunday, hmonday]
    omega
  obtain ⟨out,hout⟩ := expandAll_ok (ofEpoch s) rest
  refine ⟨⟨out,hout,expandAll_field ?_ hout,expandAll_field ?_ hout⟩,hbelow.1,hbelow.2,by omega,
    by omega,fun k hk => weekdayOn_ofEpoch s hk⟩
  · rw [hfirst]
    exact put_two (hfirst ▸ hbelow.1)
  · rw [hsecond, ← monday_since hweekday]
    exact put_two (monday_since hweekday ▸ hsecond ▸ hbelow.2)

theorem last_sunday_of_leap_year :
    (ofEpoch 978220800).yearday = 365 ∧ expandAll (ofEpoch 978220800) [37, 85] = .ok [53, 51] ∧
    expandAll (ofEpoch 978220800) [37, 87] = .ok [53, 50] ∧ ∃ r, (ofEpoch r).year = 2000 ∧
      (ofEpoch r).yearday = 1 ∧ (ofEpoch r).weekday = 0 := by
  have hyear : (ofEpoch 978220800).year = 2000 := by decide +kernel
  have hyearday : (ofEpoch 978220800).yearday = 365 := by decide +kernel
  have hsundays : (ofEpoch 978220800).daysOn 0 = 53 := by decide +kernel
  have hmondays : (ofEpoch 978220800).daysOn 1 = 52 := by decide +kernel
  have hfirst : (ofEpoch 978220800).weekdayOn 1 = 0 := by decide +kernel
  obtain ⟨⟨out,hout,hsunday,hmonday⟩,-,-,-,-,hdays⟩ := week_numbers_count_days 978220800 []
  obtain ⟨r,hr,hplace,hweekday⟩ := hdays 1 (by omega)
  cases hout
  rw [hsundays] at hsunday
  rw [hmondays] at hmonday
  rw [hfirst] at hweekday
  exact ⟨hyearday,hsunday,hmonday,r,hr.trans hyear,hplace,by omega⟩

end DateTime

end Freestanding.Calendar
