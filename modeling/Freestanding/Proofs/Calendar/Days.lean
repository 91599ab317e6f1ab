import Freestanding.Calendar.DateTime
import Mathlib.Tactic.Common

/-!
# Counting days

The first of January of every year has a number, counted in days from the one
of 1970. The number has a closed form, by which four hundred years always have
the same number of days. Finding the year of a day steps through the years one
by one, and finding the month steps through the months; neither gains or loses
a day.
-/

set_option autoImplicit false

namespace Freestanding.Calendar

theorem isLeap_iff (year : Int) :
    isLeap year = true ↔ year % 4 = 0 ∧ year % 100 ≠ 0 ∨ year % 400 = 0 := by
  simp [isLeap]

theorem daysInYear_eq (year : Int) :
    daysInYear year = 365 ∧ ¬isLeap year = true ∨ daysInYear year = 366 ∧ isLeap year = true := by
  by_cases h : isLeap year = true
  · exact Or.inr ⟨if_pos h,h⟩
  · exact Or.inl ⟨if_neg h,h⟩

/-! ## The first of January -/

/-- The leap years between the year 1 and a later one, or the same less than
zero for an earlier one. -/
def leapsBefore (year : Int) : Int := (year - 1) / 4 - (year - 1) / 100 + (year - 1) / 400

def newYear (year : Int) : Int := 365 * (year - 1970) + leapsBefore year - leapsBefore 1970

theorem newYear_epoch : newYear 1970 = 0 := rfl

theorem newYear_succ (year : Int) : newYear (year + 1) = newYear year + daysInYear year := by
  have hd := daysInYear_eq year
  rw [isLeap_iff] at hd
  simp only [newYear, leapsBefore]
  omega

theorem newYear_cycles (year cycles : Int) :
    newYear (year + cycles * 400) = newYear year + cycles * daysInCycle := by
  simp only [newYear, leapsBefore, daysInCycle]
  omega

theorem newYear_mono {a b : Int} (h : a ≤ b) : newYear a ≤ newYear b := by
  simp only [newYear, leapsBefore]
  omega

theorem year_bounds {year : Int}
    (h : -300000000000000 ≤ newYear year ∧ newYear year ≤ 300000000000000) :
    -1000000000000 ≤ year ∧ year ≤ 1000000000000 := by
  simp only [newYear, leapsBefore] at h
  omega

/-! ## The year of a day -/

theorem findYear_spec (year : Int) (days : Nat) :
    year ≤ (findYear year days).1 ∧
      newYear (findYear year days).1 + (findYear year days).2 = newYear year + days ∧
      (findYear year days).2 < daysInYear (findYear year days).1 := by
  fun_induction findYear year days with
  | case1 year days h => exact ⟨Int.le_refl _,rfl,h⟩
  | case2 year days h ih =>
    have hs := newYear_succ year
    omega

/-! ## The month of a day -/

/-- The month found is one of those given, and the days of the months before it
and the place in it make up the day. -/
theorem findMonth_spec (month : Nat) {lengths : List Nat} (hn : lengths ≠ []) (days : Nat) :
    ∃ k < lengths.length, (findMonth month lengths days).1 = month + k ∧
      (lengths.take k).foldl (· + ·) 0 + (findMonth month lengths days).2 = days := by
  fun_induction findMonth month lengths days with
  | case1 month length next lengths days h => exact ⟨0,by simp,rfl,by simp⟩
  | case2 month length next lengths days h ih =>
    obtain ⟨k,hk,hm,hd⟩ := ih (by simp)
    refine ⟨k + 1,by simpa using hk,by omega,?_⟩
    rw [List.take_succ_cons, List.foldl_cons, Nat.add_comm 0, List.foldl_assoc]
    omega
  | case3 month lengths days h =>
    exact ⟨0,List.length_pos_iff.mpr hn,rfl,by simp⟩

theorem monthLengths_total (year : Int) :
    (monthLengths year).foldl (· + ·) 0 = daysInYear year := by
  simp only [monthLengths, daysInYear]
  cases isLeap year <;> rfl

theorem monthLengths_le (year : Int) : ∀ length ∈ monthLengths year, length ≤ 31 := by
  simp only [monthLengths]
  cases isLeap year <;> decide

theorem daysBeforeMonth_le (year : Int) (month : Nat) :
    daysBeforeMonth year month ≤ daysInYear year := by
  have ht := monthLengths_total year
  rw [← List.take_append_drop (month - 1) (monthLengths year), List.foldl_append,
    ← Nat.add_zero (List.foldl _ 0 _), List.foldl_assoc] at ht
  exact Nat.le_of_add_right_le (Nat.le_of_eq ht)

end Freestanding.Calendar
