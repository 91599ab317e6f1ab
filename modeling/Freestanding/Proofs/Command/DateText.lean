import Freestanding.Command.Run
import Freestanding.Proofs.Calendar.Normal
import Freestanding.Proofs.Numeral.Reading

/-!
# Dates as text

A date and time is written with zeros in front of its numbers and marks between
them. Reading takes the text apart at the same marks, also where the year is
negative or has more than four digits, and gives every number back. So the text
of a count of seconds is read as that count.
-/

set_option autoImplicit false

namespace Freestanding.Command

open Calendar
open Numeral (takeWhile_append_end)

/-! ## Numbers with zeros in front -/

def zeroFilled (width n : Nat) : List Char :=
  List.replicate (width - (Nat.toDigits 10 n).length) '0' ++ Nat.toDigits 10 n

theorem zeroed_natCast (width n : Nat) : DateTime.zeroed width n = zeroFilled width n := by
  rw [DateTime.zeroed, if_neg (by omega), zeroFilled, Int.natAbs_natCast]

theorem zeroed_cases (width : Nat) (i : Int) :
    (∃ n : Nat, i = n ∧ DateTime.zeroed width i = zeroFilled width n) ∨
    ∃ n : Nat, i = -n ∧ DateTime.zeroed width i = '-' :: zeroFilled (width - 1) n := by
  by_cases hi : i < 0
  · refine Or.inr ⟨i.natAbs,by omega,?_⟩
    rw [DateTime.zeroed, if_pos hi]
    rfl
  · refine Or.inl ⟨i.natAbs,by omega,?_⟩
    rw [DateTime.zeroed, if_neg hi]
    rfl

theorem zeroFilled_isDigit {width n : Nat} {c : Char} (hc : c ∈ zeroFilled width n) :
    c.isDigit = true := by
  rcases List.mem_append.mp hc with hz | hd
  · rw [List.eq_of_mem_replicate hz]
    rfl
  · exact Nat.isDigit_of_mem_toDigits (by decide) (by decide) hd

theorem zeroFilled_ne_nil (width n : Nat) : zeroFilled width n ≠ [] := by
  simp [zeroFilled, Nat.toDigits_ne_nil]

theorem length_zeroFilled_two {n : Nat} (hn : n < 100) : (zeroFilled 2 n).length = 2 := by
  have hl : (Nat.toDigits 10 n).length ≤ 2 :=
    (Nat.length_toDigits_le_iff (by decide) (by decide)).mpr hn
  rw [zeroFilled, List.length_append, List.length_replicate]
  omega

theorem digits?_zeroFilled (width n : Nat) : Text.digits? (zeroFilled width n) = some n := by
  have hall : (zeroFilled width n).all Char.isDigit = true :=
    List.all_eq_true.mpr fun c hc => zeroFilled_isDigit hc
  have hvalue : Nat.ofDigitChars 10 (zeroFilled width n) 0 = n := by
    rw [zeroFilled, Nat.ofDigitChars_append, Nat.ofDigitChars_replicate_zero, Nat.mul_zero,
      Nat.ofDigitChars_ten_toDigits]
  have hnil : (zeroFilled width n).isEmpty = false := by
    simpa using zeroFilled_ne_nil width n
  rw [Nat.ofDigitChars_eq_foldl] at hvalue
  simp only [Text.digits?, hall, hnil, Bool.not_false, Bool.and_self, if_true, Nat.mul_comm _ 10,
    hvalue]

theorem zeroFilled_unsigned (width n : Nat) :
    ∃ c cs, zeroFilled width n = c :: cs ∧ c ≠ '+' ∧ c ≠ '-' := by
  cases h : zeroFilled width n with
  | nil => exact absurd h (zeroFilled_ne_nil width n)
  | cons c cs =>
    have hdigit : c.isDigit = true := zeroFilled_isDigit (h ▸ List.mem_cons_self)
    refine ⟨c,cs,rfl,?_,?_⟩
    · rintro rfl
      exact absurd hdigit (by decide)
    · rintro rfl
      exact absurd hdigit (by decide)

theorem natural?_zeroFilled (width : Nat) {bound n : Nat} (hn : n < bound) :
    Text.natural? bound (zeroFilled width n) = some n := by
  have hd := digits?_zeroFilled width n
  obtain ⟨c,cs,hc,hplus,-⟩ := zeroFilled_unsigned width n
  rw [hc] at hd ⊢
  simp [Text.natural?, hd, hplus, hn]

theorem integer?_zeroed (width : Nat) {low high i : Int} (hl : low ≤ i) (hh : i ≤ high) :
    Text.integer? low high (DateTime.zeroed width i) = some i := by
  rcases zeroed_cases width i with ⟨n,rfl,hz⟩ | ⟨n,rfl,hz⟩
  · have hd := digits?_zeroFilled width n
    obtain ⟨c,cs,hc,hplus,hminus⟩ := zeroFilled_unsigned width n
    rw [hz, hc]
    rw [hc] at hd
    simp [Text.integer?, hd, hplus, hminus, hl, hh]
  · rw [hz]
    simp [Text.integer?, digits?_zeroFilled, hl, hh]

/-! ## Fields -/

theorem isDecimalDigit_of_isDigit {c : Char} (h : c.isDigit = true) :
    Text.isDecimalDigit c = true := by
  have hrange : 48 ≤ c.toNat ∧ c.toNat ≤ 57 := by
    simp only [Char.isDigit, Bool.and_eq_true, decide_eq_true_eq] at h
    exact ⟨UInt32.le_iff_toNat_le.mp h.1,UInt32.le_iff_toNat_le.mp h.2⟩
  exact List.any_eq_true.mpr ⟨(0x30, 0x39),by simp [Text.decimalDigitRanges],by simp [hrange]⟩

def Marked (rest : List Char) : Prop := ∀ c ∈ rest.head?, Text.isDecimalDigit c = false

theorem marked_nil : Marked [] := by
  intro c hc
  cases hc

theorem marked_cons {mark : Char} (h : Text.isDecimalDigit mark = false) (s : List Char) :
    Marked (mark :: s) := by
  intro c hc
  cases hc
  exact h

theorem takeWhile_zeroFilled (width n : Nat) {rest : List Char} (hr : Marked rest) :
    (zeroFilled width n ++ rest).takeWhile Text.isDecimalDigit = zeroFilled width n :=
  takeWhile_append_end (fun _ hc => isDecimalDigit_of_isDigit (zeroFilled_isDigit hc)) hr

theorem markedField?_zeroed (mark : Char) {n : Nat} (hn : n < 100) {rest : List Char}
    (hr : Marked rest) :
    markedField? mark (mark :: (DateTime.zeroed 2 n ++ rest)) =
      some (DateTime.zeroed 2 n, rest) := by
  have hl := length_zeroFilled_two hn
  rw [zeroed_natCast, markedField?, if_pos rfl, shortField?,
    takeWhile_zeroFilled 2 n hr, if_pos (Or.inr hl), List.drop_left]

/-- A year is read to its end, with its minus if it has one, though the mark that
follows it is a minus too. -/
theorem yearField?_zeroed (width : Nat) (i : Int) {rest : List Char} (hr : Marked rest) :
    yearField? (DateTime.zeroed width i ++ rest) = some (DateTime.zeroed width i, rest) := by
  have hno : ∀ w n, (zeroFilled w n ++ rest).takeWhile (· == '-') = [] := by
    intro w n
    obtain ⟨c,cs,hc,-,hminus⟩ := zeroFilled_unsigned w n
    rw [hc, List.cons_append, List.takeWhile_cons, beq_eq_false_iff_ne.mpr hminus]
    rfl
  have hempty : ∀ w n, (zeroFilled w n).isEmpty = false := by
    intro w n
    simpa using zeroFilled_ne_nil w n
  rcases zeroed_cases width i with ⟨n,-,hz⟩ | ⟨n,-,hz⟩
  · rw [hz]
    simp only [yearField?, hno, List.take_nil, List.length_nil, List.drop_zero,
      takeWhile_zeroFilled _ _ hr, hempty, Bool.false_eq_true, if_false, Nat.zero_add,
      List.drop_left, List.nil_append]
  · rw [hz, List.cons_append]
    simp only [yearField?, List.takeWhile_cons, beq_self_eq_true, if_true, hno, List.take_succ_cons,
      List.take_nil, List.length_cons, List.length_nil, List.drop_succ_cons, List.drop_zero,
      takeWhile_zeroFilled _ _ hr, hempty, Bool.false_eq_true, if_false, Nat.zero_add,
      Nat.add_comm 1, List.drop_left, List.cons_append, List.nil_append]

structure TwoDigit (t : DateTime) : Prop where
  month : t.month < 100
  day : t.day < 100
  hour : t.hour < 100
  minute : t.minute < 100
  second : t.second < 100

def DateWords.ofDateTime (t : DateTime) : DateWords where
  year := DateTime.zeroed 4 t.year
  month := DateTime.zeroed 2 t.month
  day := DateTime.zeroed 2 t.day
  hour := DateTime.zeroed 2 t.hour
  minute := DateTime.zeroed 2 t.minute
  second := DateTime.zeroed 2 t.second

theorem read?_chars {t : DateTime} (h : TwoDigit t) :
    DateWords.read? t.chars = some (DateWords.ofDateTime t) := by
  have hdash : Text.isDecimalDigit '-' = false := by decide
  have htee : Text.isDecimalDigit 'T' = false := by decide
  have hcolon : Text.isDecimalDigit ':' = false := by decide
  have hsecond := markedField?_zeroed ':' h.second marked_nil
  rw [List.append_nil] at hsecond
  simp only [DateTime.chars, List.append_assoc, List.cons_append, DateWords.read?, Option.bind_eq_bind,
    yearField?_zeroed 4 t.year (marked_cons hdash _),
    markedField?_zeroed '-' h.month (marked_cons hdash _),
    markedField?_zeroed '-' h.day (marked_cons htee _),
    markedField?_zeroed 'T' h.hour (marked_cons hcolon _),
    markedField?_zeroed ':' h.minute (marked_cons hcolon _), hsecond, Option.bind_some]
  rfl

theorem toDateTime?_ofDateTime {t : DateTime} (h : TwoDigit t) (hl : longMin ≤ t.year)
    (hu : t.year ≤ longMax) (dst : Bool) :
    (DateWords.ofDateTime t).toDateTime? dst =
      some { t with weekday := 0, yearday := 0, dst } := by
  obtain ⟨hmonth,hday,hhour,hminute,hsecond⟩ := h
  have hsmall : ∀ n < 100, Text.natural? 4294967296 (DateTime.zeroed 2 (n : Nat)) = some n := by
    intro n hn
    rw [zeroed_natCast]
    exact natural?_zeroFilled 2 (by omega)
  simp only [DateWords.toDateTime?, DateWords.ofDateTime, integer?_zeroed 4 hl hu, hsmall _ hmonth,
    hsmall _ hday, hsmall _ hhour, hsmall _ hminute, hsmall _ hsecond, Option.bind_eq_bind,
    Option.bind_some, Option.pure_def]

/-! ## Seconds -/

theorem ofEpoch_twoDigit (s : Int) : TwoDigit (DateTime.ofEpoch s) := by
  obtain ⟨hhour,hminute,hsecond⟩ := DateTime.ofEpoch_clock s
  have hmonth := (DateTime.ofEpoch_days s).1
  have hday := DateTime.ofEpoch_day s
  exact ⟨by omega,by omega,by omega,by omega,by omega⟩

/-- The text of a count of seconds, as it is printed, has the form of a date and
is read as the count, from the first midnight that a long can hold on. -/
theorem printed_time_counts_back (now : Int) (config : Heap.Config) (s : Int)
    (hl : -9223372036854720000 ≤ s) (hu : s ≤ longMax) :
    (run now config (.gmtime (some s))).entries.head? =
      some (.line (DateTime.ofEpoch s).text) ∧
    DateWords.read? (DateTime.ofEpoch s).text.toList =
      some (DateWords.ofDateTime (DateTime.ofEpoch s)) ∧
    run now config (.mktime (DateTime.ofEpoch s).text false) = .output [.line (toString s)] := by
  have hmin : longMin ≤ s := Int.le_trans (by decide) hl
  obtain ⟨hy,hy'⟩ := DateTime.ofEpoch_year hmin hu
  have hread : DateWords.read? (DateTime.ofEpoch s).text.toList =
      some (DateWords.ofDateTime (DateTime.ofEpoch s)) := by
    rw [DateTime.text, String.toList_ofList]
    exact read?_chars (ofEpoch_twoDigit s)
  have hfields := toDateTime?_ofDateTime (ofEpoch_twoDigit s) (Int.le_trans (by decide) hy)
    (Int.le_trans hy' (by decide)) false
  have hback : ({ DateTime.ofEpoch s with weekday := 0, yearday := 0, dst := false } :
      DateTime).toEpoch = .ok s := DateTime.toEpoch_ofEpoch hl hu 0 0
  refine ⟨?_,hread,?_⟩
  · simp only [run, showTime]
    split <;> rfl
  · simp only [run, countTime, hread, Option.bind_some, hfields, hback]

theorem first_midnight_counts_back :
    (DateTime.ofEpoch (-9223372036854720000)).text = "-292277022657-01-28T00:00:00" ∧
    (run 0 {} (.gmtime (some (-9223372036854720000)))).entries.head? =
      some (.line "-292277022657-01-28T00:00:00") ∧
    run 0 {} (.mktime "-292277022657-01-28T00:00:00" false) =
      .output [.line "-9223372036854720000"] := by
  have htext : (DateTime.ofEpoch (-9223372036854720000)).text = "-292277022657-01-28T00:00:00" := by
    apply String.toList_inj.mp
    rw [DateTime.text, String.toList_ofList]
    decide +kernel
  obtain ⟨hline,-,hcount⟩ := printed_time_counts_back 0 {} (-9223372036854720000) (by decide)
    (by decide)
  rw [htext] at hline hcount
  exact ⟨htext,hline,hcount⟩

end Freestanding.Command
