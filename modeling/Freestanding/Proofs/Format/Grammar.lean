import Freestanding.Format.Directive
import Freestanding.Proofs.Numeral.Spelling

/-!
# The grammar of directives

A directive is written as flags, a width that starts with no zero, a precision
behind a point, the letters of a length and the letter of a conversion. A
reader that takes as much as it can part by part accepts exactly these: a zero
at the start is a flag, a second letter belongs to the length, and the letter
of a conversion is none of the bytes that may stand in front of it. So the
parts are fixed by the text.
-/

set_option autoImplicit false

namespace Freestanding.Format

open Numeral (isDecimal decimalValue digitIn? valueFrom takeWhile_append_end dropWhile_append_end
  head_dropWhile)

theorem append_run_inj {p : UInt8 → Bool} {s s' t t' : Bytes} (hs : ∀ c ∈ s, p c = true)
    (hs' : ∀ c ∈ s', p c = true) (ht : ∀ c ∈ t.head?, p c = false)
    (ht' : ∀ c ∈ t'.head?, p c = false) (h : s ++ t = s' ++ t') : s = s' ∧ t = t' := by
  have hrun : s = s' := by
    rw [← takeWhile_append_end hs ht, h, takeWhile_append_end hs' ht']
  subst hrun
  exact ⟨rfl,List.append_cancel_left h⟩

/-! ## Flags -/

def isFlag (c : UInt8) : Bool :=
  c == 45 || c == 43 || c == 32 || c == 48 || c == 39 || c == 35

def Flags.among (s : Bytes) : Flags where
  left := s.contains 45
  plus := s.contains 43
  space := s.contains 32
  zero := s.contains 48
  grouped := s.contains 39
  alternate := s.contains 35

theorem insert?_among (u : Bytes) (c : UInt8) :
    (Flags.among u).insert? c = if isFlag c then some (Flags.among (u ++ [c])) else none := by
  by_cases hc : isFlag c = true
  · rw [if_pos hc]
    simp only [isFlag, Bool.or_eq_true, beq_iff_eq] at hc
    rcases hc with ((((rfl | rfl) | rfl) | rfl) | rfl) | rfl <;> simp [Flags.insert?, Flags.among]
  · rw [if_neg hc]
    simp only [isFlag, Bool.or_eq_true, beq_iff_eq, not_or] at hc
    obtain ⟨⟨⟨⟨⟨h1,h2⟩,h3⟩,h4⟩,h5⟩,h6⟩ := hc
    simp [Flags.insert?, h1, h2, h3, h4, h5, h6]

theorem readFlagsFrom_among (u s : Bytes) : readFlagsFrom (Flags.among u) s =
    (Flags.among (u ++ s.takeWhile isFlag), s.dropWhile isFlag) := by
  induction s generalizing u with
  | nil => simp [readFlagsFrom]
  | cons c s ih =>
    by_cases hc : isFlag c = true
    · simp [readFlagsFrom, insert?_among, hc, ih]
    · simp [readFlagsFrom, insert?_among, hc]

theorem readFlags_eq (s : Bytes) :
    readFlags s = (Flags.among (s.takeWhile isFlag), s.dropWhile isFlag) :=
  readFlagsFrom_among [] s

/-! ## Numbers -/

/-- The value of decimal digits, or the greatest word where it is beyond. -/
def clampedValue (s : Bytes) : Nat := min (valueFrom 10 0 s) (wordLimit - 1)

theorem digitIn?_decimal {c : UInt8} (h : isDecimal c = true) :
    digitIn? 10 c = some (decimalValue c) := by
  simp only [isDecimal, Bool.and_eq_true, decide_eq_true_eq] at h
  have hlt : c.toNat - 48 < 10 := by
    have hle : c.toNat ≤ 57 := UInt8.le_iff_toNat_le.mp h.2
    omega
  simp [digitIn?, Numeral.digitValue?, decimalValue, h, hlt]

theorem valueFrom_cons_decimal {c : UInt8} (h : isDecimal c = true) (v : Nat) (s : Bytes) :
    valueFrom 10 v (c :: s) = valueFrom 10 (v * 10 + decimalValue c) s := by
  simp [valueFrom, digitIn?_decimal h]

theorem readNumberFrom_min (v : Nat) (s : Bytes) : readNumberFrom (min v (wordLimit - 1)) s =
    (min (valueFrom 10 v (s.takeWhile isDecimal)) (wordLimit - 1), s.dropWhile isDecimal) := by
  induction s generalizing v with
  | nil => simp [readNumberFrom, valueFrom]
  | cons c s ih =>
    by_cases hc : isDecimal c = true
    · have hheld : min (min v (wordLimit - 1) * 10 + decimalValue c) (wordLimit - 1) =
          min (v * 10 + decimalValue c) (wordLimit - 1) := by
        simp only [wordLimit]
        omega
      rw [readNumberFrom, if_pos hc, hheld, ih, List.takeWhile_cons_of_pos hc,
        List.dropWhile_cons_of_pos hc, valueFrom_cons_decimal hc]
    · rw [readNumberFrom, if_neg hc, List.takeWhile_cons_of_neg hc, List.dropWhile_cons_of_neg hc]
      rfl

theorem readWidth_eq (s : Bytes) :
    readWidth s = (clampedValue (s.takeWhile isDecimal), s.dropWhile isDecimal) :=
  readNumberFrom_min 0 s

def pointed : Option Bytes → Bytes
  | none => []
  | some digits => 46 :: digits

theorem readPrecision_none {s : Bytes} (h : ∀ c ∈ s.head?, c ≠ 46) :
    readPrecision s = (none, s) := by
  cases s with
  | nil => rfl
  | cons c s => simp [readPrecision, h c rfl]

theorem readPrecision_eq (s : Bytes) : ∃ p, (∀ digits ∈ p, ∀ c ∈ digits, isDecimal c = true) ∧
    s = pointed p ++ (readPrecision s).2 ∧ (readPrecision s).1 = p.map clampedValue := by
  by_cases hs : s.head? = some 46
  · obtain ⟨s,rfl⟩ := List.head?_eq_some_iff.mp hs
    refine ⟨some (s.takeWhile isDecimal),?_,?_,?_⟩
    · rintro digits ⟨⟩ c hc
      exact List.all_eq_true.mp List.all_takeWhile c hc
    · simp [readPrecision, readWidth_eq, pointed]
    · simp [readPrecision, readWidth_eq]
  · have hnone := readPrecision_none (s := s) fun c hc he => hs (he ▸ hc)
    exact ⟨none,by simp,by simp [hnone, pointed],by simp [hnone]⟩

theorem pointed_append_inj {p p' : Option Bytes} {t t' : Bytes}
    (hp : ∀ digits ∈ p, ∀ c ∈ digits, isDecimal c = true)
    (hp' : ∀ digits ∈ p', ∀ c ∈ digits, isDecimal c = true)
    (ht : ∀ c ∈ t.head?, isDecimal c = false ∧ c ≠ 46)
    (ht' : ∀ c ∈ t'.head?, isDecimal c = false ∧ c ≠ 46)
    (h : pointed p ++ t = pointed p' ++ t') : p = p' ∧ t = t' := by
  cases p with
  | none =>
    cases p' with
    | none => exact ⟨rfl,h⟩
    | some digits' =>
      obtain rfl : t = _ := h
      exact absurd rfl (ht 46 rfl).2
  | some digits =>
    cases p' with
    | none =>
      obtain rfl : _ = t' := h
      exact absurd rfl (ht' 46 rfl).2
    | some digits' =>
      obtain ⟨hdigits,hrest⟩ := append_run_inj (hp digits rfl) (hp' digits' rfl)
        (fun c hc => (ht c hc).1) (fun c hc => (ht' c hc).1) (List.cons.inj h).2
      exact ⟨congrArg some hdigits,hrest⟩

/-! ## Letters -/

def Length.letters : Length → Bytes
  | int => []
  | char => [104, 104]
  | short => [104]
  | long => [108]
  | longLong => [108, 108]
  | size => [122]
  | difference => [116]

theorem readLength_eq (s : Bytes) : s = (readLength s).1.letters ++ (readLength s).2 := by
  rw [readLength.eq_def]
  split <;> rfl

def Conversion.letters : Conversion → List Char
  | signed => ['d', 'i']
  | unsigned => ['u']
  | octal => ['o']
  | hex false => ['x']
  | hex true => ['X']
  | real .fixed false => ['f']
  | real .fixed true => ['F']
  | real .scientific false => ['e']
  | real .scientific true => ['E']
  | real .general false => ['g']
  | real .general true => ['G']
  | text => ['s']
  | char => ['c']
  | pointer => ['p']
  | percent => ['%']

theorem conversion?_letters (k : Conversion) :
    k.letters.all (fun c => conversion? c.toUInt8 == some k) = true := by
  cases k with
  | hex upper => cases upper <;> rfl
  | real style upper => cases style <;> cases upper <;> rfl
  | _ => rfl

theorem conversion?_eq_some {c : UInt8} {k : Conversion} :
    conversion? c = some k ↔ c ∈ k.letters.map Char.toUInt8 := by
  constructor
  · intro h
    obtain ⟨p,hp,rfl⟩ := Option.map_eq_some_iff.mp h
    have hc : p.1.toUInt8 = c := by simpa using List.find?_some hp
    have hall : conversions.all (fun p => p.2.letters.contains p.1) = true := rfl
    have hmem := List.all_eq_true.mp hall p (List.mem_of_find?_eq_some hp)
    exact List.mem_map.mpr ⟨p.1,by simpa using hmem,hc⟩
  · intro h
    obtain ⟨l,hl,rfl⟩ := List.mem_map.mp h
    simpa using List.all_eq_true.mp (conversion?_letters k) l hl

def isPlain (c : UInt8) : Bool :=
  !(isFlag c || isDecimal c || c == 46 || c == 104 || c == 108 || c == 122 || c == 116)

theorem isPlain_letter {c : UInt8} {k : Conversion} (h : c ∈ k.letters.map Char.toUInt8) :
    isPlain c = true := by
  have hall : k.letters.all (fun c => isPlain c.toUInt8) = true := by
    cases k with
    | hex upper => cases upper <;> rfl
    | real style upper => cases style <;> cases upper <;> rfl
    | _ => rfl
  obtain ⟨l,hl,rfl⟩ := List.mem_map.mp h
  exact List.all_eq_true.mp hall l hl

theorem readLength_letters (l : Length) {c : UInt8} (hc : isPlain c = true) (rest : Bytes) :
    readLength (l.letters ++ c :: rest) = (l, c :: rest) := by
  simp only [isPlain, Bool.not_eq_true', Bool.or_eq_false_iff, beq_eq_false_iff_ne] at hc
  cases l <;> simp [Length.letters, readLength, hc]

/-! ## In front of the letter -/

/-- What a directive has in front of its letter, as written. -/
@[ext]
structure Preface where
  flags : Bytes
  width : Bytes
  precision : Option Bytes
  length : Length
  flags_all : ∀ c ∈ flags, isFlag c = true
  width_all : ∀ c ∈ width, isDecimal c = true
  width_head : width.head? ≠ some 48
  precision_all : ∀ digits ∈ precision, ∀ c ∈ digits, isDecimal c = true

namespace Preface

def text (o : Preface) : Bytes :=
  o.flags ++ (o.width ++ (pointed o.precision ++ o.length.letters))

def modifiers (o : Preface) : Modifiers where
  flags := Flags.among o.flags
  width := clampedValue o.width
  precision := o.precision.map clampedValue
  length := o.length

theorem text_append (o : Preface) (s : Bytes) : o.text ++ s =
    o.flags ++ (o.width ++ (pointed o.precision ++ (o.length.letters ++ s))) := by
  simp [text]

theorem exists_of_read (s : Bytes) :
    ∃ o : Preface, s = o.text ++ (readModifiers s).2 ∧ o.modifiers = (readModifiers s).1 := by
  obtain ⟨precision,hp,hprecision,hvalue⟩ :=
    readPrecision_eq ((s.dropWhile isFlag).dropWhile isDecimal)
  have hlength := readLength_eq (readPrecision ((s.dropWhile isFlag).dropWhile isDecimal)).2
  have hflags : ∀ c ∈ s.takeWhile isFlag, isFlag c = true :=
    fun c hc => List.all_eq_true.mp List.all_takeWhile c hc
  have hwidth : ∀ c ∈ (s.dropWhile isFlag).takeWhile isDecimal, isDecimal c = true :=
    fun c hc => List.all_eq_true.mp List.all_takeWhile c hc
  have hzero : ((s.dropWhile isFlag).takeWhile isDecimal).head? ≠ some 48 := by
    intro hz
    rw [List.head?_takeWhile, Option.filter_eq_some_iff] at hz
    cases head_dropWhile isFlag s 48 hz.1
  refine ⟨⟨_,_,precision,(readModifiers s).1.length,hflags,hwidth,hzero,hp⟩,?_,?_⟩
  · simp only [text_append, readModifiers, readFlags_eq, readWidth_eq]
    rw [← hlength, ← hprecision, List.takeWhile_append_dropWhile, List.takeWhile_append_dropWhile]
  · simp only [modifiers, readModifiers, hvalue, readFlags_eq, readWidth_eq]

/-! ## Where each part ends -/

section Ends

variable (o : Preface) {c : UInt8} (hc : isPlain c = true) (rest : Bytes)
include hc

theorem length_head : ∀ d ∈ (o.length.letters ++ c :: rest).head?,
    isFlag d = false ∧ isDecimal d = false ∧ d ≠ 46 := by
  simp only [isPlain, Bool.not_eq_true', Bool.or_eq_false_iff, beq_eq_false_iff_ne] at hc
  intro d hd
  cases hl : o.length with
  | int =>
    rw [hl] at hd
    cases hd
    exact ⟨hc.1.1.1.1.1.1,hc.1.1.1.1.1.2,hc.1.1.1.1.2⟩
  | _ =>
    rw [hl] at hd
    cases hd
    decide

theorem precision_head : ∀ d ∈ (pointed o.precision ++ (o.length.letters ++ c :: rest)).head?,
    isFlag d = false ∧ isDecimal d = false := by
  intro d hd
  cases hp : o.precision with
  | none =>
    rw [hp] at hd
    have h := o.length_head hc rest d hd
    exact ⟨h.1,h.2.1⟩
  | some digits =>
    rw [hp] at hd
    cases hd
    decide

/-- The width starts with no zero, so the flags end in front of it. -/
theorem flags_end : ∀ d ∈ (o.width ++
    (pointed o.precision ++ (o.length.letters ++ c :: rest))).head?, isFlag d = false := by
  intro d hd
  cases hw : o.width with
  | nil =>
    rw [hw] at hd
    exact (o.precision_head hc rest d hd).1
  | cons d digits =>
    rw [hw] at hd
    cases hd
    have hdigit := o.width_all d (by simp [hw])
    have hzero : d ≠ 48 := by
      have hhead := o.width_head
      simpa [hw] using hhead
    by_contra hf
    simp only [isFlag, Bool.not_eq_false, Bool.or_eq_true, beq_iff_eq] at hf
    rcases hf with ((((rfl | rfl) | rfl) | rfl) | rfl) | rfl
    · cases hdigit
    · cases hdigit
    · cases hdigit
    · exact hzero rfl
    · cases hdigit
    · cases hdigit

theorem readPrecision_pointed :
    readPrecision (pointed o.precision ++ (o.length.letters ++ c :: rest)) =
      (o.precision.map clampedValue, o.length.letters ++ c :: rest) := by
  cases hp : o.precision with
  | none => exact readPrecision_none fun d hd => (o.length_head hc rest d hd).2.2
  | some digits =>
    have hall := o.precision_all digits hp
    have hend : ∀ d ∈ (o.length.letters ++ c :: rest).head?, isDecimal d = false :=
      fun d hd => (o.length_head hc rest d hd).2.1
    simp [pointed, readPrecision, readWidth_eq, takeWhile_append_end hall hend,
      dropWhile_append_end hall hend]

theorem readModifiers_text : readModifiers (o.text ++ c :: rest) = (o.modifiers, c :: rest) := by
  have hflags := o.flags_end hc rest
  have hwidth : ∀ d ∈ (pointed o.precision ++ (o.length.letters ++ c :: rest)).head?,
      isDecimal d = false := fun d hd => (o.precision_head hc rest d hd).2
  rw [text_append]
  simp only [readModifiers, readFlags_eq, takeWhile_append_end o.flags_all hflags,
    dropWhile_append_end o.flags_all hflags, readWidth_eq, takeWhile_append_end o.width_all hwidth,
    dropWhile_append_end o.width_all hwidth, o.readPrecision_pointed hc,
    readLength_letters o.length hc, modifiers]

end Ends

theorem text_append_inj {o o' : Preface} {c c' : UInt8} (hc : isPlain c = true)
    (hc' : isPlain c' = true) {rest rest' : Bytes} (h : o.text ++ c :: rest = o'.text ++ c' :: rest') :
    o = o' ∧ c = c' ∧ rest = rest' := by
  rw [text_append, text_append] at h
  obtain ⟨hflags,h⟩ := append_run_inj o.flags_all o'.flags_all (o.flags_end hc rest)
    (o'.flags_end hc' rest') h
  obtain ⟨hwidth,h⟩ := append_run_inj o.width_all o'.width_all
    (fun d hd => (o.precision_head hc rest d hd).2)
    (fun d hd => (o'.precision_head hc' rest' d hd).2) h
  obtain ⟨hprecision,h⟩ := pointed_append_inj o.precision_all o'.precision_all
    (fun d hd => (o.length_head hc rest d hd).2)
    (fun d hd => (o'.length_head hc' rest' d hd).2) h
  have hread := readLength_letters o.length hc rest
  rw [h, readLength_letters o'.length hc' rest'] at hread
  obtain ⟨hlength,hletter⟩ := Prod.mk.inj hread
  obtain ⟨hletter,hrest⟩ := List.cons.inj hletter
  exact ⟨Preface.ext hflags hwidth hprecision hlength.symm,hletter.symm,hrest.symm⟩

end Preface

/-! ## Directives as written -/

structure Written extends Preface where
  letter : UInt8
  conversion : Conversion
  letter_mem : letter ∈ conversion.letters.map Char.toUInt8

namespace Written

def text (w : Written) : Bytes := w.toPreface.text ++ [w.letter]

def directive (w : Written) : Directive := ⟨w.modifiers,w.conversion,w.letter⟩

theorem text_append (w : Written) (rest : Bytes) :
    w.text ++ rest = w.toPreface.text ++ w.letter :: rest := by
  simp [text]

theorem readDirective?_text (w : Written) (rest : Bytes) :
    readDirective? (w.text ++ rest) = some (w.directive, rest) := by
  have hm := w.readModifiers_text (isPlain_letter w.letter_mem) rest
  have hk := conversion?_eq_some.mpr w.letter_mem
  rw [text_append, readDirective?, hm]
  simp only [hk, Option.map_some, directive]

theorem exists_of_readDirective? {t rest : Bytes} {d : Directive}
    (h : readDirective? t = some (d, rest)) :
    ∃ w : Written, t = w.text ++ rest ∧ w.directive = d := by
  obtain ⟨o,ho,hm⟩ := Preface.exists_of_read t
  rw [readDirective?] at h
  cases hr : (readModifiers t).2 with
  | nil =>
    rw [hr] at h
    cases h
  | cons c r =>
    simp only [hr, Option.map_eq_some_iff] at h
    obtain ⟨k,hk,he⟩ := h
    cases he
    refine ⟨⟨o,c,k,conversion?_eq_some.mp hk⟩,?_,?_⟩
    · rw [text_append, ← hr]
      exact ho
    · rw [directive, hm]

theorem text_append_unique {w w' : Written} {rest rest' : Bytes}
    (h : w.text ++ rest = w'.text ++ rest') : w = w' ∧ rest = rest' := by
  rw [text_append, text_append] at h
  obtain ⟨hpreface,hletter,hrest⟩ := Preface.text_append_inj (isPlain_letter w.letter_mem)
    (isPlain_letter w'.letter_mem) h
  have hk := conversion?_eq_some.mpr w.letter_mem
  rw [hletter, conversion?_eq_some.mpr w'.letter_mem] at hk
  cases w
  cases w'
  cases hpreface
  cases hletter
  cases hk
  exact ⟨rfl,hrest⟩

end Written

/-- A directive is read off a text if and only if the text starts with it as written,
and then what is read is what its parts stand for. No text starts with two
directives. -/
theorem read_iff_written (t : Bytes) :
    (∀ d rest, readDirective? t = some (d, rest) ↔
      ∃ w : Written, t = w.text ++ rest ∧ w.directive = d) ∧
    ∀ (w w' : Written) (rest rest' : Bytes), t = w.text ++ rest → t = w'.text ++ rest' →
      w = w' ∧ rest = rest' := by
  refine ⟨fun d rest => ⟨Written.exists_of_readDirective?,?_⟩,?_⟩
  · rintro ⟨w,rfl,rfl⟩
    exact w.readDirective?_text rest
  · intro w w' rest rest' h h'
    exact Written.text_append_unique (h.symm.trans h')

theorem flagged_byte_read_as_written : ∃ w : Written,
    w.flags = [45, 48, 48] ∧ w.width = [49, 50] ∧ w.precision = some [] ∧ w.length = .char ∧
    w.letter = 88 ∧ [45, 48, 48, 49, 50, 46, 104, 104, 88, 104] = w.text ++ [104] ∧
    readDirective? [45, 48, 48, 49, 50, 46, 104, 104, 88, 104] = some (w.directive, [104]) ∧
    w.directive = ⟨⟨{ left := true, zero := true },12,some 0,.char⟩,.hex true,88⟩ ∧
    ∀ (v : Written) (rest : Bytes),
      [45, 48, 48, 49, 50, 46, 104, 104, 88, 104] = v.text ++ rest → v = w ∧ rest = [104] := by
  obtain ⟨hread,hunique⟩ := read_iff_written [45, 48, 48, 49, 50, 46, 104, 104, 88, 104]
  let o : Preface := ⟨[45, 48, 48],[49, 50],some [],.char,List.all_eq_true.mp rfl,
    List.all_eq_true.mp rfl,by decide,by simp⟩
  let w : Written := ⟨o,88,.hex true,by decide⟩
  have ht : [45, 48, 48, 49, 50, 46, 104, 104, 88, 104] = w.text ++ [104] := rfl
  exact ⟨w,rfl,rfl,rfl,rfl,rfl,ht,(hread _ _).mpr ⟨w,ht,rfl⟩,rfl,
    fun v rest hv => hunique v w rest [104] hv ht⟩

end Freestanding.Format
