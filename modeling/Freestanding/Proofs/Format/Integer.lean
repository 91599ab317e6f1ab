import Freestanding.Format.Template
import Freestanding.Proofs.Numeral.Reading

/-!
# Integer fields read back

An integer field is blanks, a sign or a mark, digits with zeros in front, and
blanks. Whatever the flags, the width and the precision, reading the field as
a numeral gives the integer that was written, and stops where the blanks at
the end start.
-/

set_option autoImplicit false

namespace Freestanding.Format

open Numeral

def trailingBlanks (s : Bytes) : Nat := (s.reverse.takeWhile (· == 32)).length

/-! ## Padding -/

theorem padded_length (f : Flags) (width : Nat) (zeros : Bool) (front body : Bytes) :
    (padded f width zeros front body).length = max width (front.length + body.length) := by
  unfold padded
  split_ifs <;> simp only [List.length_append, List.length_replicate] <;> omega

theorem padded_shape (f : Flags) (width : Nat) (zeros : Bool) (front body : Bytes) :
    ∃ before inner after, padded f width zeros front body =
      List.replicate before 32 ++ (front ++
        ((List.replicate inner 48 ++ body) ++ List.replicate after 32)) := by
  unfold padded
  split_ifs
  · exact ⟨0,0,width - (front.length + body.length),by simp⟩
  · exact ⟨0,width - (front.length + body.length),0,by simp⟩
  · exact ⟨width - (front.length + body.length),0,0,by simp⟩

theorem trailingBlanks_run {base : Nat} {s : Bytes} (hs : Run base s) (hn : s ≠ [])
    (front : Bytes) (k : Nat) : trailingBlanks (front ++ (s ++ List.replicate k 32)) = k := by
  have hblank : ∀ c ∈ List.replicate k (32 : UInt8), (c == 32) = true := by
    intro c hc
    rw [List.eq_of_mem_replicate hc]
    rfl
  obtain ⟨d,r,hr⟩ := List.exists_cons_of_ne_nil (mt List.reverse_eq_nil_iff.mp hn)
  have hd : (d == 32) = false := by
    have hge := zero_le_of_digit (hs d (List.mem_reverse.mp (by simp [hr])))
    rw [beq_eq_false_iff_ne]
    rintro rfl
    exact absurd hge (by decide)
  rw [trailingBlanks, List.reverse_append, List.reverse_append, List.reverse_replicate,
    List.append_assoc, List.takeWhile_append_of_pos hblank, hr, List.cons_append,
    List.takeWhile_cons_of_neg (by simp [hd])]
  simp

theorem padded_trailingBlanks {base : Nat} {body : Bytes} (hs : Run base body) (hn : body ≠ [])
    (f : Flags) (width : Nat) (zeros : Bool) (front : Bytes) :
    trailingBlanks (padded f width zeros front body) =
      if f.left then width - (front.length + body.length) else 0 := by
  have hend : ∀ s, trailingBlanks (s ++ body) = 0 := by
    intro s
    have h := trailingBlanks_run hs hn s 0
    rwa [List.replicate_zero, List.append_nil] at h
  unfold padded
  split_ifs
  · rw [List.append_assoc]
    exact trailingBlanks_run hs hn _ _
  · exact hend _
  · exact hend _

/-! ## Digits -/

theorem Conversion.base_bounds (c : Conversion) : 2 ≤ c.base ∧ c.base ≤ 16 := by
  cases c <;> simp [Conversion.base]

def Conversion.numeral (c : Conversion) (k m : Nat) : Bytes :=
  List.replicate k 48 ++ natural c.base c.isUpper m

namespace Conversion

theorem numeral_run (c : Conversion) (k m : Nat) : Run c.base (c.numeral k m) := by
  have hb := c.base_bounds
  exact (run_zeros (by omega) k).append (run_natural hb.1 hb.2 _ _)

theorem numeral_value (c : Conversion) (k m : Nat) : valueFrom c.base 0 (c.numeral k m) = m := by
  have hb := c.base_bounds
  rw [numeral, valueFrom_zeros (by omega), valueFrom_natural hb.1 hb.2]

theorem numeral_ne_nil (c : Conversion) (k m : Nat) : c.numeral k m ≠ [] := by
  simp [numeral, natural_ne_nil]

theorem zeros_append_numeral (c : Conversion) (j k m : Nat) :
    List.replicate j 48 ++ c.numeral k m = c.numeral (j + k) m := by
  rw [numeral, numeral, ← List.append_assoc, List.replicate_append_replicate]

theorem numeral_head {c : Conversion} {k m : Nat} (h : (c.numeral k m).head? = some 48) (j : Nat) :
    (c.numeral (j + k) m).head? = some 48 := by
  rw [← zeros_append_numeral]
  cases j with
  | zero => exact h
  | succ j => rfl

end Conversion

theorem integerDigits_eq {d : Directive} (hg : d.flags.grouped = false) {m : Nat}
    (hz : d.precision = some 0 → m ≠ 0) : ∃ k, integerDigits d m = d.conversion.numeral k m := by
  have hkeep : ¬(d.precision = some 0 ∧ m = 0) := fun h => hz h.1 h.2
  simp only [integerDigits, hg, if_neg hkeep, Bool.false_eq_true, and_false, if_false]
  exact ⟨_,rfl⟩

theorem signText_shape (f : Flags) (negative : Bool) :
    ∃ k o, signText f negative = List.replicate k 32 ++ signBytes o ∧
      (o == some true) = negative := by
  unfold signText
  split_ifs with h1 h2 h3
  · exact ⟨0,some true,rfl,h1.symm⟩
  · exact ⟨0,some false,rfl,by simp [h1]⟩
  · exact ⟨1,none,rfl,by simp [h1]⟩
  · exact ⟨0,none,rfl,by simp [h1]⟩

theorem ends_no_mark (k : Nat) : ∀ c ∈ (List.replicate k (32 : UInt8)).head?,
    isMarkLetter c = false := by
  intro c hc
  rw [List.eq_of_mem_replicate (List.mem_of_mem_head? hc)]
  rfl

theorem length_sub_trailingBlanks {base : Nat} {s : Bytes} (hs : Run base s) (hn : s ≠ [])
    (before after : Nat) (front : Bytes) {out : Bytes}
    (ho : out = List.replicate before 32 ++ (front ++ (s ++ List.replicate after 32))) :
    out.length - trailingBlanks out = before + front.length + s.length := by
  have htrail : trailingBlanks out = after := by
    rw [ho, ← List.append_assoc]
    exact trailingBlanks_run hs hn _ after
  rw [htrail, ho]
  simp only [List.length_append, List.length_replicate]
  omega

/-! ## The shape of a field -/

/-- The parts of an integer field: blanks, a sign, a mark of base sixteen, the
number behind zeros, and blanks. In the alternate form an octal number starts
with a zero and only zero goes without the mark of base sixteen. -/
structure Shape (d : Directive) (negative : Bool) (m : Nat) (out : Bytes)
    (before : Nat) (o : Option Bool) (mark : Bytes) (k after : Nat) : Prop where
  parts : out = List.replicate before 32 ++ (signBytes o ++ (mark ++
    (d.conversion.numeral k m ++ List.replicate after 32)))
  sign : (o == some true) = negative
  marked : mark = [] ∨ d.conversion.base = 16 ∧ ∃ x, mark = [48, x] ∧ isMarkLetter x = true
  octal : d.flags.alternate = true → d.conversion = .octal →
    (d.conversion.numeral k m).head? = some 48
  unmarked : d.flags.alternate = true → d.conversion.base = 16 → mark = [] → m = 0

theorem Shape.rest {d : Directive} {negative : Bool} {m : Nat} {out : Bytes} {before : Nat}
    {o : Option Bool} {mark : Bytes} {k after : Nat}
    (h : Shape d negative m out before o mark k after) :
    out.length - trailingBlanks out =
      before + (signBytes o).length + mark.length + (d.conversion.numeral k m).length := by
  have hparts := h.parts
  rw [← List.append_assoc (signBytes o)] at hparts
  rw [length_sub_trailingBlanks (d.conversion.numeral_run k m) (d.conversion.numeral_ne_nil k m)
    before after _ hparts, List.length_append]
  omega

section

variable {d : Directive} {m k before inner after : Nat} {out : Bytes}

theorem signed_shape (hc : d.conversion = .signed) {negative : Bool}
    (hp : out = List.replicate before 32 ++ (signText d.flags negative ++
      (d.conversion.numeral k m ++ List.replicate after 32))) :
    ∃ before o, Shape d negative m out before o [] k after := by
  obtain ⟨j,o,hj,ho⟩ := signText_shape d.flags negative
  refine ⟨before + j,o,?_,ho,Or.inl rfl,by simp [hc],by simp [hc, Conversion.base]⟩
  rw [hp, hj, ← List.replicate_append_replicate]
  simp only [List.append_assoc, List.nil_append]

theorem unsigned_shape (hc : d.conversion ≠ .octal) (hb : d.conversion.base = 10)
    (hp : out = List.replicate before 32 ++
      (d.conversion.numeral k m ++ List.replicate after 32)) :
    Shape d false m out before none [] k after :=
  ⟨hp,rfl,Or.inl rfl,fun _ h => absurd h hc,fun _ h => by omega⟩

theorem octal_shape (hc : d.conversion = .octal)
    (hp : out = List.replicate before 32 ++
      ((if d.flags.alternate = true ∧ (d.conversion.numeral k m).head? ≠ some 48 then [48] else []) ++
        (d.conversion.numeral (inner + k) m ++ List.replicate after 32))) :
    ∃ k, Shape d false m out before none [] k after := by
  by_cases h : d.flags.alternate = true ∧ (d.conversion.numeral k m).head? ≠ some 48
  · rw [if_pos h] at hp
    refine ⟨1 + (inner + k),?_,rfl,Or.inl rfl,fun _ _ => ?_,by simp [hc, Conversion.base]⟩
    · rw [hp, ← Conversion.zeros_append_numeral _ 1]
      rfl
    · rw [← Conversion.zeros_append_numeral]
      rfl
  · rw [if_neg h] at hp
    refine ⟨inner + k,hp,rfl,Or.inl rfl,fun ha _ => ?_,by simp [hc, Conversion.base]⟩
    have hhead : (d.conversion.numeral k m).head? = some 48 := by
      by_contra hne
      exact h ⟨ha,hne⟩
    exact Conversion.numeral_head hhead inner

theorem hex_shape {upper : Bool} (hc : d.conversion = .hex upper)
    (hp : out = List.replicate before 32 ++
      ((if d.flags.alternate = true ∧ m ≠ 0 then [48, if upper then 88 else 120] else []) ++
        (d.conversion.numeral k m ++ List.replicate after 32))) :
    ∃ mark, Shape d false m out before none mark k after := by
  by_cases h : d.flags.alternate = true ∧ m ≠ 0
  · have hletter : isMarkLetter (if upper then 88 else 120) = true := by
      cases upper <;> rfl
    rw [if_pos h] at hp
    exact ⟨_,hp,rfl,Or.inr ⟨by rw [hc]; rfl,_,rfl,hletter⟩,by simp [hc],by simp⟩
  · rw [if_neg h] at hp
    refine ⟨[],hp,rfl,Or.inl rfl,by simp [hc],fun ha _ _ => ?_⟩
    by_contra hm
    exact h ⟨ha,hm⟩

end

def Conversion.isInteger : Conversion → Bool
  | signed | unsigned | octal | hex _ => true
  | _ => false

theorem integerField_shape {d : Directive} (hi : d.conversion.isInteger = true)
    (hg : d.flags.grouped = false) {m : Nat} (hz : d.precision = some 0 → m ≠ 0) {negative : Bool}
    (hn : d.conversion ≠ .signed → negative = false) :
    ∃ before o mark k after,
      Shape d negative m (integerField d negative m) before o mark k after := by
  obtain ⟨before,inner,after,hp⟩ := padded_shape d.flags d.width
    (d.flags.zero && d.precision.isNone) (integerFront d negative m (integerDigits d m))
    (integerDigits d m)
  obtain ⟨k,hk⟩ := integerDigits_eq hg hz
  rw [← integerField, hk, Conversion.zeros_append_numeral] at hp
  cases hc : d.conversion with
  | signed =>
    simp only [integerFront, hc] at hp
    rw [← hc] at hp
    obtain ⟨before,o,hs⟩ := signed_shape hc hp
    exact ⟨before,o,[],_,after,hs⟩
  | unsigned =>
    rw [hn (by simp [hc])] at hp ⊢
    simp only [integerFront, hc] at hp
    rw [← hc] at hp
    exact ⟨before,none,[],_,after,unsigned_shape (by simp [hc]) (by rw [hc]; rfl) hp⟩
  | octal =>
    rw [hn (by simp [hc])] at hp ⊢
    simp only [integerFront, hc] at hp
    rw [← hc] at hp
    obtain ⟨k,hs⟩ := octal_shape hc hp
    exact ⟨before,none,[],k,after,hs⟩
  | hex upper =>
    rw [hn (by simp [hc])] at hp ⊢
    simp only [integerFront, hc] at hp
    rw [← hc] at hp
    obtain ⟨mark,hs⟩ := hex_shape hc hp
    exact ⟨before,none,mark,_,after,hs⟩
  | _ =>
    rw [hc] at hi
    cases hi

/-! ## Reading a field -/

namespace Shape

variable {d : Directive} {negative : Bool} {m : Nat} {out : Bytes} {before : Nat}
  {o : Option Bool} {mark : Bytes} {k after : Nat} {bound : Bool → Nat}

theorem magnitude_marked (h : Shape d negative m out before o mark k after)
    (hb : d.conversion.base = 16) {x : UInt8} (hm : mark = [48, x])
    (hx : isMarkLetter x = true) (hv : m ≤ bound negative) {base : Nat}
    (hbase : base = 0 ∨ base = 16) :
    magnitude base bound out = .ok ⟨negative,m,out.length - trailingBlanks out,false⟩ := by
  have hrun := d.conversion.numeral_run k m
  have hval := d.conversion.numeral_value k m
  rw [hb] at hrun hval
  rw [h.rest, h.parts, hm, ← h.sign]
  rw [← h.sign, ← hval] at hv
  have hread := Numeral.magnitude_marked (k := before) hbase hx hrun
    (d.conversion.numeral_ne_nil k m) (ends_blanks 16 after) hv
  rw [hval] at hread
  exact hread

theorem magnitude_own (h : Shape d negative m out before o mark k after)
    (hv : m ≤ bound negative) : magnitude d.conversion.base bound out =
      .ok ⟨negative,m,out.length - trailingBlanks out,false⟩ := by
  rcases h.marked with hm | ⟨hb,x,hm,hx⟩
  · have hrun := d.conversion.numeral_run k m
    have hval := d.conversion.numeral_value k m
    have hne := d.conversion.numeral_ne_nil k m
    have hbounds := d.conversion.base_bounds
    have hno : d.conversion.base = 16 →
        marksSixteen (d.conversion.numeral k m ++ List.replicate after 32) = false :=
      fun _ => marksSixteen_run (hrun.mono hbounds.2) hne (ends_no_mark after)
    rw [h.rest, h.parts, hm, ← h.sign]
    rw [← h.sign, ← hval] at hv
    have hread := magnitude_plain (k := before) hbounds.1 (by omega) hrun hne
      (ends_blanks _ after) hno hv
    rw [hval] at hread
    exact hread
  · rw [hb]
    exact h.magnitude_marked hb hm hx hv (Or.inr rfl)

theorem magnitude_octal (h : Shape d negative m out before o [] k after) (hr : Run 8 (d.conversion.numeral k m))
    (hval : valueFrom 8 0 (d.conversion.numeral k m) = m)
    (hz : (d.conversion.numeral k m).head? = some 48) (hv : m ≤ bound negative) :
    magnitude 0 bound out = .ok ⟨negative,m,out.length - trailingBlanks out,false⟩ := by
  rw [h.rest, h.parts, ← h.sign]
  rw [← h.sign, ← hval] at hv
  have hread := Numeral.magnitude_octal (k := before) hr hz (ends_blanks 8 after)
    (ends_no_mark after) hv
  rw [hval] at hread
  exact hread

/-- In the alternate form the base is read off the field: sixteen from its mark
and eight from the zero in front. Zero in base sixteen has no mark and is read
as an octal zero. -/
theorem magnitude_detected (h : Shape d negative m out before o mark k after)
    (ha : d.flags.alternate = true)
    (hc : d.conversion = .octal ∨ d.conversion.base = 16) (hv : m ≤ bound negative) :
    magnitude 0 bound out = .ok ⟨negative,m,out.length - trailingBlanks out,false⟩ := by
  rcases h.marked with rfl | ⟨hb,x,hm,hx⟩
  · rcases hc with hc | hb
    · have hrun := d.conversion.numeral_run k m
      have hval := d.conversion.numeral_value k m
      have hbase : d.conversion.base = 8 := by rw [hc]; rfl
      rw [hbase] at hrun hval
      exact h.magnitude_octal hrun hval (h.octal ha hc) hv
    · obtain rfl := h.unmarked ha hb rfl
      have hzero : d.conversion.numeral k 0 = List.replicate (k + 1) 48 := by
        rw [Conversion.numeral, natural_zero, List.replicate_succ']
      apply h.magnitude_octal _ _ _ hv
      · rw [hzero]
        exact run_zeros (by omega) _
      · rw [hzero, ← List.append_nil (List.replicate _ _), valueFrom_zeros (by omega)]
        rfl
      · rw [hzero]
        rfl
  · exact h.magnitude_marked hb hm hx hv (Or.inl rfl)

end Shape

end Freestanding.Format
