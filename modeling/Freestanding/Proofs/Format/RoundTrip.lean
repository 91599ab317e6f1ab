import Freestanding.Proofs.Format.Integer

/-!
# What is printed reads back

A template that is a single directive for an integer writes the field of its
argument. Read as a numeral of 64 bits, the output is the argument cut to the
length that the directive names, whatever else the directive asks for.
-/

set_option autoImplicit false

namespace Freestanding.Format

open Numeral

/-! ## Values -/

def Argument.isInteger : Argument → Bool
  | int _ | uint _ | char _ => true
  | _ => false

def Directive.reduced? (d : Directive) (a : Argument) : Option Int :=
  match d.conversion with
  | .signed => a.signed?.map d.length.signed
  | .unsigned | .octal | .hex _ => a.unsigned?.map fun n => (d.length.unsigned n : Int)
  | _ => none

theorem Argument.values {a : Argument} (ha : a.isInteger = true) :
    (∃ i, a.signed? = some i) ∧ ∃ n, a.unsigned? = some n := by
  cases a with
  | int x => exact ⟨⟨_,rfl⟩,⟨_,rfl⟩⟩
  | uint u => exact ⟨⟨_,rfl⟩,⟨_,rfl⟩⟩
  | char c => exact ⟨⟨_,rfl⟩,⟨_,rfl⟩⟩
  | _ => cases ha

theorem reduced?_isSome {d : Directive} (hc : d.conversion.isInteger = true) {a : Argument}
    (ha : a.isInteger = true) : ∃ v, d.reduced? a = some v := by
  obtain ⟨⟨i,hi⟩,⟨n,hn⟩⟩ := Argument.values ha
  rw [Directive.reduced?, hi, hn]
  cases hk : d.conversion with
  | signed => exact ⟨_,rfl⟩
  | unsigned => exact ⟨_,rfl⟩
  | octal => exact ⟨_,rfl⟩
  | hex upper => exact ⟨_,rfl⟩
  | _ =>
    rw [hk] at hc
    cases hc

theorem signed?_bounds {a : Argument} {i : Int} (h : a.signed? = some i) :
    -9223372036854775808 ≤ i ∧ i < 9223372036854775808 := by
  cases a with
  | int x =>
    cases h
    exact ⟨x.le_toInt,x.toInt_lt⟩
  | uint u =>
    cases h
    exact ⟨u.toInt64.le_toInt,u.toInt64.toInt_lt⟩
  | char c =>
    cases h
    have := c.toNat_lt
    omega
  | _ => cases h

theorem unsigned?_bound {a : Argument} {n : Nat} (h : a.unsigned? = some n) :
    n < 18446744073709551616 := by
  cases a with
  | int x =>
    cases h
    exact x.toUInt64.toNat_lt
  | uint u =>
    cases h
    exact u.toNat_lt
  | pointer p =>
    cases h
    exact p.toNat_lt
  | char c =>
    cases h
    have := c.toNat_lt
    omega
  | _ => cases h

theorem bmod_bounds (i : Int) {n : Nat} (hn : 0 < n) (hl : n ≤ 4294967296) :
    -9223372036854775808 ≤ i.bmod n ∧ i.bmod n < 9223372036854775808 := by
  have hlow : -((n : Int) / 2) ≤ i.bmod n := Int.le_bmod hn
  have hhigh : i.bmod n < ((n : Int) + 1) / 2 := Int.bmod_lt hn
  omega

theorem Length.signed_bounds (l : Length) {i : Int} (hl : -9223372036854775808 ≤ i)
    (hu : i < 9223372036854775808) :
    -9223372036854775808 ≤ l.signed i ∧ l.signed i < 9223372036854775808 := by
  cases l with
  | int => exact bmod_bounds i (by omega) (by omega)
  | char => exact bmod_bounds i (by omega) (by omega)
  | short => exact bmod_bounds i (by omega) (by omega)
  | _ => exact ⟨hl,hu⟩

theorem Length.unsigned_le (l : Length) (n : Nat) : l.unsigned n ≤ n := by
  cases l <;> simp [Length.unsigned, Nat.mod_le]

theorem reduced?_signed {d : Directive} (hc : d.conversion = .signed) {a : Argument} {v : Int}
    (h : d.reduced? a = some v) : -9223372036854775808 ≤ v ∧ v < 9223372036854775808 := by
  simp only [Directive.reduced?, hc] at h
  obtain ⟨i,hi,rfl⟩ := Option.map_eq_some_iff.mp h
  have hb := signed?_bounds hi
  exact d.length.signed_bounds hb.1 hb.2

theorem reduced?_unsigned {d : Directive} (hc : d.conversion ≠ .signed) {a : Argument} {v : Int}
    (h : d.reduced? a = some v) : 0 ≤ v ∧ v < 18446744073709551616 := by
  have hmap : ∃ n, a.unsigned? = some n ∧ (d.length.unsigned n : Int) = v := by
    cases hk : d.conversion with
    | signed => exact absurd hk hc
    | unsigned | octal | hex _ =>
      simp only [Directive.reduced?, hk] at h
      exact Option.map_eq_some_iff.mp h
    | _ =>
      simp only [Directive.reduced?, hk] at h
      cases h
  obtain ⟨n,hn,rfl⟩ := hmap
  have hb := unsigned?_bound hn
  have hl := d.length.unsigned_le n
  omega

/-! ## Fields and templates -/

theorem field?_reduced {d : Directive} {a : Argument} {v : Int} (h : d.reduced? a = some v) :
    d.field? a = some (integerField d (v < 0) v.natAbs) := by
  cases hk : d.conversion with
  | signed =>
    simp only [Directive.reduced?, hk] at h
    obtain ⟨i,hi,rfl⟩ := Option.map_eq_some_iff.mp h
    simp only [Directive.field?, hk, hi, Option.map_some]
  | unsigned | octal | hex _ =>
    simp only [Directive.reduced?, hk] at h
    obtain ⟨n,hn,rfl⟩ := Option.map_eq_some_iff.mp h
    have hpos : ¬((d.length.unsigned n : Int) < 0) := by omega
    simp [Directive.field?, hk, hn, hpos]
  | _ =>
    simp only [Directive.reduced?, hk] at h
    cases h

theorem integerField_length (d : Directive) (negative : Bool) (m : Nat) :
    (integerField d negative m).length =
      max d.width (integerField { d with width := 0 } negative m).length := by
  rw [integerField, integerField, padded_length, padded_length]
  change max _ _ = max d.width (max 0 _)
  rw [Nat.zero_max]
  rfl

theorem pieces_directive {s rest : Bytes} {d : Directive} (hd : readDirective? s = some (d, rest)) :
    pieces (37 :: s) = .directive d :: pieces rest := by
  rw [pieces, if_pos rfl]
  split
  · rename_i d' rest' he
    rw [hd] at he
    cases he
    rfl
  · rename_i he
    rw [hd] at he
    cases he

theorem write_field {d : Directive} {a : Argument} {field : Bytes} (hm : d.requested ≤ maxField)
    (hk : d.takesArgument = true) (hf : d.field? a = some field) (index : Nat)
    (args : List Argument) : d.write index (a :: args) = .ok field := by
  simp only [Directive.write, if_neg (Nat.not_lt.mpr hm), hk, if_true, hf]

theorem format_directive {template s : Bytes} {d : Directive} {a : Argument} {field : Bytes}
    (ht : Bytes.text template = 37 :: s) (hd : readDirective? s = some (d, []))
    (hm : d.requested ≤ maxField) (hk : d.takesArgument = true) (hf : d.field? a = some field) :
    format template [a] = .ok field := by
  have hp : pieces (Bytes.text template) = [.directive d] := by
    rw [ht, pieces_directive hd, pieces]
  have hw := write_field hm hk hf 0 []
  simp [format, run, hp, writePieces, Piece.write, hw]

/-! ## Reading the output -/

theorem integerField_rest {d : Directive} (hg : d.flags.grouped = false) {m : Nat}
    (hz : d.precision = some 0 → m ≠ 0) (negative : Bool) :
    (integerField d negative m).length - trailingBlanks (integerField d negative m) =
      if d.flags.left then (integerField { d with width := 0 } negative m).length
      else (integerField d negative m).length := by
  obtain ⟨k,hk⟩ := integerDigits_eq hg hz
  have hrun : Run d.conversion.base (integerDigits d m) := hk ▸ d.conversion.numeral_run k m
  have hne : integerDigits d m ≠ [] := hk ▸ d.conversion.numeral_ne_nil k m
  have htrail : trailingBlanks (integerField d negative m) =
      if d.flags.left then d.width - (integerField { d with width := 0 } negative m).length
      else 0 := by
    have hbare : (integerField { d with width := 0 } negative m).length =
        (integerFront d negative m (integerDigits d m)).length + (integerDigits d m).length := by
      rw [integerField, padded_length]
      exact Nat.zero_max _
    rw [hbare]
    exact padded_trailingBlanks hrun hne _ _ _ _
  have hlen := integerField_length d negative m
  rw [htrail]
  split_ifs
  · omega
  · rfl

/-- Reading the output of a directive gives a value and ends at `rest`, with no
overflow: in the base of the conversion and, for octal and hexadecimal in the
alternate form, also in the base that the output itself shows. -/
structure ReadsBack (d : Directive) (v : Int) (rest : Nat) (out : Bytes) : Prop where
  signed : d.conversion = .signed → parseSigned .bits64 10 out = .ok ⟨v,rest,false⟩
  unsigned : d.conversion ≠ .signed → ∃ n : Nat, v = n ∧
    parseUnsigned .bits64 d.conversion.base out = .ok ⟨n,rest,false⟩
  detected : d.flags.alternate = true →
    d.conversion = .octal ∨ (∃ upper, d.conversion = .hex upper) → ∃ n : Nat, v = n ∧
      parseUnsigned .bits64 0 out = .ok ⟨n,rest,false⟩

theorem integerField_reads_back {d : Directive} {a : Argument} {v : Int}
    (hc : d.conversion.isInteger = true) (hg : d.flags.grouped = false)
    (hv : d.reduced? a = some v) (hz : d.precision = some 0 → v.natAbs ≠ 0) {out : Bytes}
    (ho : out = integerField d (v < 0) v.natAbs) :
    ReadsBack d v (out.length - trailingBlanks out) out := by
  have hplain : d.conversion ≠ .signed → decide (v < 0) = false := by
    intro hk
    have := reduced?_unsigned hk hv
    exact decide_eq_false (by omega)
  obtain ⟨before,o,mark,k,after,hs⟩ := integerField_shape hc hg hz hplain
  rw [← ho] at hs
  have hnat : d.conversion ≠ .signed → v = v.natAbs ∧ v.natAbs ≤ Width.bits64.unsignedBound := by
    intro hk
    have := reduced?_unsigned hk hv
    have hbound : Width.bits64.unsignedBound = 18446744073709551615 := rfl
    omega
  constructor
  · intro hk
    have hb := reduced?_signed hk hv
    have hread := hs.magnitude_own (natAbs_le_signedBound hb.1 hb.2)
    rw [hk] at hread
    exact parseSigned_eq hread
  · intro hk
    obtain ⟨heq,hle⟩ := hnat hk
    rw [hplain hk] at hs
    exact ⟨v.natAbs,heq,parseUnsigned_eq (hs.magnitude_own hle)⟩
  · intro ha hk
    have hns : d.conversion ≠ .signed := by
      rcases hk with hk | ⟨upper,hk⟩ <;> simp [hk]
    have hbase : d.conversion = .octal ∨ d.conversion.base = 16 := by
      refine hk.imp id ?_
      rintro ⟨upper,hk⟩
      rw [hk]
      rfl
    obtain ⟨heq,hle⟩ := hnat hns
    rw [hplain hns] at hs
    exact ⟨v.natAbs,heq,parseUnsigned_eq (hs.magnitude_detected ha hbase hle)⟩

/-- An integer printed by a single directive, under any flags but grouping and
with any width, precision and length, reads back as the argument cut to that
length. Reading stops at the blanks that pad the output at its end, and the
output is as long as the width or as it would be without one, whichever is
more. Zero at precision zero is left out, since it has no digits. -/
theorem printed_integer_reads_back {template s : Bytes} {d : Directive} {a : Argument}
    (ht : Bytes.text template = 37 :: s) (hd : readDirective? s = some (d, []))
    (hc : d.conversion.isInteger = true) (ha : a.isInteger = true)
    (hg : d.flags.grouped = false) (hm : d.requested ≤ maxField)
    (hz : d.precision = some 0 → d.reduced? a ≠ some 0) :
    ∃ out bare v, format template [a] = .ok out ∧ d.reduced? a = some v ∧
      { d with width := 0 }.field? a = some bare ∧
      ReadsBack d v (out.length - trailingBlanks out) out ∧
      out.length - trailingBlanks out = (if d.flags.left then bare.length else out.length) ∧
      out.length = max d.width bare.length := by
  obtain ⟨v,hv⟩ := reduced?_isSome hc ha
  have hdigits : d.precision = some 0 → v.natAbs ≠ 0 := by
    intro hp hzero
    exact hz hp (by rw [hv, Int.natAbs_eq_zero.mp hzero])
  have hk : d.takesArgument = true := by
    rw [Directive.takesArgument, bne_iff_ne]
    intro hp
    rw [hp] at hc
    cases hc
  have hbare : { d with width := 0 }.field? a = _ :=
    field?_reduced (d := { d with width := 0 }) (v := v) hv
  exact ⟨_,_,v,format_directive ht hd hm hk (field?_reduced hv),hv,hbare,
    integerField_reads_back hc hg hv hdigits rfl,integerField_rest hg hdigits _,
    integerField_length d _ _⟩

theorem printed_byte_reads_back :
    ∃ d : Directive, d.reduced? (.int (-2)) = some 254 ∧
      readDirective? [45, 35, 49, 50, 46, 52, 104, 104, 120] = some (d, []) ∧
      ∃ out bare v, format [37, 45, 35, 49, 50, 46, 52, 104, 104, 120] [.int (-2)] = .ok out ∧
        d.reduced? (.int (-2)) = some v ∧ { d with width := 0 }.field? (.int (-2)) = some bare ∧
        ReadsBack d v (out.length - trailingBlanks out) out ∧
        out.length - trailingBlanks out = (if d.flags.left then bare.length else out.length) ∧
        out.length = max d.width bare.length := by
  refine ⟨⟨⟨{ left := true, alternate := true },12,some 4,.char⟩,.hex false,120⟩,?_,?_,?_⟩
  · decide
  · decide
  · have ht : Bytes.text [37, 45, 35, 49, 50, 46, 52, 104, 104, 120] =
        37 :: [45, 35, 49, 50, 46, 52, 104, 104, 120] := by decide
    exact printed_integer_reads_back ht (by decide) rfl rfl rfl (by decide) (by decide)

end Freestanding.Format
