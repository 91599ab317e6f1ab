import Freestanding.Proofs.Format.RoundTrip

/-!
# Templates one after the other

What is read of a directive does not depend on what follows its letter. So a
template that does not break off inside a directive can be followed by any
other: the pieces of the two are the pieces of both, and formatting goes on
where it stopped, with the arguments that are left.
-/

set_option autoImplicit false

namespace Freestanding.Format

/-! ## Reading on -/

/-- A reading that stopped at a byte is not changed by more bytes. One that used
up all bytes may go on, but not into a NUL. -/
def Stops (rest more : Bytes) : Prop := rest ≠ [] ∨ ∃ s, more = 0 :: s

theorem Stops.earlier {rest rest' more : Bytes} (h : Stops rest' more)
    (he : rest = [] → rest' = []) : Stops rest more :=
  h.imp (fun hne hnil => hne (he hnil)) id

theorem readFlagsFrom_append (f : Flags) {s t : Bytes} (h : Stops (readFlagsFrom f s).2 t) :
    readFlagsFrom f (s ++ t) = ((readFlagsFrom f s).1, (readFlagsFrom f s).2 ++ t) := by
  induction s generalizing f with
  | nil =>
    obtain ⟨r,rfl⟩ := h.resolve_left (fun hn => hn rfl)
    rfl
  | cons c s ih =>
    simp only [List.cons_append, readFlagsFrom] at h ⊢
    cases hf : f.insert? c with
    | some g =>
      simp only [hf] at h
      exact ih g h
    | none => rfl

theorem readNumberFrom_append (v : Nat) {s t : Bytes} (h : Stops (readNumberFrom v s).2 t) :
    readNumberFrom v (s ++ t) = ((readNumberFrom v s).1, (readNumberFrom v s).2 ++ t) := by
  induction s generalizing v with
  | nil =>
    obtain ⟨r,rfl⟩ := h.resolve_left (fun hn => hn rfl)
    rfl
  | cons c s ih =>
    simp only [List.cons_append, readNumberFrom] at h ⊢
    by_cases hc : Numeral.isDecimal c = true
    · simp only [if_pos hc] at h ⊢
      exact ih _ h
    · simp only [if_neg hc, List.cons_append]

theorem readPrecision_append {s t : Bytes} (h : Stops (readPrecision s).2 t) :
    readPrecision (s ++ t) = ((readPrecision s).1, (readPrecision s).2 ++ t) := by
  cases s with
  | nil =>
    obtain ⟨r,rfl⟩ := h.resolve_left (fun hn => hn rfl)
    rfl
  | cons c s =>
    by_cases hc : c = 46
    · subst hc
      have hs : readWidth (s ++ t) = _ := readNumberFrom_append 0 h
      simp only [List.cons_append, readPrecision, hs]
      rfl
    · simp [readPrecision, hc]

theorem readLength_append {s t : Bytes} (h : Stops (readLength s).2 t) :
    readLength (s ++ t) = ((readLength s).1, (readLength s).2 ++ t) := by
  rw [readLength.eq_def s] at h ⊢
  split at h
  · rfl
  · rename_i u hu
    cases u with
    | nil =>
      obtain ⟨r,rfl⟩ := h.resolve_left (fun hn => hn rfl)
      rfl
    | cons c u =>
      have hc : c ≠ 104 := fun hc => hu u (by rw [hc])
      simp [readLength, hc]
  · rfl
  · rename_i u hu
    cases u with
    | nil =>
      obtain ⟨r,rfl⟩ := h.resolve_left (fun hn => hn rfl)
      rfl
    | cons c u =>
      have hc : c ≠ 108 := fun hc => hu u (by rw [hc])
      simp [readLength, hc]
  · rfl
  · rfl
  · rename_i hhh hh hll hl hz ht
    cases s with
    | nil =>
      obtain ⟨r,rfl⟩ := h.resolve_left (fun hn => hn rfl)
      rfl
    | cons c s =>
      have h1 : c ≠ 104 := fun hc => hh s (by rw [hc])
      have h2 : c ≠ 108 := fun hc => hl s (by rw [hc])
      have h3 : c ≠ 122 := fun hc => hz s (by rw [hc])
      have h4 : c ≠ 116 := fun hc => ht s (by rw [hc])
      simp [readLength, h1, h2, h3, h4]

theorem readModifiers_append {s t : Bytes} (h : Stops (readModifiers s).2 t) :
    readModifiers (s ++ t) = ((readModifiers s).1, (readModifiers s).2 ++ t) := by
  have hp : Stops (readPrecision (readWidth (readFlags s).2).2).2 t :=
    h.earlier fun hn => by simp only [readModifiers, hn]; rfl
  have hw : Stops (readWidth (readFlags s).2).2 t := hp.earlier fun hn => by rw [hn]; rfl
  have hf : Stops (readFlags s).2 t := hw.earlier fun hn => by rw [hn]; rfl
  have hflags : readFlags (s ++ t) = ((readFlags s).1, (readFlags s).2 ++ t) :=
    readFlagsFrom_append {} hf
  have hwidth : readWidth ((readFlags s).2 ++ t) =
      ((readWidth (readFlags s).2).1, (readWidth (readFlags s).2).2 ++ t) :=
    readNumberFrom_append 0 hw
  have hlength : Stops (readLength (readPrecision (readWidth (readFlags s).2).2).2).2 t := h
  simp only [readModifiers, hflags, hwidth, readPrecision_append hp, readLength_append hlength]

theorem readDirective?_append {s t : Bytes} (h : Stops (readModifiers s).2 t) :
    readDirective? (s ++ t) = (readDirective? s).map fun p => (p.1, p.2 ++ t) := by
  rw [readDirective?, readDirective?, readModifiers_append h]
  cases hm : (readModifiers s).2 with
  | nil =>
    rw [hm] at h
    obtain ⟨r,rfl⟩ := h.resolve_left (fun hn => hn rfl)
    rfl
  | cons c rest =>
    simp only [List.cons_append, Option.map_map]
    rfl

theorem readDirective?_none {s : Bytes} (h : (readModifiers s).2 = []) :
    readDirective? s = none := by
  rw [readDirective?, h]

theorem readDirective?_modifiers {s rest : Bytes} {d : Directive}
    (h : readDirective? s = some (d, rest)) : (readModifiers s).2 ≠ [] := by
  intro hn
  rw [readDirective?_none hn] at h
  cases h

/-! ## Pieces of both -/

theorem pieces_literal {c : UInt8} (hc : c ≠ 37) (s : Bytes) :
    pieces (c :: s) = .literal c :: pieces s := by
  rw [pieces, if_neg hc]

theorem pieces_verbatim {s : Bytes} (hd : readDirective? s = none) :
    pieces (37 :: s) =
      .verbatim (37 :: s.take (verbatimLength s)) :: pieces (s.drop (verbatimLength s)) := by
  rw [pieces, if_pos rfl]
  split
  · rename_i he
    rw [hd] at he
    cases he
  · rfl

inductive Complete : Bytes → Prop
  | nil : Complete []
  | literal {c : UInt8} {s : Bytes} (hc : c ≠ 37) (hs : Complete s) : Complete (c :: s)
  | directive {s rest : Bytes} {d : Directive} (hd : readDirective? s = some (d, rest))
      (hs : Complete rest) : Complete (37 :: s)
  | verbatim {s : Bytes} (hd : readDirective? s = none) (hm : (readModifiers s).2 ≠ [])
      (hs : Complete (s.drop (verbatimLength s))) : Complete (37 :: s)

theorem verbatimLength_append {s : Bytes} (hm : (readModifiers s).2 ≠ []) (t : Bytes) :
    verbatimLength (s ++ t) = verbatimLength s ∧ verbatimLength s ≤ s.length := by
  have hlen := readModifiers_length s
  have hpos := List.length_pos_iff.mpr hm
  simp only [verbatimLength, readModifiers_append (Or.inl hm), List.length_append]
  omega

theorem verbatimLength_used_up {s : Bytes} (hm : (readModifiers s).2 = []) :
    verbatimLength s = s.length := by
  simp only [verbatimLength, hm, List.length_nil]
  omega

theorem pieces_append {s : Bytes} (h : Complete s) (t : Bytes) :
    pieces (s ++ t) = pieces s ++ pieces t := by
  induction h with
  | nil => rw [pieces, List.nil_append, List.nil_append]
  | literal hc _ ih => rw [List.cons_append, pieces_literal hc, pieces_literal hc, ih]; rfl
  | @directive s rest d hd _ ih =>
    have ha := readDirective?_append (t := t) (Or.inl (readDirective?_modifiers hd))
    rw [hd] at ha
    rw [List.cons_append, pieces_directive ha, pieces_directive hd, ih]
    rfl
  | @verbatim s hd hm _ ih =>
    have ha := readDirective?_append (t := t) (Or.inl hm)
    rw [hd] at ha
    obtain ⟨hv,hle⟩ := verbatimLength_append hm t
    rw [List.cons_append, pieces_verbatim ha, pieces_verbatim hd, hv,
      List.take_append_of_le_length hle, List.drop_append_of_le_length hle, ih]
    rfl

/-! ## Writing on -/

def argumentCount : List Piece → Nat
  | [] => 0
  | p :: ps => p.taken + argumentCount ps

def FormatError.shift (k : Nat) : FormatError → FormatError
  | missingArgument index letter => missingArgument (index + k) letter
  | argumentMismatch index letter found => argumentMismatch (index + k) letter found
  | fieldTooWide letter requested => fieldTooWide letter requested

theorem Piece.write_shift (p : Piece) (index k : Nat) (args : List Argument) :
    p.write (index + k) args = (p.write index args).mapError (FormatError.shift k) := by
  cases p with
  | literal c => rfl
  | verbatim s => rfl
  | directive d =>
    simp only [Piece.write, Directive.write]
    split_ifs
    · rfl
    · cases args with
      | nil => rfl
      | cons a args =>
        cases hf : d.field? a with
        | none => simp only [hf, Except.mapError, FormatError.shift]
        | some field => simp only [hf, Except.mapError]
    · rfl

theorem writePieces_shift (ps : List Piece) (index k : Nat) (args : List Argument) :
    writePieces (index + k) args ps =
      ⟨(writePieces index args ps).written,
        (writePieces index args ps).error.map (FormatError.shift k)⟩ := by
  induction ps generalizing index args with
  | nil => rfl
  | cons p ps ih =>
    rw [writePieces, writePieces, p.write_shift]
    cases hw : p.write index args with
    | error e => rfl
    | ok s =>
      have hi : index + k + p.taken = index + p.taken + k := by omega
      simp only [Except.mapError, hi, ih]

theorem Piece.write_append {p : Piece} {index : Nat} {args : List Argument} {s : Bytes}
    (h : p.write index args = .ok s) (more : List Argument) :
    p.write index (args ++ more) = .ok s := by
  cases p with
  | literal c => exact h
  | verbatim s => exact h
  | directive d =>
    cases args with
    | cons a args => exact h
    | nil =>
      simp only [Piece.write, Directive.write] at h ⊢
      split_ifs at h ⊢
      · exact h

theorem writePieces_append {ps : List Piece} {index : Nat} {args : List Argument}
    (he : (writePieces index args ps).error = none) (hn : argumentCount ps = args.length)
    (qs : List Piece) (more : List Argument) :
    writePieces index (args ++ more) (ps ++ qs) =
      ⟨(writePieces index args ps).written ++ (writePieces (index + args.length) more qs).written,
        (writePieces (index + args.length) more qs).error⟩ := by
  induction ps generalizing index args with
  | nil =>
    obtain rfl : args = [] := List.length_eq_zero_iff.mp hn.symm
    rfl
  | cons p ps ih =>
    rw [writePieces] at he ⊢
    rw [argumentCount] at hn
    cases hw : p.write index args with
    | error e => simp [hw] at he
    | ok s =>
      simp only [hw] at he ⊢
      have hdrop : (args ++ more).drop p.taken = args.drop p.taken ++ more :=
        List.drop_append_of_le_length (by omega)
      have hleft : argumentCount ps = (args.drop p.taken).length := by
        rw [List.length_drop]
        omega
      have hindex : index + p.taken + (args.drop p.taken).length = index + args.length := by
        omega
      have hrest := ih he hleft
      rw [hindex] at hrest
      rw [List.cons_append, writePieces, Piece.write_append hw]
      simp only [hdrop, hrest, List.append_assoc]

/-! ## Formatting by both -/

/-- A template free of NUL that does not end inside a directive. -/
structure Closed (template : Bytes) : Prop where
  nul_free : 0 ∉ template
  complete : Complete template

theorem run_append {s : Bytes} {args : List Argument} {out : Bytes} (hc : Closed s)
    (hf : format s args = .ok out) (ha : argumentCount (pieces s) = args.length)
    (t : Bytes) (more : List Argument) :
    run (s ++ t) (args ++ more) =
      ⟨out ++ (run t more).written, (run t more).error.map (FormatError.shift args.length)⟩ := by
  have hnul : ∀ c ∈ s, c ≠ 0 := fun c hmem hz => hc.nul_free (hz ▸ hmem)
  have hrun : (run s args).error = none ∧ (run s args).written = out := by
    rw [format] at hf
    cases he : (run s args).error with
    | some e => simp [he] at hf
    | none =>
      simp only [he] at hf
      exact ⟨rfl,Except.ok.inj hf⟩
  rw [run, Bytes.text_eq_self hnul] at hrun
  rw [run, Bytes.text_append hnul, pieces_append hc.complete,
    writePieces_append hrun.1 ha, hrun.2, writePieces_shift]
  rfl

/-- A closed template that uses up its arguments can be followed by any other.
The outputs follow one another, up to the error of the second template if it
has one; the arguments it names are counted on from those of the first. -/
theorem format_follows {s : Bytes} {args : List Argument} {out : Bytes} (hc : Closed s)
    (hf : format s args = .ok out) (ha : argumentCount (pieces s) = args.length)
    (t : Bytes) (more : List Argument) :
    run (s ++ t) (args ++ more) =
      ⟨out ++ (run t more).written, (run t more).error.map (FormatError.shift args.length)⟩ ∧
    (∀ rest, format t more = .ok rest → ∃ whole, format (s ++ t) (args ++ more) = .ok whole ∧
      whole = out ++ rest ∧ whole.length = out.length + rest.length) ∧
    ∀ e, format t more = .error e →
      format (s ++ t) (args ++ more) = .error (e.shift args.length) := by
  have hrun := run_append hc hf ha t more
  refine ⟨hrun,fun rest hr => ?_,fun e he => ?_⟩
  · refine ⟨out ++ rest,?_,rfl,List.length_append⟩
    rw [format] at hr ⊢
    rw [hrun]
    cases ht : (run t more).error with
    | some e => simp [ht] at hr
    | none =>
      simp only [ht] at hr
      simp only [Option.map_none, Except.ok.inj hr]
  · rw [format] at he ⊢
    rw [hrun]
    cases ht : (run t more).error with
    | none => simp [ht] at he
    | some e' =>
      simp only [ht] at he
      simp only [Option.map_some, Except.error.inj he]

theorem number_then_text_follows :
    Closed [97, 37, 53, 100, 37, 107] ∧
    format [97, 37, 53, 100, 37, 107] [.int 42] = .ok [97, 32, 32, 32, 52, 50, 37, 107] ∧
    format [37, 115] [.int 7] = .error (.argumentMismatch 0 115 "integer") ∧
    run ([97, 37, 53, 100, 37, 107] ++ [37, 115]) ([.int 42] ++ [.int 7]) =
      ⟨[97, 32, 32, 32, 52, 50, 37, 107], some (.argumentMismatch 1 115 "integer")⟩ ∧
    format ([97, 37, 53, 100, 37, 107] ++ [37, 115]) ([.int 42] ++ [.int 7]) =
      .error (.argumentMismatch 1 115 "integer") := by
  have hd : readDirective? [53, 100, 37, 107] =
      some (⟨⟨{},5,none,.int⟩,.signed,100⟩,[37, 107]) := rfl
  have hk : Complete [37, 107] := .verbatim rfl (by decide) .nil
  have hc : Closed [97, 37, 53, 100, 37, 107] :=
    ⟨by decide,.literal (by decide) (.directive hd hk)⟩
  have hf : format [97, 37, 53, 100, 37, 107] [.int 42] =
      .ok [97, 32, 32, 32, 52, 50, 37, 107] := by decide +kernel
  have he : format [37, 115] [.int 7] = .error (.argumentMismatch 0 115 "integer") := by
    decide +kernel
  have hr : run [37, 115] [.int 7] = ⟨[], some (.argumentMismatch 0 115 "integer")⟩ := by
    decide +kernel
  have h := format_follows hc hf (by decide +kernel) [37, 115] [.int 7]
  rw [hr] at h
  exact ⟨hc,hf,he,h.1,h.2.2 _ he⟩

end Freestanding.Format
