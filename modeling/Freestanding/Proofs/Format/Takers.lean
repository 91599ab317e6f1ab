import Freestanding.Proofs.Format.Append

/-!
# Directives and the arguments they take

The directives that take arguments can be listed without formatting. Listing
goes on behind the percent sign where nothing was read as a directive, and
formatting behind all that stands for itself. Both meet the same directives,
since no percent sign stands in between. A list of arguments that suit these
directives one by one is never turned down, and if it is too short, the first
argument that is missing is the one that is reported. Whether formatting fails
is decided by the kinds of the arguments alone.
-/

set_option autoImplicit false

namespace Freestanding.Format

/-! ## Bytes that are passed over -/

def Passes (s rest : Bytes) : Prop := ∃ m, s = m ++ rest ∧ 37 ∉ m

theorem Passes.refl (s : Bytes) : Passes s s := ⟨[],rfl,by simp⟩

theorem Passes.trans {s t u : Bytes} (h : Passes s t) (h' : Passes t u) : Passes s u := by
  obtain ⟨m,rfl,hm⟩ := h
  obtain ⟨n,rfl,hn⟩ := h'
  exact ⟨m ++ n,by simp,by simp [hm, hn]⟩

theorem Passes.cons {c : UInt8} {s t : Bytes} (hc : c ≠ 37) (h : Passes s t) :
    Passes (c :: s) t := by
  obtain ⟨m,rfl,hm⟩ := h
  exact ⟨c :: m,rfl,by simp [hm, hc.symm]⟩

theorem readFlagsFrom_passes (f : Flags) (s : Bytes) : Passes s (readFlagsFrom f s).2 := by
  induction s generalizing f with
  | nil => exact .refl []
  | cons c s ih =>
    rw [readFlagsFrom]
    cases hf : f.insert? c with
    | none => exact .refl _
    | some g =>
      refine .cons (fun hc => ?_) (ih g)
      rw [hc] at hf
      cases hf

theorem readNumberFrom_passes (v : Nat) (s : Bytes) : Passes s (readNumberFrom v s).2 := by
  induction s generalizing v with
  | nil => exact .refl []
  | cons c s ih =>
    rw [readNumberFrom]
    by_cases hc : Numeral.isDecimal c = true
    · rw [if_pos hc]
      refine .cons (fun he => ?_) (ih _)
      rw [he] at hc
      cases hc
    · rw [if_neg hc]
      exact .refl _

theorem readPrecision_passes (s : Bytes) : Passes s (readPrecision s).2 := by
  rw [readPrecision.eq_def]
  split
  · exact .cons (by decide) (readNumberFrom_passes 0 _)
  · exact .refl s

theorem readLength_passes (s : Bytes) : Passes s (readLength s).2 := by
  rw [readLength.eq_def]
  split
  · exact .cons (by decide) (.cons (by decide) (.refl _))
  · exact .cons (by decide) (.refl _)
  · exact .cons (by decide) (.cons (by decide) (.refl _))
  · exact .cons (by decide) (.refl _)
  · exact .cons (by decide) (.refl _)
  · exact .cons (by decide) (.refl _)
  · exact .refl s

theorem readModifiers_passes (s : Bytes) : Passes s (readModifiers s).2 :=
  (readFlagsFrom_passes {} s).trans <| (readNumberFrom_passes 0 _).trans <|
    (readPrecision_passes _).trans (readLength_passes _)

theorem verbatim_passes {s : Bytes} (hd : readDirective? s = none) :
    Passes s (s.drop (verbatimLength s)) := by
  obtain ⟨m,hs,hm⟩ := readModifiers_passes s
  cases hr : (readModifiers s).2 with
  | nil =>
    rw [hr, List.append_nil] at hs
    rw [verbatimLength_used_up hr, List.drop_length]
    exact ⟨s,by simp,hs ▸ hm⟩
  | cons c rest =>
    rw [hr] at hs
    have hc : c ≠ 37 := by
      intro hc
      rw [readDirective?, hr, hc] at hd
      cases hd
    have hlen : verbatimLength s = (m ++ [c]).length := by
      have hl := congrArg List.length hs
      simp only [List.length_append, List.length_cons, List.length_nil] at hl ⊢
      simp only [verbatimLength, hr, List.length_cons]
      omega
    have hcut : s = (m ++ [c]) ++ rest := by simpa using hs
    refine ⟨m ++ [c],?_,by simp [hm, hc.symm]⟩
    rw [hlen]
    nth_rewrite 2 [hcut]
    rw [List.drop_left, ← hcut]

/-! ## The two walks -/

def Piece.taker? : Piece → Option Directive
  | directive d => if d.takesArgument then some d else none
  | _ => none

def takers (ps : List Piece) : List Directive := ps.filterMap Piece.taker?

theorem argumentDirectives_literal {c : UInt8} (hc : c ≠ 37) (s : Bytes) :
    argumentDirectives (c :: s) = argumentDirectives s := by
  rw [argumentDirectives, if_neg hc]

theorem argumentDirectives_directive {s rest : Bytes} {d : Directive}
    (hd : readDirective? s = some (d, rest)) : argumentDirectives (37 :: s) =
      (Piece.directive d).taker?.toList ++ argumentDirectives rest := by
  rw [argumentDirectives, if_pos rfl, Piece.taker?]
  split
  · rename_i d' rest' he
    rw [hd] at he
    cases he
    split_ifs <;> rfl
  · rename_i he
    rw [hd] at he
    cases he

theorem argumentDirectives_none {s : Bytes} (hd : readDirective? s = none) :
    argumentDirectives (37 :: s) = argumentDirectives s := by
  rw [argumentDirectives, if_pos rfl]
  split
  · rename_i he
    rw [hd] at he
    cases he
  · rfl

theorem argumentDirectives_passes {s rest : Bytes} (h : Passes s rest) :
    argumentDirectives s = argumentDirectives rest := by
  obtain ⟨m,rfl,hm⟩ := h
  induction m with
  | nil => rfl
  | cons c m ih =>
    have hc : c ≠ 37 := fun hc => hm (by simp [hc])
    rw [List.cons_append, argumentDirectives_literal hc]
    exact ih fun h => hm (List.mem_cons_of_mem c h)

/-- Formatting and listing meet the same directives. -/
theorem takers_pieces (s : Bytes) : takers (pieces s) = argumentDirectives s := by
  fun_induction pieces s with
  | case1 => rw [argumentDirectives]; rfl
  | case2 s d rest hd ih =>
    rw [argumentDirectives_directive hd, ← ih, takers, List.filterMap_cons]
    cases (Piece.directive d).taker? <;> rfl
  | case3 s hd ih =>
    rw [argumentDirectives_none hd, argumentDirectives_passes (verbatim_passes hd), ← ih]
    rfl
  | case4 c s hc ih =>
    rw [argumentDirectives_literal hc, ← ih]
    rfl

theorem argumentDirectives_nul (s t : Bytes) :
    argumentDirectives (s ++ 0 :: t) = argumentDirectives s ++ argumentDirectives t := by
  have hstop : ∀ u, readDirective? (u ++ 0 :: t) =
      (readDirective? u).map fun p => (p.1, p.2 ++ 0 :: t) :=
    fun u => readDirective?_append (Or.inr ⟨t,rfl⟩)
  fun_induction argumentDirectives s with
  | case1 => exact argumentDirectives_literal (by decide) t
  | case2 s d rest hd hk ih =>
    have ha := hstop s
    rw [hd] at ha
    rw [List.cons_append, argumentDirectives_directive ha, ih, Piece.taker?, if_pos hk]
    rfl
  | case3 s d rest hd hk ih =>
    have ha := hstop s
    rw [hd] at ha
    rw [List.cons_append, argumentDirectives_directive ha, ih, Piece.taker?, if_neg hk]
    rfl
  | case4 s hd ih =>
    have ha := hstop s
    rw [hd] at ha
    rw [List.cons_append, argumentDirectives_none ha, ih]
  | case5 c s hc ih => rw [List.cons_append, argumentDirectives_literal hc, ih]

theorem argumentDirectives_text (s : Bytes) :
    ∃ more, argumentDirectives s = argumentDirectives (Bytes.text s) ++ more := by
  have hsplit : Bytes.text s ++ s.dropWhile (· != 0) = s := List.takeWhile_append_dropWhile
  cases hr : s.dropWhile (· != 0) with
  | nil =>
    rw [hr, List.append_nil] at hsplit
    exact ⟨[],by rw [hsplit, List.append_nil]⟩
  | cons c rest =>
    have hc : c = 0 := by
      have hhead := List.head?_dropWhile_not (· != 0) s
      rw [hr] at hhead
      simpa using hhead
    rw [hr, hc] at hsplit
    refine ⟨argumentDirectives rest,?_⟩
    nth_rewrite 1 [← hsplit]
    exact argumentDirectives_nul _ _

/-! ## Arguments that suit -/

/-- As far as there are both, each argument suits its directive. -/
def Suited : List Directive → List Argument → Prop
  | d :: ds, a :: args => (d.field? a).isSome ∧ Suited ds args
  | _, _ => True

theorem Suited.of_append {ds es : List Directive} {args : List Argument}
    (h : Suited (ds ++ es) args) : Suited ds args := by
  induction ds generalizing args with
  | nil => trivial
  | cons d ds ih =>
    cases args with
    | nil => trivial
    | cons a args => exact ⟨h.1,ih h.2⟩

theorem takers_cons (p : Piece) (ps : List Piece) :
    takers (p :: ps) = p.taker?.toList ++ takers ps := by
  rw [takers, List.filterMap_cons]
  cases p.taker? <;> rfl

theorem Piece.taken_eq (p : Piece) : p.taken = p.taker?.toList.length := by
  cases p with
  | directive d =>
    rw [Piece.taken, Piece.taker?]
    split_ifs <;> rfl
  | _ => rfl

theorem Piece.write_suited (p : Piece) {ps : List Piece} {args : List Argument} (index : Nat)
    (hs : Suited (takers (p :: ps)) args) :
    (∃ d, p = .directive d ∧ maxField < d.requested ∧
      p.write index args = .error (.fieldTooWide d.letter d.requested)) ∨
    (∃ d, p.taker? = some d ∧ args = [] ∧
      p.write index args = .error (.missingArgument index d.letter)) ∨
    ∃ s, p.write index args = .ok s ∧ p.taken ≤ args.length ∧
      Suited (takers ps) (args.drop p.taken) := by
  rw [takers_cons] at hs
  cases p with
  | literal c => exact Or.inr (Or.inr ⟨[c],rfl,Nat.zero_le _,hs⟩)
  | verbatim s => exact Or.inr (Or.inr ⟨s,rfl,Nat.zero_le _,hs⟩)
  | directive d =>
    by_cases hw : maxField < d.requested
    · exact Or.inl ⟨d,rfl,hw,by simp only [Piece.write, Directive.write, if_pos hw]⟩
    · apply Or.inr
      by_cases hk : d.takesArgument = true
      · have ht : (Piece.directive d).taken = 1 := if_pos hk
        rw [Piece.taker?, if_pos hk] at hs
        cases args with
        | nil =>
          refine Or.inl ⟨d,if_pos hk,rfl,?_⟩
          simp only [Piece.write, Directive.write, if_neg hw, if_pos hk]
        | cons a args =>
          obtain ⟨field,hf⟩ := Option.isSome_iff_exists.mp hs.1
          refine Or.inr ⟨field,write_field (Nat.not_lt.mp hw) hk hf index args,?_,?_⟩
          · rw [ht, List.length_cons]
            omega
          · rw [ht]
            exact hs.2
      · have ht : (Piece.directive d).taken = 0 := if_neg hk
        rw [Piece.taker?, if_neg hk] at hs
        refine Or.inr ⟨[37],?_,?_,?_⟩
        · simp only [Piece.write, Directive.write, if_neg hw, if_neg hk]
        · rw [ht]
          omega
        · rw [ht]
          exact hs

theorem writePieces_no_mismatch {ps : List Piece} {args : List Argument} (index : Nat)
    (hs : Suited (takers ps) args) (i : Nat) (c : UInt8) (found : String) :
    (writePieces index args ps).error ≠ some (.argumentMismatch i c found) := by
  induction ps generalizing index args with
  | nil => simp [writePieces]
  | cons p ps ih =>
    rw [writePieces]
    rcases p.write_suited index hs with ⟨d,-,-,hw⟩ | ⟨d,-,-,hw⟩ | ⟨s,hw,-,hleft⟩
    · simp [hw]
    · simp [hw]
    · simp only [hw]
      exact ih _ hleft

theorem writePieces_suited {ps : List Piece} {args : List Argument} (index : Nat)
    (hs : Suited (takers ps) args) (hm : ∀ d, .directive d ∈ ps → d.requested ≤ maxField) :
    (writePieces index args ps).error =
      ((takers ps)[args.length]?).map fun d => .missingArgument (index + args.length) d.letter := by
  induction ps generalizing index args with
  | nil => rfl
  | cons p ps ih =>
    rw [writePieces, takers_cons]
    rcases p.write_suited index hs with ⟨d,rfl,hwide,-⟩ | ⟨d,hd,rfl,hw⟩ | ⟨s,hw,hle,hleft⟩
    · exact absurd (hm d (by simp)) (Nat.not_le.mpr hwide)
    · simp [hw, hd]
    · have hrest := ih (index + p.taken) hleft fun d hd => hm d (List.mem_cons_of_mem p hd)
      have hindex : index + p.taken + (args.length - p.taken) = index + args.length := by omega
      rw [List.length_drop, hindex] at hrest
      simp only [hw, hrest]
      rw [List.getElem?_append_right (p.taken_eq ▸ hle), ← p.taken_eq]

/-! ## Kinds of arguments -/

def Argument.plain : Argument → Argument
  | int _ => int 0
  | uint _ => uint 0
  | real _ => real 0
  | char _ => char 0
  | text _ => text none
  | pointer _ => pointer 0

theorem Argument.kind_plain (a : Argument) : a.plain.kind = a.kind := by
  cases a <;> rfl

theorem Directive.field?_plain (d : Directive) (a : Argument) :
    (d.field? a.plain).isSome = (d.field? a).isSome := by
  unfold Directive.field?
  split <;> simp only [Option.isSome_map] <;> cases a <;> rfl

/-- Whether a piece fails, and how, is decided by the kinds of its arguments. -/
theorem Piece.write_plain (p : Piece) (index : Nat) (args : List Argument) :
    (∃ e, p.write index args = .error e ∧ p.write index (args.map Argument.plain) = .error e) ∨
      ∃ s s', p.write index args = .ok s ∧ p.write index (args.map Argument.plain) = .ok s' := by
  cases p with
  | literal c => exact Or.inr ⟨_,_,rfl,rfl⟩
  | verbatim s => exact Or.inr ⟨_,_,rfl,rfl⟩
  | directive d =>
    simp only [Piece.write, Directive.write]
    split_ifs
    · exact Or.inl ⟨_,rfl,rfl⟩
    · cases args with
      | nil => exact Or.inl ⟨_,rfl,rfl⟩
      | cons a args =>
        have hs := d.field?_plain a
        cases hf : d.field? a with
        | none =>
          rw [hf, Option.isSome_none, Option.isSome_eq_false_iff, Option.isNone_iff_eq_none] at hs
          refine Or.inl ⟨.argumentMismatch index d.letter a.kind,?_,?_⟩
          · simp only [hf]
          · simp only [List.map_cons, hs, a.kind_plain]
        | some f =>
          rw [hf, Option.isSome_some, Option.isSome_iff_exists] at hs
          obtain ⟨g,hg⟩ := hs
          refine Or.inr ⟨f,g,?_,?_⟩
          · simp only [hf]
          · simp only [List.map_cons, hg]
    · exact Or.inr ⟨_,_,rfl,rfl⟩

theorem writePieces_plain (ps : List Piece) (index : Nat) (args : List Argument) :
    (writePieces index (args.map Argument.plain) ps).error = (writePieces index args ps).error := by
  induction ps generalizing index args with
  | nil => rfl
  | cons p ps ih =>
    rw [writePieces, writePieces, ← List.map_drop]
    rcases p.write_plain index args with ⟨e,hw,hw'⟩ | ⟨s,s',hw,hw'⟩
    · simp only [hw, hw']
    · simp only [hw, hw']
      exact ih (index + p.taken) (args.drop p.taken)

end Freestanding.Format
