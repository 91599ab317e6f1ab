import Freestanding.Proofs.Format.Destination
import Freestanding.Proofs.Format.Takers

/-!
# What stands for itself

A percent sign that starts no directive is copied with the bytes behind it, up to
the one where the reading broke off. No other percent sign is among them, so the
walk over a template comes by every percent sign but those that are letters of
directives. A template without directives is copied as it is.
-/

set_option autoImplicit false

namespace Freestanding.Format

/-! ## Templates without directives -/

def NoDirective (s : Bytes) : Prop := ∀ u v, s = u ++ 37 :: v → readDirective? v = none

theorem noDirective_nil : NoDirective [] := by
  intro u v h
  simp at h

theorem noDirective_cons_iff {c : UInt8} {s : Bytes} :
    NoDirective (c :: s) ↔ (c = 37 → readDirective? s = none) ∧ NoDirective s := by
  constructor
  · intro h
    refine ⟨fun hc => h [] s (by rw [hc]; rfl),fun u v hs => ?_⟩
    exact h (c :: u) v (by rw [hs]; rfl)
  · rintro ⟨hc,hs⟩ u v h
    cases u with
    | nil =>
      obtain ⟨rfl,rfl⟩ := List.cons.inj h
      exact hc rfl
    | cons d u => exact hs u v (List.cons.inj h).2

theorem NoDirective.drop {s : Bytes} (h : NoDirective s) (n : Nat) : NoDirective (s.drop n) := by
  intro u v hs
  apply h (s.take n ++ u) v
  rw [List.append_assoc, ← hs, List.take_append_drop]

instance decidableNoDirective : (s : Bytes) → Decidable (NoDirective s)
  | [] => .isTrue noDirective_nil
  | _ :: s =>
    have := decidableNoDirective s
    decidable_of_iff _ noDirective_cons_iff.symm

theorem writePieces_noDirective {s : Bytes} (h : NoDirective s) (index : Nat)
    (args : List Argument) : writePieces index args (pieces s) = ⟨s, none⟩ := by
  fun_induction pieces s with
  | case1 => rfl
  | case2 s d rest hd _ =>
    have hn := (noDirective_cons_iff.mp h).1 rfl
    rw [hd] at hn
    cases hn
  | case3 s hd ih =>
    have hrest := ih ((noDirective_cons_iff.mp h).2.drop _)
    simp [writePieces, Piece.write, Piece.taken, hrest]
  | case4 c s hc ih =>
    have hrest := ih (noDirective_cons_iff.mp h).2
    simp [writePieces, Piece.write, Piece.taken, hrest]

theorem appendTo_noDirective {template : Bytes} (h : NoDirective (Bytes.text template))
    (dest : Bytes) (args : List Argument) :
    appendTo dest template args =
      (.ok (Bytes.text template).length, dest ++ Bytes.text template) := by
  rw [appendTo_eq, run, writePieces_noDirective h]
  rfl

/-! ## One piece that stands for itself -/

theorem writePieces_followed {ps : List Piece} {index : Nat} {args : List Argument}
    (h : (writePieces index args ps).error = none) (qs : List Piece) :
    writePieces index args (ps ++ qs) =
      ⟨(writePieces index args ps).written ++ (writePieces (index + argumentCount ps)
          (args.drop (argumentCount ps)) qs).written,
        (writePieces (index + argumentCount ps) (args.drop (argumentCount ps)) qs).error⟩ := by
  induction ps generalizing index args with
  | nil => rfl
  | cons p ps ih =>
    rw [writePieces] at h
    rw [List.cons_append, writePieces, writePieces]
    cases hw : p.write index args with
    | error e =>
      rw [hw] at h
      cases h
    | ok s =>
      rw [hw] at h
      simp only [ih h, argumentCount, List.drop_drop, Nat.add_assoc, List.append_assoc]

/-- A piece of a template that stands for itself: where it lies, that no percent sign
but its first byte is in it, and that it is copied behind what is written for the
part in front of it. -/
structure StandsAt (s : Bytes) (before : List Piece) (copied : Bytes) (after : List Piece)
    (u v : Bytes) : Prop where
  place : s = u ++ (copied ++ v)
  before_eq : pieces u = before
  after_eq : pieces v = after
  alone : ∃ t, copied = 37 :: t ∧ 37 ∉ t ∧ readDirective? (t ++ v) = none
  copies : ∀ dest args n out, appendTo dest u args = (.ok n, out) →
    appendTo dest (u ++ copied) args = (.ok (n + copied.length), out ++ copied)

theorem pieces_verbatim_alone {s : Bytes} (hd : readDirective? s = none) :
    pieces (37 :: s.take (verbatimLength s)) = [.verbatim (37 :: s.take (verbatimLength s))] := by
  by_cases hm : (readModifiers s).2 = []
  · rw [verbatimLength_used_up hm, List.take_length, pieces_verbatim hd,
      verbatimLength_used_up hm, List.take_length, List.drop_length, pieces]
  · obtain ⟨m,-,hm',hcut⟩ := verbatim_cut hd hm
    rw [hm']
    simpa [pieces] using hcut []

theorem appendTo_followed {u t : Bytes} (hu : ∀ c ∈ u ++ t, c ≠ 0)
    (hsplit : pieces (u ++ t) = pieces u ++ [.verbatim t]) {dest out : Bytes}
    {args : List Argument} {n : Nat} (h : appendTo dest u args = (.ok n, out)) :
    appendTo dest (u ++ t) args = (.ok (n + t.length), out ++ t) := by
  rw [appendTo_eq] at h ⊢
  obtain ⟨hanswer,rfl⟩ := Prod.mk.inj h
  obtain ⟨herror,rfl⟩ := Output.answer_ok hanswer
  have hnul : Bytes.text u = u := Bytes.text_eq_self fun c hc => hu c (by simp [hc])
  have hboth : Bytes.text (u ++ t) = u ++ t := Bytes.text_eq_self hu
  rw [run, hnul] at herror
  simp only [run, hnul, hboth, hsplit, writePieces_followed herror, writePieces, Piece.write]
  simp [Output.answer]

theorem verbatim_stands {s copied : Bytes} {before after : List Piece} (hs : ∀ c ∈ s, c ≠ 0)
    (h : pieces s = before ++ .verbatim copied :: after) :
    ∃ u v, StandsAt s before copied after u v := by
  obtain ⟨u,w,rfl,hw,hsplit⟩ := pieces_split h (by simp)
  have hu : pieces u = before := by simpa [pieces] using hsplit []
  rcases pieces_eq_cons hw with ⟨_,_,_,_,hp,_⟩ | ⟨_,_,_,_,_,hp,_⟩ | ⟨t,hd,rfl,hp,rfl⟩
  · cases hp
  · cases hp
  · cases hp
    obtain ⟨m,ht,hm⟩ := verbatim_passes hd
    have htake : t.take (verbatimLength t) = m :=
      List.append_cancel_right ((List.take_append_drop _ t).trans ht)
    have halone := pieces_verbatim_alone hd
    have hcut := hsplit (37 :: t.take (verbatimLength t))
    rw [halone, ← hu] at hcut
    refine ⟨u,t.drop (verbatimLength t),?_,hu,rfl,⟨_,rfl,?_,?_⟩,?_⟩
    · rw [List.cons_append, List.take_append_drop]
    · rw [htake]
      exact hm
    · rw [List.take_append_drop]
      exact hd
    · intro dest args n out hok
      refine appendTo_followed (fun c hc => hs c ?_) hcut hok
      rcases List.mem_append.mp hc with hc | hc
      · simp [hc]
      · rcases List.mem_cons.mp hc with rfl | hc
        · simp
        · simp [List.mem_of_mem_take hc]

/-! ## Every percent sign -/

/-- A percent sign behind `u` is met by the walk, or it is the letter of a directive
that the walk meets. -/
def Met (s u v : Bytes) : Prop :=
  pieces s = pieces u ++ pieces (37 :: v) ∨
  ∃ u' m d, u = u' ++ 37 :: m ∧ d.letter = 37 ∧ readDirective? (m ++ 37 :: v) = some (d, v) ∧
    pieces s = pieces u' ++ .directive d :: pieces v

theorem Met.behind {m s u v : Bytes} {p : Piece} (hcut : ∀ t, pieces (m ++ t) = p :: pieces t)
    (h : Met s u v) : Met (m ++ s) (m ++ u) v := by
  rcases h with h | ⟨u',m',d,rfl,hl,hd,h⟩
  · left
    rw [hcut, hcut, h, List.cons_append]
  · right
    refine ⟨m ++ u',m',d,by simp,hl,hd,?_⟩
    rw [hcut, hcut, h, List.cons_append]

theorem percent_behind {m rest u v : Bytes} (hm : 37 ∉ m) (h : m ++ rest = u ++ 37 :: v) :
    ∃ x, u = m ++ x ∧ rest = x ++ 37 :: v := by
  rcases List.append_eq_append_iff.mp h with ⟨x,hu,hrest⟩ | ⟨x,rfl,hx⟩
  · exact ⟨x,hu,hrest⟩
  · cases x with
    | nil => exact ⟨[],by simp,hx.symm⟩
    | cons c x =>
      obtain ⟨rfl,-⟩ := List.cons.inj hx
      simp at hm

theorem percent_in_directive {s rest u v : Bytes} {d : Directive}
    (hd : readDirective? s = some (d, rest)) (h : s = u ++ 37 :: v) :
    (d.letter = 37 ∧ v = rest) ∨ ∃ m x, s = m ++ rest ∧ u = m ++ x ∧ rest = x ++ 37 :: v := by
  obtain ⟨m,hs,hm⟩ := readModifiers_passes s
  rw [readDirective?] at hd
  cases hr : (readModifiers s).2 with
  | nil =>
    rw [hr] at hd
    cases hd
  | cons c r =>
    simp only [hr, Option.map_eq_some_iff] at hd
    obtain ⟨k,-,he⟩ := hd
    cases he
    rw [hr] at hs
    obtain ⟨x,rfl,hx⟩ := percent_behind hm (hs.symm.trans h)
    cases x with
    | nil =>
      obtain ⟨rfl,rfl⟩ := List.cons.inj hx
      exact Or.inl ⟨rfl,rfl⟩
    | cons b x =>
      obtain ⟨rfl,rfl⟩ := List.cons.inj hx
      exact Or.inr ⟨m ++ [c],x,by simpa using hs,by simp,rfl⟩

theorem percent_met {s u v : Bytes} (h : s = u ++ 37 :: v) : Met s u v := by
  fun_induction pieces s generalizing u v with
  | case1 => simp at h
  | case2 s d rest hd ih =>
    cases u with
    | nil =>
      rw [h]
      exact Or.inl (by simp [pieces])
    | cons c u =>
      obtain ⟨rfl,hs⟩ := List.cons.inj h
      rcases percent_in_directive hd hs with ⟨hl,rfl⟩ | ⟨m,x,hm,rfl,hx⟩
      · have hread : readDirective? (u ++ 37 :: v) = some (d, v) := by
          rw [← hd, hs]
          rfl
        refine Or.inr ⟨[],u,d,rfl,hl,hread,?_⟩
        rw [pieces_directive hd, pieces, List.nil_append]
      · obtain ⟨m',hm',hread⟩ := readDirective?_cut hd
        obtain rfl := List.append_cancel_right (hm.symm.trans hm')
        have hmet := (ih hx).behind (m := 37 :: m) fun t => pieces_directive (hread t)
        rw [hm]
        exact hmet
  | case3 s hd ih =>
    cases u with
    | nil =>
      rw [h]
      exact Or.inl (by simp [pieces])
    | cons c u =>
      obtain ⟨rfl,hs⟩ := List.cons.inj h
      obtain ⟨m,hm,hfree⟩ := verbatim_passes hd
      obtain ⟨x,rfl,hx⟩ := percent_behind hfree (hm.symm.trans hs)
      have hleft : (readModifiers s).2 ≠ [] := by
        intro he
        rw [verbatimLength_used_up he, List.drop_length] at hx
        simp at hx
      obtain ⟨m',hm',-,hcut⟩ := verbatim_cut hd hleft
      obtain rfl := List.append_cancel_right (hm.symm.trans hm')
      have hmet := (ih hx).behind (m := 37 :: m) hcut
      rw [hm]
      exact hmet
  | case4 c s hc ih =>
    cases u with
    | nil => exact absurd (List.cons.inj h).1 hc
    | cons b u =>
      obtain ⟨rfl,hs⟩ := List.cons.inj h
      exact (ih hs).behind (m := [c]) fun t => pieces_literal hc t

/-- A template without directives is copied as it is. In any template, what is
copied for a percent sign that starts no directive has no other percent sign in
it, and the walk misses none that is not the letter of a directive. -/
theorem unknown_directives_stand_for_themselves (template : Bytes) :
    ((∀ u v, Bytes.text template = u ++ 37 :: v → readDirective? v = none) →
      ∀ dest args, appendTo dest template args =
        (.ok (Bytes.text template).length, dest ++ Bytes.text template)) ∧
    (∀ before copied after,
      pieces (Bytes.text template) = before ++ .verbatim copied :: after →
      ∃ u v, StandsAt (Bytes.text template) before copied after u v) ∧
    ∀ u v, Bytes.text template = u ++ 37 :: v → Met (Bytes.text template) u v := by
  refine ⟨fun h dest args => appendTo_noDirective h dest args,?_,fun u v h => percent_met h⟩
  intro before copied after h
  exact verbatim_stands (fun c hc => Bytes.ne_zero_of_mem_text hc) h

theorem unknown_letter_stands_for_itself :
    NoDirective [37, 107, 32, 53, 37] ∧
    appendTo [120] [37, 107, 32, 53, 37] [.int 42] = (.ok 5, [120, 37, 107, 32, 53, 37]) ∧
    pieces [37, 53, 37, 37, 46, 50, 107, 37, 100] = [.directive ⟨⟨{},5,none,.int⟩,.percent,37⟩] ++
      .verbatim [37, 46, 50, 107] :: [.directive ⟨⟨{},0,none,.int⟩,.signed,100⟩] ∧
    (∃ u v, StandsAt [37, 53, 37, 37, 46, 50, 107, 37, 100]
      [.directive ⟨⟨{},5,none,.int⟩,.percent,37⟩] [37, 46, 50, 107]
      [.directive ⟨⟨{},0,none,.int⟩,.signed,100⟩] u v) ∧
    Met [37, 53, 37, 37, 46, 50, 107, 37, 100] [37, 53] [37, 46, 50, 107, 37, 100] := by
  have hn : NoDirective [37, 107, 32, 53, 37] := by decide +kernel
  have hp : pieces [37, 53, 37, 37, 46, 50, 107, 37, 100] =
      [.directive ⟨⟨{},5,none,.int⟩,.percent,37⟩] ++
        .verbatim [37, 46, 50, 107] :: [.directive ⟨⟨{},0,none,.int⟩,.signed,100⟩] := by
    decide +kernel
  obtain ⟨hcopied,-⟩ := unknown_directives_stand_for_themselves [37, 107, 32, 53, 37]
  obtain ⟨-,hstands,hmet⟩ :=
    unknown_directives_stand_for_themselves [37, 53, 37, 37, 46, 50, 107, 37, 100]
  exact ⟨hn,hcopied hn [120] [.int 42],hp,hstands _ _ _ hp,hmet _ _ rfl⟩

end Freestanding.Format
