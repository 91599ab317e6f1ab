import Freestanding.Proofs.Format.Append

/-!
# Cutting a template

A reading that stops at a byte stops there whatever comes behind that byte. So a
template can be cut between any two of its pieces: the part in front has the
pieces in front, and the part behind the others.
-/

set_option autoImplicit false

namespace Freestanding.Format

/-! ## Where a reading stops -/

/-- A reading that does not use up all bytes takes some from the front, and takes
the same ones whenever they are followed by the byte where it stopped. -/
def StopsAt {α : Type} (read : Bytes → α × Bytes) (s : Bytes) : Prop :=
  (read s).2 ≠ [] → ∃ m, s = m ++ (read s).2 ∧
    ∀ t, t.head? = (read s).2.head? → read (m ++ t) = ((read s).1, t)

namespace StopsAt

variable {α : Type} {read : Bytes → α × Bytes}

theorem used_up {s : Bytes} (h : (read s).2 = []) : StopsAt read s := fun hn => absurd h hn

theorem at_once (x : α) {c : UInt8} (h : ∀ u, read (c :: u) = (x, c :: u)) (s : Bytes) :
    StopsAt read (c :: s) := by
  intro _
  rw [h]
  refine ⟨[],rfl,fun t ht => ?_⟩
  obtain ⟨u,rfl⟩ := List.head?_eq_some_iff.mp ht
  exact h u

theorem take_all (x : α) (s : Bytes) : StopsAt (fun u => (x, u)) s :=
  fun _ => ⟨[],rfl,fun _ _ => rfl⟩

theorem cons {next : Bytes → α × Bytes} {c : UInt8} (h : ∀ u, read (c :: u) = next u) {s : Bytes}
    (hs : StopsAt next s) : StopsAt read (c :: s) := by
  rw [StopsAt, h]
  intro hn
  obtain ⟨m,hm,hstop⟩ := hs hn
  refine ⟨c :: m,congrArg (c :: ·) hm,fun t ht => ?_⟩
  rw [List.cons_append, h]
  exact hstop t ht

theorem map {β : Type} (f : α → β) {s : Bytes} (h : StopsAt read s) :
    StopsAt (fun u => (f (read u).1, (read u).2)) s := by
  intro hn
  obtain ⟨m,hm,hstop⟩ := h hn
  exact ⟨m,hm,fun t ht => by simp only [hstop t ht]⟩

end StopsAt

theorem readFlagsFrom_stopsAt (f : Flags) (s : Bytes) : StopsAt (readFlagsFrom f) s := by
  induction s generalizing f with
  | nil => exact .used_up rfl
  | cons c s ih =>
    cases hf : f.insert? c with
    | some g => exact .cons (fun u => by simp only [readFlagsFrom, hf]) (ih g)
    | none => exact .at_once f (fun u => by simp only [readFlagsFrom, hf]) s

theorem readNumberFrom_stopsAt (v : Nat) (s : Bytes) : StopsAt (readNumberFrom v) s := by
  induction s generalizing v with
  | nil => exact .used_up rfl
  | cons c s ih =>
    by_cases hc : Numeral.isDecimal c = true
    · exact .cons (fun u => by rw [readNumberFrom, if_pos hc]) (ih _)
    · exact .at_once v (fun u => by rw [readNumberFrom, if_neg hc]) s

theorem readPrecision_stopsAt (s : Bytes) : StopsAt readPrecision s := by
  cases s with
  | nil => exact .used_up rfl
  | cons c s =>
    by_cases hc : c = 46
    · subst hc
      exact .cons (fun u => rfl) ((readNumberFrom_stopsAt 0 s).map some)
    · exact .at_once none (fun u => by simp [readPrecision, hc]) s

theorem readLength_doubled {c : UInt8} {one two : Length} (hend : readLength [c] = (one, []))
    (htwo : ∀ u, readLength (c :: c :: u) = (two, u))
    (hone : ∀ d u, d ≠ c → readLength (c :: d :: u) = (one, d :: u)) (s : Bytes) :
    StopsAt readLength (c :: s) := by
  have hnext : StopsAt (fun u => readLength (c :: u)) s := by
    cases s with
    | nil => exact .used_up (congrArg Prod.snd hend)
    | cons d s =>
      by_cases hd : d = c
      · subst hd
        exact .cons htwo (.take_all two s)
      · exact .at_once one (fun u => hone d u hd) s
  exact .cons (fun u => rfl) hnext

theorem readLength_stopsAt (s : Bytes) : StopsAt readLength s := by
  cases s with
  | nil => exact .used_up rfl
  | cons c s =>
    by_cases hh : c = 104
    · subst hh
      exact readLength_doubled rfl (fun u => rfl) (fun d u hd => by simp [readLength, hd]) s
    by_cases hl : c = 108
    · subst hl
      exact readLength_doubled rfl (fun u => rfl) (fun d u hd => by simp [readLength, hd]) s
    by_cases hz : c = 122
    · subst hz
      exact .cons (fun u => rfl) (StopsAt.take_all Length.size s)
    by_cases ht : c = 116
    · subst ht
      exact .cons (fun u => rfl) (StopsAt.take_all Length.difference s)
    · exact .at_once Length.int (fun u => by simp [readLength, hh, hl, hz, ht]) s

theorem StopsAt.follow {α β : Type} {first : Bytes → α × Bytes} {second : Bytes → β × Bytes}
    {s : Bytes} (hnil : (second []).2 = []) (h : StopsAt first s)
    (h' : StopsAt second (first s).2) :
    StopsAt (fun u => (((first u).1, (second (first u).2).1), (second (first u).2).2)) s := by
  intro hn
  have hne : (first s).2 ≠ [] := fun he => hn (by simp only [he, hnil])
  obtain ⟨m,hm,hstop⟩ := h hne
  obtain ⟨m',hm',hstop'⟩ := h' hn
  refine ⟨m ++ m',?_,fun t ht => ?_⟩
  · rw [List.append_assoc, ← hm', ← hm]
  · have hhead : (m' ++ t).head? = (first s).2.head? := by
      rw [hm', List.head?_append, List.head?_append, ht]
    rw [List.append_assoc]
    simp only [hstop _ hhead, hstop' t ht]

theorem readModifiers_stopsAt (s : Bytes) : StopsAt readModifiers s := by
  have hflags := readFlagsFrom_stopsAt {} s
  have hwidth := hflags.follow rfl (readNumberFrom_stopsAt 0 _)
  have hprecision := hwidth.follow rfl (readPrecision_stopsAt _)
  have hlength := hprecision.follow rfl (readLength_stopsAt _)
  exact hlength.map fun x => (⟨x.1.1.1,x.1.1.2,x.1.2,x.2⟩ : Modifiers)

/-! ## Between two pieces -/

theorem readDirective?_cut {s rest : Bytes} {d : Directive}
    (h : readDirective? s = some (d, rest)) :
    ∃ m, s = m ++ rest ∧ ∀ t, readDirective? (m ++ t) = some (d, t) := by
  obtain ⟨m,hm,hstop⟩ := readModifiers_stopsAt s (readDirective?_modifiers h)
  rw [readDirective?] at h
  cases hr : (readModifiers s).2 with
  | nil => simp [hr] at h
  | cons c r =>
    simp only [hr, Option.map_eq_some_iff] at h
    obtain ⟨k,hk,he⟩ := h
    cases he
    rw [hr] at hm hstop
    refine ⟨m ++ [c],by simpa using hm,fun t => ?_⟩
    have ht := hstop (c :: t) rfl
    rw [List.append_assoc, List.singleton_append, readDirective?, ht]
    simp only [hk, Option.map_some]

theorem verbatim_cut {s : Bytes} (hd : readDirective? s = none) (hm : (readModifiers s).2 ≠ []) :
    ∃ m, s = m ++ s.drop (verbatimLength s) ∧ s.take (verbatimLength s) = m ∧
      ∀ t, pieces (37 :: (m ++ t)) = .verbatim (37 :: m) :: pieces t := by
  obtain ⟨m,hs,hstop⟩ := readModifiers_stopsAt s hm
  cases hr : (readModifiers s).2 with
  | nil => exact absurd hr hm
  | cons c r =>
    rw [hr] at hs hstop
    have hnone : conversion? c = none := by simpa [readDirective?, hr] using hd
    have hcut : ∀ t, (m ++ [c]) ++ t = m ++ c :: t := fun t => by simp
    have hread : ∀ t, readModifiers ((m ++ [c]) ++ t) = ((readModifiers s).1, c :: t) := by
      intro t
      rw [hcut]
      exact hstop (c :: t) rfl
    have hlength : ∀ t, verbatimLength ((m ++ [c]) ++ t) = (m ++ [c]).length := by
      intro t
      simp only [verbatimLength, hread, List.length_append, List.length_cons, List.length_nil]
      omega
    rw [← hcut] at hs
    refine ⟨m ++ [c],?_,?_,fun t => ?_⟩
    · nth_rewrite 2 3 [hs]
      rw [hlength, List.drop_left]
      exact hs
    · rw [hs, hlength, List.take_left]
    · have ht : readDirective? ((m ++ [c]) ++ t) = none := by
        rw [readDirective?, hread]
        simp only [hnone, Option.map_none]
      rw [pieces_verbatim ht, hlength, List.take_left, List.drop_left]

theorem pieces_eq_cons {s : Bytes} {p : Piece} {ps : List Piece} (h : pieces s = p :: ps) :
    (∃ c t, c ≠ 37 ∧ s = c :: t ∧ p = .literal c ∧ ps = pieces t) ∨
    (∃ d t rest, readDirective? t = some (d, rest) ∧ s = 37 :: t ∧ p = .directive d ∧
      ps = pieces rest) ∨
    ∃ t, readDirective? t = none ∧ s = 37 :: t ∧ p = .verbatim (37 :: t.take (verbatimLength t)) ∧
      ps = pieces (t.drop (verbatimLength t)) := by
  cases s with
  | nil => simp [pieces] at h
  | cons c s =>
    by_cases hc : c = 37
    · subst hc
      cases hd : readDirective? s with
      | some x =>
        rw [pieces_directive hd] at h
        cases h
        exact Or.inr (Or.inl ⟨x.1,s,x.2,hd,rfl,rfl,rfl⟩)
      | none =>
        rw [pieces_verbatim hd] at h
        cases h
        exact Or.inr (Or.inr ⟨s,hd,rfl,rfl,rfl⟩)
    · rw [pieces_literal hc] at h
      cases h
      exact Or.inl ⟨c,s,hc,rfl,rfl,rfl⟩

theorem pieces_cons_cut {s : Bytes} {p : Piece} {ps : List Piece} (h : pieces s = p :: ps)
    (hn : ps ≠ []) : ∃ m v, s = m ++ v ∧ pieces v = ps ∧ ∀ t, pieces (m ++ t) = p :: pieces t := by
  rcases pieces_eq_cons h with ⟨c,s,hc,rfl,rfl,rfl⟩ | ⟨d,s,rest,hd,rfl,rfl,rfl⟩ | ⟨s,hd,rfl,rfl,rfl⟩
  · exact ⟨[c],s,rfl,rfl,fun t => pieces_literal hc t⟩
  · obtain ⟨m,hm,hcut⟩ := readDirective?_cut hd
    exact ⟨37 :: m,rest,congrArg (37 :: ·) hm,rfl,fun t => pieces_directive (hcut t)⟩
  · have hm : (readModifiers s).2 ≠ [] := by
      intro he
      rw [verbatimLength_used_up he, List.drop_length] at hn
      simp [pieces] at hn
    obtain ⟨m,hs,hm',hcut⟩ := verbatim_cut hd hm
    rw [hm']
    exact ⟨37 :: m,_,congrArg (37 :: ·) hs,rfl,hcut⟩

theorem pieces_split {s : Bytes} {before after : List Piece} (h : pieces s = before ++ after)
    (hn : after ≠ []) :
    ∃ u v, s = u ++ v ∧ pieces v = after ∧ ∀ t, pieces (u ++ t) = before ++ pieces t := by
  induction before generalizing s with
  | nil => exact ⟨[],s,rfl,h,fun t => rfl⟩
  | cons p before ih =>
    obtain ⟨m,v,rfl,hv,hcut⟩ := pieces_cons_cut h (by simp [hn])
    obtain ⟨u,w,rfl,hw,hsplit⟩ := ih hv
    refine ⟨m ++ u,w,by simp,hw,fun t => ?_⟩
    rw [List.append_assoc, hcut, hsplit, List.cons_append]

/-- A template can be cut in front of any of its pieces. -/
theorem pieces_cut {s : Bytes} {before after : List Piece} (h : pieces s = before ++ after)
    (hn : after ≠ []) : ∃ u v, s = u ++ v ∧ pieces u = before ∧ pieces v = after := by
  obtain ⟨u,v,hs,hv,hsplit⟩ := pieces_split h hn
  have hu := hsplit []
  rw [List.append_nil, pieces, List.append_nil] at hu
  exact ⟨u,v,hs,hu,hv⟩

end Freestanding.Format
