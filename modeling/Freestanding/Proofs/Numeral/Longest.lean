import Freestanding.Numeral.Real
import Freestanding.Proofs.Numeral.Spelling

/-!
# The longest real

A real is written as blanks, a sign, digits with an optional point and an
optional power of ten. Reading takes one part after the other, each as far as
it goes, and turns back to the last place where a real could end. So it takes
the longest real that a byte string starts with, or nothing when there is none.
-/

set_option autoImplicit false

namespace Freestanding.Numeral

def Decimals (s : Bytes) : Prop := ∀ c ∈ s, isDecimal c = true

/-- The digits of a real, of which there is at least one, with their point. -/
inductive Mantissa : Bytes → Prop
  | whole {w : Bytes} (digits : Decimals w) (nonempty : w ≠ []) : Mantissa w
  | pointed {w f : Bytes} (digits : Decimals w) (nonempty : w ≠ []) (places : Decimals f) :
      Mantissa (w ++ 46 :: f)
  | fraction {f : Bytes} (places : Decimals f) (nonempty : f ≠ []) : Mantissa (46 :: f)

inductive Power : Bytes → Prop
  | mk {e : UInt8} (letter : e = 101 ∨ e = 69) (o : Option Bool) {d : Bytes} (digits : Decimals d)
      (nonempty : d ≠ []) : Power (e :: (signBytes o ++ d))

inductive RealNumeral : Bytes → Prop
  | mk {b m p : Bytes} (blank : ∀ c ∈ b, Bytes.isBlank c = true) (o : Option Bool)
      (mantissa : Mantissa m) (power : p = [] ∨ Power p) :
      RealNumeral (b ++ (signBytes o ++ (m ++ p)))

/-- The longest prefix of `s` in a class of byte strings has `n` bytes. -/
def LongestPrefix (p : Bytes → Prop) (s : Bytes) (n : Nat) : Prop :=
  ∃ t, t <+: s ∧ p t ∧ t.length = n ∧ ∀ u, u <+: s → p u → u.length ≤ n

/-! ## Bytes of a real -/

theorem digit_solid {c : UInt8} (hc : isDecimal c = true) :
    Bytes.isBlank c = false ∧ c ≠ 45 ∧ c ≠ 43 := by
  simp only [isDecimal, Bool.and_eq_true, decide_eq_true_eq] at hc
  refine ⟨not_blank_of_ge hc.1,?_,?_⟩
  · rintro rfl
    exact absurd hc.1 (by decide)
  · rintro rfl
    exact absurd hc.1 (by decide)

theorem letter_no_digit {e : UInt8} (he : e = 101 ∨ e = 69) : isDecimal e = false ∧ e ≠ 46 := by
  rcases he with rfl | rfl <;> decide

theorem head_decimals {d : Bytes} (hd : Decimals d) (hn : d ≠ []) (t : Bytes) :
    ∀ c ∈ (d ++ t).head?, isDecimal c = true := by
  intro c hc
  cases d with
  | nil => exact absurd rfl hn
  | cons a d =>
    cases hc
    exact hd c (by simp)

theorem Mantissa.head {m : Bytes} (hm : Mantissa m) (t : Bytes) :
    ∀ c ∈ (m ++ t).head?, isDecimal c = true ∨ c = 46 := by
  intro c hc
  cases hm with
  | whole hw hn => exact .inl (head_decimals hw hn t c hc)
  | pointed hw hn hf =>
    rw [List.append_assoc] at hc
    exact .inl (head_decimals hw hn _ c hc)
  | fraction hf hn =>
    cases hc
    exact .inr rfl

theorem Mantissa.split {m : Bytes} (hm : Mantissa m) :
    ∃ w, Decimals w ∧ ((m = w ∧ w ≠ []) ∨
      ∃ f, Decimals f ∧ m = w ++ 46 :: f ∧ ¬(w = [] ∧ f = [])) := by
  cases hm with
  | whole hw hn => exact ⟨m,hw,.inl ⟨rfl,hn⟩⟩
  | @pointed w f hw hn hf => exact ⟨w,hw,.inr ⟨f,hf,rfl,fun h => hn h.1⟩⟩
  | @fraction f hf hn => exact ⟨[],by simp [Decimals],.inr ⟨f,hf,rfl,fun h => hn h.2⟩⟩

/-! ## What is read behind the sign -/

def Bare (s : Bytes) : Prop :=
  s.takeWhile isDecimal = [] ∧ (readFraction (s.dropWhile isDecimal)).1 = []

def taken (s : Bytes) : Nat :=
  let r := s.dropWhile isDecimal
  let n := (readFraction r).2
  (s.takeWhile isDecimal).length + n + (readExponent (r.drop n)).2

theorem drop_takeWhile {α : Type} (p : α → Bool) (s : List α) :
    s.drop (s.takeWhile p).length = s.dropWhile p := by
  have h : (s.takeWhile p ++ s.dropWhile p).drop (s.takeWhile p).length = s.dropWhile p :=
    List.drop_left
  rwa [List.takeWhile_append_dropWhile] at h

theorem parseReal_opening {b r : Bytes} {o : Option Bool} (hb : ∀ c ∈ b, Bytes.isBlank c = true)
    (hr : ∀ c ∈ (signBytes o ++ r).head?, Bytes.isBlank c = false)
    (ho : o = none → ∀ c ∈ r.head?, c ≠ 45 ∧ c ≠ 43) :
    (Bare r → parseReal (b ++ (signBytes o ++ r)) = ⟨0.0,0,false⟩) ∧
      (¬Bare r → (parseReal (b ++ (signBytes o ++ r))).rest =
        b.length + (signBytes o).length + taken r) := by
  have hblank : Bytes.blanks (b ++ (signBytes o ++ r)) = b.length := by
    rw [Bytes.blanks, takeWhile_append_end hb hr]
  have hdrop : (b ++ (signBytes o ++ r)).drop (b.length + (signBytes o).length) = r := by
    rw [← List.drop_drop, List.drop_left, List.drop_left]
  unfold parseReal
  simp only [hblank, List.drop_left, sign_signBytes ho, hdrop, drop_takeWhile]
  constructor
  · intro h
    exact if_pos h
  · intro h
    rw [Bare] at h
    simp only [if_neg h, taken]
    omega

theorem readExponent_power {p : Bytes} (hp : Power p) (u : Bytes) :
    p.length ≤ (readExponent (p ++ u)).2 := by
  cases hp with
  | @mk e he o d hd hn =>
    have hsign : sign (signBytes o ++ (d ++ u)) = (o == some true, (signBytes o).length) :=
      sign_signBytes fun _ c hc => (digit_solid (head_decimals hd hn u c hc)).2
    have hrun : (d ++ u).takeWhile isDecimal = d ++ u.takeWhile isDecimal :=
      List.takeWhile_append_of_pos hd
    rw [List.cons_append, List.append_assoc, readExponent]
    simp only [hsign, List.drop_left, hrun]
    rw [if_pos ⟨he,List.append_ne_nil_of_left_ne_nil hn _⟩]
    simp only [List.length_cons, List.length_append]
    omega

theorem readFraction_of_ne {s : Bytes} (hs : ∀ c ∈ s.head?, c ≠ 46) : readFraction s = ([],0) := by
  unfold readFraction
  split
  · exact absurd rfl (hs 46 rfl)
  · rfl

/-! ## No real at the start is longer -/

theorem Power.head {p : Bytes} (hp : Power p) (u : Bytes) :
    ∀ c ∈ (p ++ u).head?, isDecimal c = false ∧ c ≠ 46 := by
  cases hp with
  | mk he o hd hn =>
    intro c hc
    cases hc
    exact letter_no_digit he

theorem taken_whole {w p : Bytes} (hw : Decimals w) (hp : p = [] ∨ Power p) (u : Bytes) :
    (w ++ p).length ≤ taken (w ++ (p ++ u)) := by
  rw [taken]
  rcases hp with rfl | hp
  · rw [List.nil_append, List.takeWhile_append_of_pos hw]
    simp only [List.length_append, List.length_nil]
    omega
  · have hstop := fun c hc => (hp.head u c hc).1
    have hfraction := readFraction_of_ne fun c hc => (hp.head u c hc).2
    have hpower := readExponent_power hp u
    rw [takeWhile_append_end hw hstop, dropWhile_append_end hw hstop]
    simp only [hfraction, List.drop_zero, List.length_append]
    omega

theorem point_no_digit (s : Bytes) : ∀ c ∈ (46 :: s).head?, isDecimal c = false := by
  intro c hc
  cases hc
  rfl

theorem taken_pointed {w f p : Bytes} (hw : Decimals w) (hf : Decimals f) (hp : p = [] ∨ Power p)
    (u : Bytes) : (w ++ 46 :: (f ++ p)).length ≤ taken (w ++ 46 :: (f ++ (p ++ u))) := by
  rw [taken, takeWhile_append_end hw (point_no_digit _), dropWhile_append_end hw (point_no_digit _)]
  simp only [readFraction]
  rcases hp with rfl | hp
  · rw [List.nil_append, List.takeWhile_append_of_pos hf]
    simp only [List.length_append, List.length_cons, List.length_nil]
    omega
  · have hstop := fun c hc => (hp.head u c hc).1
    have hpower := readExponent_power hp u
    rw [takeWhile_append_end hf hstop, Nat.add_comm 1, List.drop_succ_cons, List.drop_left]
    simp only [List.length_append, List.length_cons]
    omega

theorem bare_whole {w : Bytes} (hw : Decimals w) (hn : w ≠ []) (u : Bytes) : ¬Bare (w ++ u) := by
  intro h
  have hrun := h.1
  rw [List.takeWhile_append_of_pos hw] at hrun
  exact hn (List.append_eq_nil_iff.mp hrun).1

theorem bare_pointed {w f : Bytes} (hw : Decimals w) (hf : Decimals f) (hn : ¬(w = [] ∧ f = []))
    (u : Bytes) : ¬Bare (w ++ 46 :: (f ++ u)) := by
  rintro ⟨hwhole,hplaces⟩
  rw [takeWhile_append_end hw (point_no_digit _)] at hwhole
  rw [dropWhile_append_end hw (point_no_digit _), readFraction,
    List.takeWhile_append_of_pos hf] at hplaces
  exact hn ⟨hwhole,(List.append_eq_nil_iff.mp hplaces).1⟩

theorem Mantissa.taken {m p : Bytes} (hm : Mantissa m) (hp : p = [] ∨ Power p) (u : Bytes) :
    ¬Bare (m ++ (p ++ u)) ∧ (m ++ p).length ≤ taken (m ++ (p ++ u)) := by
  obtain ⟨w,hw,⟨rfl,hn⟩ | ⟨f,hf,rfl,hn⟩⟩ := hm.split
  · exact ⟨bare_whole hw hn _,taken_whole hw hp u⟩
  · simp only [List.append_assoc, List.cons_append]
    exact ⟨bare_pointed hw hf hn _,taken_pointed hw hf hp u⟩

theorem Mantissa.opening {m : Bytes} (hm : Mantissa m) (o : Option Bool) (u : Bytes) :
    (∀ c ∈ (signBytes o ++ (m ++ u)).head?, Bytes.isBlank c = false) ∧
      (o = none → ∀ c ∈ (m ++ u).head?, c ≠ 45 ∧ c ≠ 43) := by
  have hhead : ∀ c ∈ (m ++ u).head?, Bytes.isBlank c = false ∧ c ≠ 45 ∧ c ≠ 43 := by
    intro c hc
    rcases hm.head u c hc with hd | rfl
    · exact digit_solid hd
    · decide
  refine ⟨?_,fun _ c hc => (hhead c hc).2⟩
  intro c hc
  cases o with
  | none => exact (hhead c hc).1
  | some negative => cases negative <;> (cases hc; rfl)

theorem Mantissa.length_pos {m : Bytes} (hm : Mantissa m) : 0 < m.length := by
  cases hm with
  | whole hw hn => exact List.length_pos_of_ne_nil hn
  | pointed hw hn hf => simp only [List.length_append, List.length_cons]; omega
  | fraction hf hn => simp

theorem RealNumeral.length_pos {t : Bytes} (ht : RealNumeral t) : 0 < t.length := by
  cases ht with
  | mk hb o hm hp =>
    have := hm.length_pos
    simp only [List.length_append]
    omega

theorem RealNumeral.length_le {t : Bytes} (ht : RealNumeral t) (u : Bytes) :
    t.length ≤ (parseReal (t ++ u)).rest := by
  cases ht with
  | @mk b m p hb o hm hp =>
    have htaken := hm.taken hp u
    have hopen := hm.opening o (p ++ u)
    have hrest := (parseReal_opening hb hopen.1 hopen.2).2 htaken.1
    simp only [List.append_assoc, List.length_append] at htaken hrest ⊢
    omega

/-! ## What is taken is a real -/

theorem takeWhile_decimals (s : Bytes) : Decimals (s.takeWhile isDecimal) :=
  fun c hc => List.all_eq_true.mp List.all_takeWhile c hc

theorem exists_power (s : Bytes) :
    ∃ p u, s = p ++ u ∧ (p = [] ∨ Power p) ∧ p.length = (readExponent s).2 := by
  cases s with
  | nil => exact ⟨[],[],rfl,.inl rfl,rfl⟩
  | cons e s =>
    obtain ⟨o,r,rfl,ho⟩ := exists_sign s
    rw [readExponent]
    simp only [sign_signBytes ho, List.drop_left]
    split
    · rename_i h
      refine ⟨e :: (signBytes o ++ r.takeWhile isDecimal),r.dropWhile isDecimal,?_,
        .inr (.mk h.1 o (takeWhile_decimals r) h.2),?_⟩
      · simp [List.takeWhile_append_dropWhile]
      · simp only [List.length_cons, List.length_append]
        omega
    · exact ⟨[],_,rfl,.inl rfl,rfl⟩

theorem exists_fraction (s : Bytes) :
    ∃ g u, s = g ++ u ∧ g.length = (readFraction s).2 ∧
      (g = [] ∧ (readFraction s).1 = [] ∨ g = 46 :: (readFraction s).1) ∧
        Decimals (readFraction s).1 := by
  unfold readFraction
  split
  · rename_i s
    refine ⟨46 :: s.takeWhile isDecimal,s.dropWhile isDecimal,?_,?_,.inr rfl,takeWhile_decimals s⟩
    · rw [List.cons_append, List.takeWhile_append_dropWhile]
    · rw [List.length_cons, Nat.add_comm]
  · exact ⟨[],s,rfl,rfl,.inl ⟨rfl,rfl⟩,by simp [Decimals]⟩

theorem exists_taken {s : Bytes} (hs : ¬Bare s) :
    ∃ m p u, s = m ++ (p ++ u) ∧ Mantissa m ∧ (p = [] ∨ Power p) ∧ (m ++ p).length = taken s := by
  obtain ⟨g,r,hr,hlen,hg,hf⟩ := exists_fraction (s.dropWhile isDecimal)
  obtain ⟨p,u,rfl,hp,hexp⟩ := exists_power r
  have hdrop : (s.dropWhile isDecimal).drop g.length = p ++ u := by rw [hr, List.drop_left]
  have htaken : (s.takeWhile isDecimal ++ g ++ p).length = taken s := by
    simp only [taken, ← hlen, hdrop, ← hexp, List.length_append]
  refine ⟨s.takeWhile isDecimal ++ g,p,u,?_,?_,hp,htaken⟩
  · rw [List.append_assoc, ← hr, List.takeWhile_append_dropWhile]
  have hw := takeWhile_decimals s
  rcases hg with ⟨rfl,hnone⟩ | rfl
  · rw [List.append_nil]
    exact .whole hw fun h => hs ⟨h,hnone⟩
  · by_cases hwhole : s.takeWhile isDecimal = []
    · rw [hwhole]
      exact .fraction hf fun h => hs ⟨hwhole,h⟩
    · exact .pointed hw hwhole hf

theorem exists_real (s : Bytes) :
    (∃ t, t <+: s ∧ RealNumeral t ∧ t.length = (parseReal s).rest) ∨
      parseReal s = ⟨0.0,0,false⟩ := by
  have hb := head_dropWhile Bytes.isBlank s
  obtain ⟨o,r,hr,ho⟩ := exists_sign (s.dropWhile Bytes.isBlank)
  have hs : s = s.takeWhile Bytes.isBlank ++ (signBytes o ++ r) := by
    rw [← hr, List.takeWhile_append_dropWhile]
  have hblank : ∀ c ∈ s.takeWhile Bytes.isBlank, Bytes.isBlank c = true :=
    fun c hc => List.all_eq_true.mp List.all_takeWhile c hc
  rw [hr] at hb
  have hread := parseReal_opening hblank hb ho
  rw [← hs] at hread
  by_cases hbare : Bare r
  · exact .inr (hread.1 hbare)
  · obtain ⟨m,p,u,rfl,hm,hp,htaken⟩ := exists_taken hbare
    refine .inl ⟨_,⟨u,?_⟩,.mk hblank o hm hp,?_⟩
    · conv_rhs => rw [hs]
      simp only [List.append_assoc]
    · rw [hread.2 hbare, ← htaken]
      simp only [List.length_append]
      omega

theorem parseReal_rest_le (s : Bytes) : (parseReal s).rest ≤ s.length := by
  rcases exists_real s with ⟨t,ht,-,hlen⟩ | hnone
  · rw [← hlen]
    exact ht.length_le
  · rw [hnone]
    exact Nat.zero_le _

theorem RealNumeral.parseReal_rest {t : Bytes} (ht : RealNumeral t) :
    (parseReal t).rest = t.length := by
  have hge := ht.length_le []
  rw [List.append_nil] at hge
  exact Nat.le_antisymm (parseReal_rest_le t) hge

/-- Reading a real takes the longest one that stands at the start, with its
blanks and its sign. Where none stands there, it takes nothing and gives zero
without an overflow. -/
theorem longest_real_is_read (s : Bytes) :
    LongestPrefix RealNumeral s (parseReal s).rest ∨
      (∀ t, t <+: s → ¬RealNumeral t) ∧ parseReal s = ⟨0.0,0,false⟩ := by
  have hlongest : ∀ t, t <+: s → RealNumeral t → t.length ≤ (parseReal s).rest := by
    rintro t ⟨u,rfl⟩ ht
    exact ht.length_le u
  rcases exists_real s with ⟨t,hpre,ht,hlen⟩ | hnone
  · exact .inl ⟨t,hpre,ht,hlen,hlongest⟩
  · refine .inr ⟨?_,hnone⟩
    intro t hpre ht
    have hle := hlongest t hpre ht
    rw [hnone] at hle
    exact absurd ht.length_pos (Nat.not_lt.mpr hle)

end Freestanding.Numeral
