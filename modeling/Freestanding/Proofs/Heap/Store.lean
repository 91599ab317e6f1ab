import Freestanding.Heap.Arena
import Freestanding.Proofs.Heap.Layout

/-!
# The law of stores

A store may refuse any request, and may place what it hands out anywhere. All
that is asked of it is that a region has the size requested, starts at a
multiple of the alignment, ends within the addresses of a machine word and
overlaps no region handed out before. Arenas obey this law in every placement.
-/

set_option autoImplicit false

namespace Freestanding.Heap

variable {σ : Type} [Store σ]

def grants (s : σ) : List Nat → List (Nat × Region)
  | [] => []
  | bytes :: requests =>
    match Store.acquire bytes s with
    | (.ok r, s) => (bytes, r) :: grants s requests
    | (.error _, s) => grants s requests

structure Region.Answers (r : Region) (bytes : Nat) : Prop where
  size_eq : r.size = bytes
  aligned : r.start % alignment = 0
  bounded : r.finish ≤ wordLimit

/-- Whatever is asked of a store from now on, its regions answer the requests
and overlap neither one another nor those given before. -/
structure Lawful (given : List Region) (s : σ) : Prop where
  answers : ∀ requests, ∀ g ∈ grants s requests, g.2.Answers g.1
  apart : ∀ requests, (given ++ (grants s requests).map Prod.snd).Pairwise Region.Apart

namespace Lawful

variable {given : List Region} {s s' : σ} {bytes : Nat}

theorem granted (h : Lawful given s) {r : Region} (ha : Store.acquire bytes s = (.ok r, s')) :
    r.Answers bytes ∧ (∀ g ∈ given, r.Apart g) ∧ Lawful (given ++ [r]) s' := by
  have hg : ∀ requests, grants s (bytes :: requests) = (bytes, r) :: grants s' requests := by
    intro requests
    simp [grants, ha]
  refine ⟨?_,?_,?_,?_⟩
  · exact h.answers [bytes] (bytes, r) (by simp [hg])
  · intro g hgg
    have hp := h.apart [bytes]
    rw [hg] at hp
    exact ((List.pairwise_append.mp hp).2.2 g hgg r (by simp)).symm
  · intro requests g hm
    exact h.answers (bytes :: requests) g (by simp [hg, hm])
  · intro requests
    simpa [hg] using h.apart (bytes :: requests)

theorem refused (h : Lawful given s) {e : StoreError}
    (ha : Store.acquire bytes s = (.error e, s')) : Lawful given s' := by
  have hg : ∀ requests, grants s (bytes :: requests) = grants s' requests := by
    intro requests
    simp [grants, ha]
  constructor
  · intro requests g hm
    exact h.answers (bytes :: requests) g (by rwa [hg])
  · intro requests
    rw [← hg]
    exact h.apart (bytes :: requests)

theorem perm (h : Lawful given s) {given' : List Region} (hp : given.Perm given') :
    Lawful given' s :=
  ⟨h.answers,fun requests =>
    (List.Perm.pairwise_iff Region.Apart.symm (hp.append_right _)).mp (h.apart requests)⟩

/-- A store is lawful where some property of it and of the regions given so
far says that the next answer is right and holds again after it. -/
theorem of_invariant (I : List Region → σ → Prop)
    (hp : ∀ given s, I given s → given.Pairwise Region.Apart)
    (hg : ∀ given s bytes r s', I given s → Store.acquire bytes s = (.ok r, s') →
      r.Answers bytes ∧ I (given ++ [r]) s')
    (hr : ∀ given s bytes e s', I given s → Store.acquire bytes s = (.error e, s') → I given s')
    (h : I given s) : Lawful given s := by
  constructor
  · intro requests
    induction requests generalizing given s with
    | nil => simp [grants]
    | cons bytes requests ih =>
      intro g hm
      unfold grants at hm
      split at hm
      · next r s' ha =>
        obtain ⟨hb,hi⟩ := hg _ _ _ _ _ h ha
        rcases List.mem_cons.mp hm with rfl | hm
        · exact hb
        · exact ih hi g hm
      · next e s' ha => exact ih (hr _ _ _ _ _ h ha) g hm
  · intro requests
    induction requests generalizing given s with
    | nil => simpa [grants] using hp given s h
    | cons bytes requests ih =>
      unfold grants
      split
      · next r s' ha => simpa using ih (hg _ _ _ _ _ h ha).2
      · next e s' ha => exact ih (hr _ _ _ _ _ h ha)

end Lawful

namespace Span

/-- What a span keeps. Of the regions given, those on the side where it places
the next one all lie on the other side of that place. -/
structure Consistent (a : Span) (given : List Region) : Prop where
  apart : given.Pairwise Region.Apart
  above_aligned : a.above % alignment = 0
  below_aligned : a.below % alignment = 0
  high_le : a.high ≤ wordLimit
  below_le : a.below ≤ a.high
  up : a.placement ≠ .descending → ∀ g ∈ given, g.finish ≤ a.above
  down : a.placement = .descending ∨ a.placement = .alternating → ∀ g ∈ given, a.below ≤ g.start
  middle : a.placement = .alternating → a.below ≤ a.above

theorem goesUp_placement {a : Span} (h : a.goesUp = true) : a.placement ≠ .descending := by
  intro hp
  simp [goesUp, hp] at h

theorem goesDown_placement {a : Span} (h : a.goesUp = false) :
    a.placement = .descending ∨ a.placement = .alternating := by
  cases hp : a.placement <;> simp_all [goesUp]

theorem region_apart_of_le {r s : Region} (h : s.finish ≤ r.start) : s.Apart r := by
  intro x hx
  rw [Region.contains_iff] at hx
  rw [← Bool.not_eq_true, Region.contains_iff]
  omega

theorem pairwise_concat {given : List Region} {r : Region} (h : given.Pairwise Region.Apart)
    (hr : ∀ g ∈ given, g.Apart r) : (given ++ [r]).Pairwise Region.Apart :=
  List.pairwise_append.mpr ⟨h,List.pairwise_singleton _ r,by simpa using hr⟩

theorem Consistent.place {given : List Region} {a a' : Span} {bytes : Nat} {r : Region}
    (h : Consistent a given) (hb : bytes % alignment = 0) (hp : a.place? bytes = some (r, a')) :
    r.Answers bytes ∧ Consistent a' (given ++ [r]) := by
  have hab := h.above_aligned
  have hbe := h.below_aligned
  have hhi := h.high_le
  have hbh := h.below_le
  have hmid := h.middle
  simp only [alignment] at *
  unfold place? at hp
  cases hu : a.goesUp with
  | true =>
    have hn := goesUp_placement hu
    have hup := h.up hn
    simp only [hu, if_true, Option.ite_none_right_eq_some, Option.some.injEq, Prod.mk.injEq] at hp
    obtain ⟨hle,rfl,rfl⟩ := hp
    have hgap : (if a.placement = .spaced then gap else 0) % 8 = 0 := by split <;> rfl
    refine ⟨⟨rfl,hab,Nat.le_trans hle hhi⟩,?_⟩
    refine ⟨pairwise_concat h.apart fun g hg => region_apart_of_le (hup g hg),?_,hbe,hhi,hbh,?_,?_,?_⟩
    · simp only [alignment]
      omega
    · intro _ g hg
      rcases List.mem_append.mp hg with hg | hg
      · have := hup g hg
        simp only
        omega
      · rw [List.mem_singleton.mp hg]
        simp only [Region.finish]
        omega
    · intro hd g hg
      rcases List.mem_append.mp hg with hg | hg
      · exact h.down hd g hg
      · rw [List.mem_singleton.mp hg]
        exact hmid (hd.resolve_left hn)
    · intro halt
      have := hmid halt
      simp only
      omega
  | false =>
    have hdown := h.down (goesDown_placement hu)
    simp only [hu, Bool.false_eq_true, if_false, Option.ite_none_right_eq_some, Option.some.injEq,
      Prod.mk.injEq] at hp
    obtain ⟨hle,rfl,rfl⟩ := hp
    have hfin : (⟨a.below - bytes,bytes⟩ : Region).finish = a.below := by
      simp only [Region.finish]
      omega
    have hsep : ∀ g ∈ given, g.Apart ⟨a.below - bytes,bytes⟩ := by
      intro g hg
      apply Region.Apart.symm
      apply region_apart_of_le
      rw [hfin]
      exact hdown g hg
    refine ⟨⟨rfl,by simp only [alignment]; omega,by rw [hfin]; omega⟩,?_⟩
    refine ⟨pairwise_concat h.apart hsep,hab,by simp only [alignment]; omega,hhi,
      by simp only; omega,?_,?_,?_⟩
    · intro hn g hg
      rcases List.mem_append.mp hg with hg | hg
      · exact h.up hn g hg
      · rw [List.mem_singleton.mp hg, hfin]
        exact hmid ((goesDown_placement hu).resolve_left hn)
    · intro _ g hg
      rcases List.mem_append.mp hg with hg | hg
      · have := hdown g hg
        simp only
        omega
      · rw [List.mem_singleton.mp hg]
    · intro halt
      have := hmid halt
      simp only
      omega

theorem reserve_ok {a a' : Span} {bytes : Nat} {r : Region} (h : a.reserve bytes = (some r, a')) :
    a.place? bytes = some (r, a') := by
  unfold reserve at h
  split_ifs at h
  · simp at h
  · cases hp : a.place? bytes with
    | none => simp [hp] at h
    | some p =>
      simp only [hp, Prod.mk.injEq, Option.some.injEq] at h
      exact congrArg some (Prod.ext h.1 h.2)

theorem reserve_none {a a' : Span} {bytes : Nat} (h : a.reserve bytes = (none, a')) : a' = a := by
  unfold reserve at h
  split_ifs at h
  · exact (Prod.mk.inj h).2.symm
  · split at h
    · simp at h
    · exact (Prod.mk.inj h).2.symm

end Span

namespace Metered

variable {π : Type} [Platform π] {s s' : Metered π} {bytes : Nat}

structure Granted (s : Metered π) (bytes : Nat) (r : Region) (s' : Metered π) : Prop where
  aligned : bytes % alignment = 0
  reserved : Platform.reserve bytes s.platform = (some r, s'.platform)
  acquired : s'.acquired = s.acquired + bytes
  limit : s'.limit = s.limit
  within : ∀ n, s.limit = some n → s.acquired + bytes ≤ n

structure Withheld (s : Metered π) (bytes : Nat) (s' : Metered π) : Prop where
  acquired : s'.acquired = s.acquired
  limit : s'.limit = s.limit
  platform : s'.platform = s.platform ∨ Platform.reserve bytes s.platform = (none, s'.platform)

theorem acquire_ok {r : Region} (h : s.acquire bytes = (.ok r, s')) : s.Granted bytes r s' := by
  unfold acquire at h
  split at h
  · cases h
  · rename_i hn
    split_ifs at h with hz
    · cases h
    · split at h
      · rename_i r platform hr
        cases h
        simp only [not_or, not_not] at hz
        refine ⟨hz.2.1,hr,rfl,rfl,fun n hl => ?_⟩
        simpa [passedLimit?, hl, Option.filter] using hn
      · cases h

theorem acquire_error {e : StoreError} (h : s.acquire bytes = (.error e, s')) :
    s.Withheld bytes s' := by
  unfold acquire at h
  split at h
  · cases h
    exact ⟨rfl,rfl,Or.inl rfl⟩
  · split_ifs at h
    · cases h
      exact ⟨rfl,rfl,Or.inl rfl⟩
    · split at h
      · cases h
      · rename_i platform hr
        cases h
        exact ⟨rfl,rfl,Or.inr hr⟩

end Metered

namespace Arena

theorem lawful {given : List Region} {a : Arena} (h : a.platform.Consistent given) :
    Lawful given a := by
  apply Lawful.of_invariant fun given a => a.platform.Consistent given
  · exact fun given a h => h.apart
  · intro given a bytes r a' h ha
    have hg := Metered.acquire_ok ha
    exact h.place hg.aligned (Span.reserve_ok hg.reserved)
  · intro given a bytes e a' h ha
    rcases (Metered.acquire_error ha).platform with hp | hp
    · rw [hp]
      exact h
    · rw [Span.reserve_none hp]
      exact h
  · exact h

theorem bounded_lawful (p : Placement) (limit : Option Nat) : Lawful [] (bounded p limit) := by
  apply lawful
  have hb : base % alignment = 0 := by decide
  have hm : (base + Span.extent / 2) % alignment = 0 := by decide
  have ht : (base + Span.extent) % alignment = 0 := by decide
  have hl : base + Span.extent ≤ wordLimit := by decide
  have hh : base + Span.extent / 2 ≤ base + Span.extent := by decide
  cases p
  · exact ⟨.nil,hb,ht,hl,Nat.le_refl _,by simp,by simp,by simp [bounded, Span.bounded]⟩
  · exact ⟨.nil,hb,ht,hl,Nat.le_refl _,by simp,by simp,by simp [bounded, Span.bounded]⟩
  · exact ⟨.nil,hb,ht,hl,Nat.le_refl _,by simp,by simp,by simp [bounded, Span.bounded]⟩
  · exact ⟨.nil,hm,hm,hl,hh,by simp,by simp,fun _ => Nat.le_refl _⟩

theorem unbounded_lawful (limit : Option Nat) : Lawful [] (unbounded limit) := by
  apply lawful
  have hb : base % alignment = 0 := by decide
  have hw : wordLimit % alignment = 0 := by decide
  exact ⟨.nil,hb,hw,Nat.le_refl _,Nat.le_refl _,by simp,by simp,by simp [unbounded, Span.unbounded]⟩

end Arena

end Freestanding.Heap
