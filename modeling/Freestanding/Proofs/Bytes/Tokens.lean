import Freestanding.Bytes.Tokens
import Freestanding.Proofs.Numeral.Spelling

/-!
# Tokens lose nothing

Each call uses up delimiters, a token and the delimiter behind it, and leaves the
rest as it is. So the text is what the calls used up one after the other, with
what is left at the end, however the delimiters changed in between. Under one set
of delimiters the tokens are the maximal runs of other bytes.
-/

set_option autoImplicit false

namespace Freestanding.Tokens

open Numeral (takeWhile_append_end head_dropWhile)

/-! ## One call -/

/-- A call under delimiters `d`: what it uses up, its answer and what it leaves. -/
inductive Takes (d : Bytes) : Bytes → Option Bytes → Bytes → Prop
  | nothing {skipped : Bytes} (hs : ∀ c ∈ skipped, c ∈ d) : Takes d skipped none []
  | last {skipped token : Bytes} (hs : ∀ c ∈ skipped, c ∈ d) (hn : token ≠ [])
      (ht : ∀ c ∈ token, c ∉ d) : Takes d (skipped ++ token) (some token) []
  | ended {skipped token : Bytes} {e : UInt8} (left : Bytes) (hs : ∀ c ∈ skipped, c ∈ d)
      (hn : token ≠ []) (ht : ∀ c ∈ token, c ∉ d) (he : e ∈ d) :
      Takes d (skipped ++ (token ++ [e])) (some token) left

theorem Takes.none_iff {d used left : Bytes} {answer : Option Bytes}
    (h : Takes d used answer left) : answer = none ↔ ∀ c ∈ used ++ left, c ∈ d := by
  cases h with
  | nothing hs => simpa using hs
  | @last skipped token hs hn ht =>
    obtain ⟨c,hc⟩ := List.exists_mem_of_ne_nil token hn
    simp only [reduceCtorEq, false_iff]
    exact fun hall => ht c hc (hall c (by simp [hc]))
  | @ended skipped token e left hs hn ht he =>
    obtain ⟨c,hc⟩ := List.exists_mem_of_ne_nil token hn
    simp only [reduceCtorEq, false_iff]
    exact fun hall => ht c hc (hall c (by simp [hc]))

theorem Takes.left_nil {d used left : Bytes} (h : Takes d used none left) : left = [] := by
  cases h
  rfl

structure Clean (t : Tokens) : Prop where
  rest : ∀ c ∈ t.rest, c ≠ 0
  delimiters : ∀ c ∈ t.delimiters, c ≠ 0

theorem clean_ofText (s d : Bytes) : Clean (ofText s d) where
  rest := fun _ => Bytes.ne_zero_of_mem_text
  delimiters := fun _ => Bytes.ne_zero_of_mem_text

theorem Clean.setDelimiters {t : Tokens} (h : t.Clean) (d : Bytes) : (t.setDelimiters d).Clean where
  rest := h.rest
  delimiters := fun _ => Bytes.ne_zero_of_mem_text

section Runs

variable {d s t : Bytes} (hd : ∀ c ∈ d, c ≠ 0) (hz : ∀ c ∈ s ++ t, c ≠ 0)
include hd hz

theorem spanOf_append (hs : ∀ c ∈ s, c ∈ d) (ht : ∀ c ∈ t.head?, c ∉ d) :
    Bytes.spanOf d (s ++ t) = s.length := by
  rw [Bytes.spanOf, Bytes.text_eq_self hd, Bytes.text_eq_self hz, takeWhile_append_end]
  · simpa using hs
  · simpa using ht

theorem spanOutside_append (hs : ∀ c ∈ s, c ∉ d) (ht : ∀ c ∈ t.head?, c ∈ d) :
    Bytes.spanOutside d (s ++ t) = s.length := by
  rw [Bytes.spanOutside, Bytes.text_eq_self hd, Bytes.text_eq_self hz, takeWhile_append_end]
  · simpa using hs
  · simpa using ht

end Runs

theorem next_nothing {d skipped : Bytes} (h : Clean ⟨skipped,d⟩) (hs : ∀ c ∈ skipped, c ∈ d) :
    next ⟨skipped,d⟩ = (none,⟨[],d⟩) := by
  have hspan := spanOf_append (t := []) h.delimiters (by simpa using h.rest) hs (by simp)
  rw [List.append_nil] at hspan
  simp [next, hspan]

theorem next_token {d skipped token r : Bytes} (h : Clean ⟨skipped ++ (token ++ r),d⟩)
    (hs : ∀ c ∈ skipped, c ∈ d) (hn : token ≠ []) (ht : ∀ c ∈ token, c ∉ d)
    (hr : ∀ c ∈ r.head?, c ∈ d) :
    next ⟨skipped ++ (token ++ r),d⟩ = (some token,⟨r.tail,d⟩) := by
  have hhead : ∀ c ∈ (token ++ r).head?, c ∉ d := by
    intro c hc
    rw [List.head?_append_of_ne_nil _ hn] at hc
    exact ht c (List.mem_of_mem_head? hc)
  have hskip := spanOf_append h.delimiters h.rest hs hhead
  have hzero : ∀ c ∈ token ++ r, c ≠ 0 := fun c hc => h.rest c (List.mem_append_right _ hc)
  have hspan := spanOutside_append h.delimiters hzero ht hr
  have hne : (token ++ r).isEmpty = false := by simp [hn]
  have hdrop : (token ++ r).drop (token.length + 1) = r.tail := by
    rw [← List.drop_drop, List.drop_left, List.drop_one]
  simp only [next, hskip, List.drop_left, hne, Bool.false_eq_true, if_false, hspan,
    List.take_left, hdrop]

theorem next_takes {t : Tokens} (h : t.Clean) : ∃ used, t.rest = used ++ t.next.2.rest ∧
    Takes t.delimiters used t.next.1 t.next.2.rest ∧ t.next.2.delimiters = t.delimiters := by
  obtain ⟨rest,d⟩ := t
  obtain ⟨skipped,b,rfl,hs,hb⟩ : ∃ a b, rest = a ++ b ∧ (∀ c ∈ a, c ∈ d) ∧ ∀ c ∈ b.head?, c ∉ d :=
    ⟨rest.takeWhile d.contains,rest.dropWhile d.contains,by simp,
      fun c hc => by simpa using List.all_eq_true.mp List.all_takeWhile c hc,
      fun c hc => by simpa using head_dropWhile d.contains rest c hc⟩
  by_cases hbn : b = []
  · subst hbn
    rw [List.append_nil] at h ⊢
    rw [next_nothing h hs]
    exact ⟨skipped,by simp,.nothing hs,rfl⟩
  · obtain ⟨token,r,rfl,ht,hr⟩ :
        ∃ a r, b = a ++ r ∧ (∀ c ∈ a, c ∉ d) ∧ ∀ c ∈ r.head?, c ∈ d :=
      ⟨b.takeWhile fun c => !d.contains c,b.dropWhile fun c => !d.contains c,by simp,
        fun c hc => by simpa using List.all_eq_true.mp List.all_takeWhile c hc,
        fun c hc => by simpa using head_dropWhile (fun c => !d.contains c) b c hc⟩
    have hn : token ≠ [] := by
      rintro rfl
      obtain ⟨c,hc⟩ := Option.isSome_iff_exists.mp (List.isSome_head?.mpr (by simpa using hbn))
      exact hb c hc (hr c hc)
    rw [next_token h hs hn ht hr]
    cases r with
    | nil => exact ⟨skipped ++ token,by simp,.last hs hn ht,rfl⟩
    | cons e left =>
      exact ⟨skipped ++ (token ++ [e]),by simp,.ended left hs hn ht (hr e rfl),rfl⟩

theorem Clean.next {t : Tokens} (h : t.Clean) : t.next.2.Clean := by
  obtain ⟨used,hrest,-,hd⟩ := next_takes h
  refine ⟨fun c hc => h.rest c ?_,fun c hc => h.delimiters c (hd ▸ hc)⟩
  rw [hrest]
  exact List.mem_append_right _ hc

/-! ## All calls -/

def change (t : Tokens) (new : Option Bytes) : Tokens := new.elim t t.setDelimiters

theorem Clean.change {t : Tokens} (h : t.Clean) (new : Option Bytes) : (t.change new).Clean := by
  cases new with
  | none => exact h
  | some d => exact h.setDelimiters d

theorem change_rest (t : Tokens) (new : Option Bytes) : (t.change new).rest = t.rest := by
  cases new <;> rfl

def calls (t : Tokens) : List (Option Bytes) → List (Option Bytes) × Tokens
  | [] => ([], t)
  | new :: more =>
    let after := (t.nextUnder new).2.calls more
    ((t.nextUnder new).1 :: after.1, after.2)

def inForce (d : Bytes) : List (Option Bytes) → List Bytes
  | [] => []
  | new :: more => (new.elim d Bytes.text) :: inForce (new.elim d Bytes.text) more

structure Call where
  delimiters : Bytes
  used : Bytes
  answer : Option Bytes

def usedBy (log : List Call) : Bytes := log.flatMap Call.used

/-- A log of calls, each of which takes what it used from what was left to it: what the
later ones used and what is left at the end. -/
inductive Logged (left : Bytes) : List Call → Prop
  | nil : Logged left []
  | cons {c : Call} {log : List Call} (hc : Takes c.delimiters c.used c.answer (usedBy log ++ left))
      (h : Logged left log) : Logged left (c :: log)

theorem calls_logged {t : Tokens} (h : t.Clean) (changes : List (Option Bytes)) :
    ∃ log : List Call, log.map Call.answer = (t.calls changes).1 ∧
      log.map Call.delimiters = inForce t.delimiters changes ∧
      t.rest = usedBy log ++ (t.calls changes).2.rest ∧ Logged (t.calls changes).2.rest log := by
  induction changes generalizing t with
  | nil => exact ⟨[],rfl,rfl,rfl,.nil⟩
  | cons new changes ih =>
    obtain ⟨used,hrest,htakes,hd⟩ := next_takes (h.change new)
    obtain ⟨log,hanswers,hforce,hleft,hlog⟩ := ih (h.change new).next
    refine ⟨⟨(t.change new).delimiters,used,(t.change new).next.1⟩ :: log,?_,?_,?_,?_⟩
    · rw [List.map_cons, hanswers]
      rfl
    · rw [List.map_cons, hforce, hd]
      cases new <;> rfl
    · rw [← change_rest t new, hrest, hleft, usedBy, usedBy, List.flatMap_cons, List.append_assoc]
      rfl
    · rw [hleft] at htakes
      exact .cons htakes hlog

theorem Logged.takes {left : Bytes} {before after : List Call} {c : Call}
    (h : Logged left (before ++ c :: after)) :
    Takes c.delimiters c.used c.answer (usedBy after ++ left) := by
  induction before with
  | nil =>
    cases h with
    | cons hc _ => exact hc
  | cons b before ih =>
    cases h with
    | cons _ h => exact ih h

/-! ## Maximal runs -/

/-- A run of bytes outside `d` that starts at place `i` of `s` and cannot be made longer. -/
def MaximalRun (d s : Bytes) (i : Nat) (run : Bytes) : Prop :=
  run ≠ [] ∧ (∀ c ∈ run, c ∉ d) ∧ ∃ u v, s = u ++ (run ++ v) ∧ u.length = i ∧
    (∀ c ∈ u.getLast?, c ∈ d) ∧ ∀ c ∈ v.head?, c ∈ d

section MaximalRun

variable {d : Bytes}

theorem maximalRun_mem {s run : Bytes} {i : Nat} (h : MaximalRun d s i run) : ∃ c ∈ s, c ∉ d := by
  obtain ⟨hn,hrun,u,v,rfl,-⟩ := h
  obtain ⟨c,hc⟩ := List.exists_mem_of_ne_nil run hn
  exact ⟨c,by simp [hc],hrun c hc⟩

theorem maximalRun_append {a b run : Bytes} {e : UInt8} (he : e ∈ d) {i : Nat} :
    MaximalRun d (a ++ e :: b) i run ↔
      MaximalRun d a i run ∨ ∃ j, i = a.length + 1 + j ∧ MaximalRun d b j run := by
  constructor
  · rintro ⟨hn,hrun,u,v,h,rfl,hu,hv⟩
    rcases List.append_eq_append_iff.mp h with ⟨x,rfl,hx⟩ | ⟨x,rfl,hx⟩
    · cases x with
      | nil =>
        cases run with
        | nil => exact absurd rfl hn
        | cons c run =>
          obtain ⟨rfl,-⟩ := List.cons.inj hx
          exact absurd he (hrun e (by simp))
      | cons c x =>
        obtain ⟨rfl,rfl⟩ := List.cons.inj hx
        refine Or.inr ⟨x.length,by simp; omega,hn,hrun,x,v,rfl,rfl,fun b hb => hu b ?_,hv⟩
        rw [List.getLast?_append, List.getLast?_cons, Option.mem_def.mp hb]
        rfl
    · rcases List.append_eq_append_iff.mp hx with ⟨y,rfl,hy⟩ | ⟨y,rfl,hy⟩
      · refine Or.inl ⟨hn,hrun,u,y,rfl,rfl,hu,fun c hc => hv c ?_⟩
        rw [hy, List.head?_append, Option.mem_def.mp hc]
        rfl
      · cases y with
        | nil =>
          rw [List.append_nil] at hn hrun ⊢
          exact Or.inl ⟨hn,hrun,u,[],by simp,rfl,hu,by simp⟩
        | cons c y =>
          obtain ⟨rfl,-⟩ := List.cons.inj hy
          exact absurd he (hrun e (by simp))
  · rintro (⟨hn,hrun,u,v,rfl,rfl,hu,hv⟩ | ⟨j,rfl,hn,hrun,u,v,rfl,rfl,hu,hv⟩)
    · refine ⟨hn,hrun,u,v ++ e :: b,by simp,rfl,hu,fun c hc => ?_⟩
      cases v with
      | nil =>
        obtain rfl := Option.some.inj hc
        exact he
      | cons b v => exact hv c hc
    · refine ⟨hn,hrun,a ++ e :: u,v,by simp,by simp; omega,fun c hc => ?_,hv⟩
      cases u with
      | nil =>
        obtain rfl : e = c := by simpa using hc
        exact he
      | cons b u => exact hu c (by simpa using hc)

theorem maximalRun_all {s run : Bytes} (hn : s ≠ []) (hs : ∀ c ∈ s, c ∉ d) {i : Nat} :
    MaximalRun d s i run ↔ i = 0 ∧ run = s := by
  constructor
  · rintro ⟨-,-,u,v,rfl,rfl,hu,hv⟩
    have hu' : u = [] := by
      by_contra hne
      have hlast := hu _ (List.getLast?_eq_some_getLast hne)
      exact hs _ (by simp) hlast
    have hv' : v = [] := by
      cases v with
      | nil => rfl
      | cons c v => exact absurd (hv c rfl) (hs c (by simp))
    simp [hu', hv']
  · rintro ⟨rfl,rfl⟩
    exact ⟨hn,hs,[],[],by simp,rfl,by simp,by simp⟩

theorem maximalRun_skipped {skipped s run : Bytes} (hs : ∀ c ∈ skipped, c ∈ d) {i : Nat} :
    MaximalRun d (skipped ++ s) i run ↔ ∃ j, i = skipped.length + j ∧ MaximalRun d s j run := by
  induction skipped generalizing i with
  | nil => simp
  | cons e skipped ih =>
    have hnil : ∀ k, ¬MaximalRun d [] k run := by
      intro k h
      obtain ⟨c,hc,-⟩ := maximalRun_mem h
      simp at hc
    have hparted : MaximalRun d (e :: (skipped ++ s)) i run ↔ _ :=
      maximalRun_append (a := []) (hs e (by simp))
    rw [List.cons_append, hparted]
    simp only [hnil, false_or, ih fun c hc => hs c (List.mem_cons_of_mem e hc), List.length_cons,
      List.length_nil]
    constructor
    · rintro ⟨j,rfl,k,rfl,h⟩
      exact ⟨k,by omega,h⟩
    · rintro ⟨k,rfl,h⟩
      exact ⟨skipped.length + k,by omega,k,rfl,h⟩

theorem maximalRun_ended {skipped token left run : Bytes} {e : UInt8} (hs : ∀ c ∈ skipped, c ∈ d)
    (hn : token ≠ []) (ht : ∀ c ∈ token, c ∉ d) (he : e ∈ d) {i : Nat} :
    MaximalRun d (skipped ++ (token ++ e :: left)) i run ↔
      (i = skipped.length ∧ run = token) ∨
      ∃ j, i = skipped.length + token.length + 1 + j ∧ MaximalRun d left j run := by
  simp only [maximalRun_skipped hs, maximalRun_append he, maximalRun_all hn ht]
  constructor
  · rintro ⟨j,rfl,⟨rfl,rfl⟩ | ⟨k,rfl,h⟩⟩
    · exact Or.inl ⟨by omega,rfl⟩
    · exact Or.inr ⟨k,by omega,h⟩
  · rintro (⟨rfl,rfl⟩ | ⟨k,rfl,h⟩)
    · exact ⟨0,by omega,Or.inl ⟨rfl,rfl⟩⟩
    · exact ⟨token.length + 1 + k,by omega,Or.inr ⟨k,rfl,h⟩⟩

end MaximalRun

/-! ## One set of delimiters -/

structure RunsOf (d s : Bytes) (runs : List (Nat × Bytes)) : Prop where
  ordered : runs.Pairwise fun p q => p.1 < q.1
  mem_iff : ∀ i run, (i,run) ∈ runs ↔ MaximalRun d s i run

theorem runsOf_delimiters {d s : Bytes} (hs : ∀ c ∈ s, c ∈ d) : RunsOf d s [] where
  ordered := .nil
  mem_iff := by
    intro i run
    simp only [List.not_mem_nil, false_iff]
    intro h
    obtain ⟨c,hc,hn⟩ := maximalRun_mem h
    exact hn (hs c hc)

theorem runsOf_last {d skipped token : Bytes} (hs : ∀ c ∈ skipped, c ∈ d) (hn : token ≠ [])
    (ht : ∀ c ∈ token, c ∉ d) : RunsOf d (skipped ++ token) [(skipped.length,token)] where
  ordered := List.pairwise_singleton _ _
  mem_iff := by
    intro i run
    simp [maximalRun_skipped hs, maximalRun_all hn ht]

theorem runsOf_ended {d skipped token left : Bytes} {e : UInt8} {runs : List (Nat × Bytes)}
    (hs : ∀ c ∈ skipped, c ∈ d) (hn : token ≠ []) (ht : ∀ c ∈ token, c ∉ d) (he : e ∈ d)
    (h : RunsOf d left runs) : RunsOf d (skipped ++ (token ++ e :: left)) ((skipped.length,token) ::
      runs.map fun p => (skipped.length + token.length + 1 + p.1,p.2)) where
  ordered := by
    refine List.pairwise_cons.mpr ⟨fun p hp => ?_,?_⟩
    · obtain ⟨q,-,rfl⟩ := List.mem_map.mp hp
      simp only
      omega
    · exact h.ordered.map _ fun p q hpq => Nat.add_lt_add_left hpq _
  mem_iff := by
    intro i run
    rw [maximalRun_ended hs hn ht he]
    simp only [List.mem_cons, Prod.mk.injEq, List.mem_map, Prod.exists, h.mem_iff]
    constructor
    · rintro (hi | ⟨j,r,hr,rfl,rfl⟩)
      · exact Or.inl hi
      · exact Or.inr ⟨j,rfl,hr⟩
    · rintro (hi | ⟨j,rfl,hr⟩)
      · exact Or.inl hi
      · exact Or.inr ⟨j,run,hr,rfl,rfl⟩

theorem calls_spent {t : Tokens} (h : t.Clean) (ht : ∀ c ∈ t.rest, c ∈ t.delimiters) (n : Nat) :
    (t.calls (List.replicate n none)).1 = List.replicate n none := by
  induction n generalizing t with
  | zero => rfl
  | succ n ih =>
    have hnext : t.nextUnder none = (none,⟨[],t.delimiters⟩) := next_nothing h ht
    have hclean : Clean ⟨[],t.delimiters⟩ := ⟨by simp,h.delimiters⟩
    simp only [List.replicate_succ, calls, hnext, ih hclean (by simp)]

theorem calls_runs {t : Tokens} (h : t.Clean) : ∃ runs, RunsOf t.delimiters t.rest runs ∧
    ∀ n, (t.calls (List.replicate n none)).1 =
      (List.range n).map fun i => runs[i]?.map Prod.snd := by
  induction hk : t.rest.length using Nat.strongRecOn generalizing t with
  | ind k ih =>
    obtain ⟨used,hrest,htakes,hd⟩ := next_takes h
    have hclean := h.next
    have hcalls : ∀ n, (t.calls (List.replicate (n + 1) none)).1 =
        t.next.1 :: (t.next.2.calls (List.replicate n none)).1 := fun n => rfl
    generalize t.next = after at hrest htakes hd hclean hcalls
    obtain ⟨answer,left,d⟩ := after
    obtain rfl : d = t.delimiters := hd
    -- Only a token that a delimiter ends leaves anything to the calls behind it.
    cases htakes with
    | nothing hs =>
      rw [List.append_nil] at hrest
      rw [← hrest] at hs
      refine ⟨[],runsOf_delimiters hs,fun n => ?_⟩
      rw [calls_spent h hs]
      simp [List.map_const']
    | @last skipped token hs hn ht =>
      rw [List.append_nil] at hrest
      refine ⟨[(skipped.length,token)],hrest ▸ runsOf_last hs hn ht,fun n => ?_⟩
      cases n with
      | zero => rfl
      | succ n =>
        rw [hcalls, calls_spent hclean (by simp), List.range_succ_eq_map]
        simp [List.map_const', Function.comp_def]
    | @ended skipped token e left hs hn ht he =>
      have hshort : left.length < k := by
        rw [← hk, hrest]
        simp only [List.length_append, List.length_singleton]
        omega
      obtain ⟨runs,hruns,hanswers⟩ := ih left.length hshort hclean rfl
      have hwhole : t.rest = skipped ++ (token ++ e :: left) := by simpa using hrest
      refine ⟨_,hwhole ▸ runsOf_ended hs hn ht he hruns,fun n => ?_⟩
      cases n with
      | zero => rfl
      | succ n =>
        rw [hcalls, hanswers, List.range_succ_eq_map]
        simp [Function.comp_def]

/-- However the delimiters change, the text is what the calls use up one after the
other and what is left: each call skips delimiters in force, takes a token without
any and drops the delimiter behind it. A call answers nothing exactly if nothing
but delimiters was left to it, and leaves nothing then. Under one set of delimiters
the tokens are the maximal runs of other bytes. -/
theorem tokens_lose_nothing (s d : Bytes) :
    (∀ changes, ∃ log : List Call,
      log.map Call.answer = ((ofText s d).calls changes).1 ∧
      log.map Call.delimiters = inForce (Bytes.text d) changes ∧
      Bytes.text s = usedBy log ++ ((ofText s d).calls changes).2.rest ∧
      ∀ before c after left, log = before ++ c :: after →
        left = usedBy after ++ ((ofText s d).calls changes).2.rest →
        Takes c.delimiters c.used c.answer left ∧
        (c.answer = none ↔ ∀ b ∈ c.used ++ left, b ∈ c.delimiters) ∧
        (c.answer = none → left = [])) ∧
    ∃ runs : List (Nat × Bytes), runs.Pairwise (fun p q => p.1 < q.1) ∧
      (∀ i run, (i,run) ∈ runs ↔ MaximalRun (Bytes.text d) (Bytes.text s) i run) ∧
      ∀ n, ((ofText s d).calls (List.replicate n none)).1 =
        (List.range n).map fun i => runs[i]?.map Prod.snd := by
  constructor
  · intro changes
    obtain ⟨log,hanswers,hforce,htext,hlog⟩ := calls_logged (clean_ofText s d) changes
    refine ⟨log,hanswers,hforce,htext,?_⟩
    rintro before c after left rfl rfl
    have htakes := hlog.takes
    refine ⟨htakes,htakes.none_iff,fun hn => ?_⟩
    rw [hn] at htakes
    exact htakes.left_nil
  · obtain ⟨runs,hruns,hanswers⟩ := calls_runs (clean_ofText s d)
    exact ⟨runs,hruns.ordered,hruns.mem_iff,hanswers⟩

theorem changed_delimiters_lose_nothing :
    (∃ (c e : Call) (log : List Call), log = [c, e] ∧ c.answer = some [107] ∧
      e.answer = some [118] ∧ c.delimiters = [61] ∧ e.delimiters = [32] ∧
      [107, 61, 118, 32, 119] = c.used ++ e.used ++ [119] ∧
      Takes [61] c.used (some [107]) (e.used ++ [119]) ∧ Takes [32] e.used (some [118]) [119]) ∧
    ∃ runs : List (Nat × Bytes),
      (∀ i run, (i,run) ∈ runs ↔
        MaximalRun [44, 59] [44, 44, 97, 44, 98, 59, 59, 99, 44] i run) ∧
      (List.range 4).map (fun i => runs[i]?.map Prod.snd) =
        [some [97], some [98], some [99], none] := by
  constructor
  · obtain ⟨log,hanswers,hforce,htext,hlog⟩ :=
      (tokens_lose_nothing [107, 61, 118, 32, 119] [61]).1 [none, some [32]]
    obtain ⟨c,log,rfl,hc,hanswers⟩ := List.map_eq_cons_iff.mp hanswers
    obtain ⟨e,log,rfl,he,hanswers⟩ := List.map_eq_cons_iff.mp hanswers
    obtain rfl := List.map_eq_nil_iff.mp hanswers
    obtain ⟨hcd,hforce⟩ := List.cons.inj hforce
    obtain ⟨hed,-⟩ := List.cons.inj hforce
    have hused : usedBy [c, e] = c.used ++ e.used := by simp [usedBy]
    have hlast : usedBy [e] = e.used := by simp [usedBy]
    have hfirst := (hlog [] c [e] (e.used ++ [119]) rfl (by rw [hlast]; rfl)).1
    have hsecond := (hlog [c] e [] [119] rfl rfl).1
    rw [hc, hcd] at hfirst
    rw [he, hed] at hsecond
    rw [hused] at htext
    exact ⟨c,e,_,rfl,hc,he,hcd,hed,htext,hfirst,hsecond⟩
  · obtain ⟨runs,-,hruns,hanswers⟩ :=
      (tokens_lose_nothing [44, 44, 97, 44, 98, 59, 59, 99, 44] [44, 59]).2
    exact ⟨runs,hruns,(hanswers 4).symm⟩

end Freestanding.Tokens
