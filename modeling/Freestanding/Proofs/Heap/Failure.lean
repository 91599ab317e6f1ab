import Freestanding.Proofs.Heap.Contents

/-!
# Requests that fail

A request that fails leaves regions, blocks and memory as they were. What it
may have done is count, write in the journal and ask the store for one region
that was refused. An operation made of several steps can fail only in its
allocation, which is its first step that changes anything: the lookups behind
a successful allocation find what they look for.
-/

set_option autoImplicit false

namespace Freestanding.Heap

variable {σ : Type}

structure SameContents (h h' : Heap σ) : Prop where
  regions : h'.regions = h.regions
  blocks : h'.blocks = h.blocks
  memory : h'.memory = h.memory

namespace SameContents

theorem refl (h : Heap σ) : SameContents h h := ⟨rfl,rfl,rfl⟩

theorem capacity {h h' : Heap σ} (hc : SameContents h h') (p : Nat) :
    h'.capacity p = h.capacity p := by
  simp only [Heap.capacity, findLive, findBlock, hc.regions, hc.blocks]

theorem payload {h h' : Heap σ} (hc : SameContents h h') (p : Nat) :
    h'.payload p = h.payload p := by
  simp only [Heap.payload, hc.capacity, hc.memory]

end SameContents

def Counters.fail (c : Counters) (r : Request) : HeapError → Counters
  | .outOfMemory _ =>
    match r with
    | .resize (some _) _ => { c with resizes := c.resizes + 1, failures := c.failures + 1 }
    | _ => { c with failures := c.failures + 1 }
  | _ => c

theorem Counters.fail_outOfMemory (c : Counters) {r : Request}
    (hr : ∀ p n, r ≠ .resize (some p) n) (s : Shortage) :
    c.fail r (.outOfMemory s) = { c with failures := c.failures + 1 } := by
  simp only [Counters.fail]

theorem freeAt_failed {h h' : Heap σ} {p : Nat} {e : HeapError}
    (hf : h.freeAt p = (.error e, h')) :
    h' = h ∧ (e = .invalidPointer p ∨ e = .doubleFree p) := by
  unfold freeAt at hf
  split at hf
  · rename_i hb
    cases hf
    exact ⟨rfl,Or.inl (findBlock_error hb)⟩
  · split_ifs at hf
    · cases hf
      exact ⟨rfl,Or.inr rfl⟩
    · cases hf

theorem writeAt_failed {h h' : Heap σ} {p place : Nat} {s : Bytes} {e : HeapError}
    (hw : h.writeAt p place s = (.error e, h')) : h' = h ∧ e = .invalidPointer p := by
  unfold writeAt at hw
  split at hw
  · rename_i hc
    cases hw
    exact ⟨rfl,capacity_error hc⟩
  · split_ifs at hw <;> cases hw

theorem answered_failed {α : Type} {f : α → Option Nat} {o : Outcome σ α} {e : HeapError}
    {h' : Heap σ} (ho : answered f o = (.error e, h')) : o = (.error e, h') := by
  obtain ⟨a,h⟩ := o
  cases a with
  | ok x => cases ho
  | error d =>
    cases ho
    rfl

variable [Store σ]

/-- A store was asked for nothing, or for one region that it refused. -/
def Refused (s s' : σ) : Prop :=
  s' = s ∨ ∃ bytes cause, Store.acquire bytes s = (.error cause, s')

def CountsGrants (σ : Type) [Store σ] : Prop :=
  ∀ bytes (s s' : σ) cause, Store.acquire bytes s = (.error cause, s') →
    Store.acquired s' = Store.acquired s

theorem Metered.counts_grants (π : Type) [Platform π] : CountsGrants (Metered π) := by
  intro bytes s s' cause h
  exact (Metered.acquire_error h).acquired

theorem Refused.acquired {s s' : σ} (h : Refused s s') (hg : CountsGrants σ) :
    Store.acquired s' = Store.acquired s := by
  rcases h with rfl | ⟨bytes,cause,ha⟩
  · rfl
  · exact hg bytes s s' cause ha

structure Failed (h : Heap σ) (r : Request) (e : HeapError) (h' : Heap σ) : Prop
    extends SameContents h h' where
  store : Refused h.store h'.store
  counters : h'.counters = h.counters.fail r e
  kind : ∀ d, e ≠ .corrupt d
  live : ∀ p n s, r = .resize (some p) n → e = .outOfMemory s → h.Live p

/-! ## Allocation -/

theorem grow_failed {h h' : Heap σ} {size total : Nat} {e : HeapError}
    (hg : h.grow size total = (.error e, h')) :
    SameContents h h' ∧ Refused h.store h'.store ∧ e = h'.outOfMemory size ∧
      h'.counters = h.counters := by
  unfold grow at hg
  split at hg
  · cases hg
    exact ⟨.refl h,Or.inl rfl,rfl,rfl⟩
  · rename_i bytes _
    split at hg
    · rename_i cause store ha
      cases hg
      exact ⟨⟨rfl,rfl,rfl⟩,Or.inr ⟨bytes,cause,ha⟩,rfl,rfl⟩
    · cases hg

theorem allocate_failed {h h' : Heap σ} {size : Nat} {e : HeapError}
    (ha : h.allocate size = (.error e, h')) :
    SameContents h h' ∧ Refused h.store h'.store ∧
      (size = 0 ∧ e = .zeroSize ∧ h'.counters = h.counters ∨
        size ≠ 0 ∧ e = h'.outOfMemory size ∧
          h'.counters = { h.counters with failures := h.counters.failures + 1 }) := by
  by_cases hz : size = 0
  · simp only [allocate, if_pos hz] at ha
    cases ha
    exact ⟨.refl h,Or.inl rfl,Or.inl ⟨hz,rfl,rfl⟩⟩
  · simp only [allocate, if_neg hz] at ha
    split at ha
    · cases ha
      exact ⟨⟨rfl,rfl,rfl⟩,Or.inl rfl,Or.inr ⟨hz,rfl,rfl⟩⟩
    · split at ha
      · cases ha
      · split at ha
        · rename_i cause h₁ hg
          obtain ⟨hs,hr,rfl,hc⟩ := grow_failed hg
          cases ha
          refine ⟨⟨hs.regions,hs.blocks,hs.memory⟩,hr,Or.inr ⟨hz,rfl,?_⟩⟩
          simp only [Heap.note, countFailure, hc]
        · cases ha

/-! ## Behind a successful allocation -/

theorem capacity_after_allocate {h h' : Heap σ} (hs : Sound h) {size p : Nat}
    (ha : h.allocate size = (.ok p, h')) : ∃ n, h'.capacity p = .ok n ∧ size ≤ n := by
  rcases allocate_change hs size with ⟨b,h₁,hb,hn,hc⟩ | ⟨e,h₁,he,-⟩
  · rw [ha] at hb
    cases hb
    exact ⟨b.capacity,(capacity_ok_iff hc.sound.arranged _ _).mpr ⟨b,hc.fresh_mem,rfl,rfl⟩,hn⟩
  · rw [ha] at he
    cases he

theorem freeAt_after_allocate {h h' : Heap σ} (hs : Sound h) {size p q : Nat}
    (ha : h.allocate size = (.ok p, h')) (hq : h.Live q) (m : Memory) :
    ∃ h'', { h' with memory := m }.freeAt q = (.ok (), h'') := by
  obtain ⟨b,hb,rfl⟩ := (live_iff hs.arranged q).mp hq
  rcases allocate_change hs size with ⟨c,h₁,hc,-,hch⟩ | ⟨e,h₁,he,-⟩
  · rw [ha] at hc
    cases hc
    have hs' : Sound { h' with memory := m } :=
      ⟨hch.sound.arranged,hch.sound.lawful,hch.sound.increment_aligned,hch.sound.increment_pos⟩
    obtain ⟨h'',hf,-⟩ := freeAt_change hs' (hch.stays hb (by simp))
    exact ⟨h'',hf⟩
  · rw [ha] at he
    cases he

/-! ## The operations -/

theorem allocateZeroed_failed {h h' : Heap σ} {count size : Nat} {e : HeapError}
    (ha : h.allocateZeroed count size = (.error e, h')) :
    e = .sizeOverflow count size ∧ h' = h ∨ h.allocate (count * size) = (.error e, h') := by
  by_cases hw : count * size < wordLimit
  · simp only [allocateZeroed, wordMul?, if_pos hw] at ha
    split at ha
    · rename_i hf
      cases ha
      exact Or.inr hf
    · cases ha
  · simp only [allocateZeroed, wordMul?, if_neg hw] at ha
    cases ha
    exact Or.inl ⟨rfl,rfl⟩

theorem duplicateUpTo_failed {h h' : Heap σ} (hs : Sound h) {s : Bytes} {n : Nat} {e : HeapError}
    (hd : h.duplicateUpTo s n = (.error e, h')) :
    h.allocate (((Bytes.text s).take n).length + 1) = (.error e, h') := by
  simp only [duplicateUpTo] at hd
  split at hd
  · rename_i hf
    cases hd
    exact hf
  · rename_i p h₁ ha
    obtain ⟨c,hc,-⟩ := capacity_after_allocate hs ha
    simp only [hc] at hd
    cases hd

theorem relocate_failed {h h' : Heap σ} (hs : Sound h) {p kept size : Nat} (hp : h.Live p)
    {e : HeapError} (hr : h.relocate p kept size = (.error e, h')) :
    h.allocate size = (.error e, h') := by
  unfold relocate at hr
  split at hr
  · rename_i hf
    cases hr
    exact hf
  · rename_i q h₁ ha
    obtain ⟨h₂,hf⟩ := freeAt_after_allocate hs ha hp (h₁.memory.copy q p (min kept size))
    simp only [hf] at hr
    cases hr

def countResize (h : Heap σ) : Heap σ :=
  { h with counters := { h.counters with resizes := h.counters.resizes + 1 } }

theorem Sound.countResize {h : Heap σ} (hs : Sound h) : Sound h.countResize :=
  ⟨hs.arranged,hs.lawful,hs.increment_aligned,hs.increment_pos⟩

theorem resizeAt_failed {h h' : Heap σ} (hs : Sound h) {p size : Nat} {e : HeapError}
    (hr : h.resizeAt p size = (.error e, h')) :
    e = .invalidPointer p ∧ h' = h ∨ h.Live p ∧ h.countResize.allocate size = (.error e, h') := by
  unfold resizeAt at hr
  split at hr
  · rename_i hl
    cases hr
    exact Or.inl ⟨findLive_error hl,rfl⟩
  · rename_i b hl
    have hlive : h.Live p := ⟨b.capacity,by simp only [capacity, hl]⟩
    split_ifs at hr
    · cases hr
    · exact Or.inr ⟨hlive,relocate_failed hs.countResize hlive hr⟩

/-! ## Every request -/

namespace Failed

variable {h h' : Heap σ} {r : Request} {e : HeapError}

theorem unchanged (ho : ∀ s, e ≠ .outOfMemory s) (hk : ∀ d, e ≠ .corrupt d) : Failed h r e h where
  toSameContents := .refl h
  store := Or.inl rfl
  counters := by
    cases e with
    | outOfMemory s => exact absurd rfl (ho s)
    | _ => rfl
  kind := hk
  live := fun p n s _ he => absurd he (ho s)

theorem of_allocate (hr : ∀ p n, r ≠ .resize (some p) n) {size : Nat}
    (ha : h.allocate size = (.error e, h')) : Failed h r e h' := by
  obtain ⟨hc,hst,⟨-,rfl,hk⟩ | ⟨-,rfl,hk⟩⟩ := allocate_failed ha
  · refine ⟨hc,hst,?_,by simp,by simp⟩
    exact hk
  · refine ⟨hc,hst,?_,by simp [outOfMemory],fun p n s he => absurd he (hr p n)⟩
    rw [hk, outOfMemory, Counters.fail_outOfMemory _ hr]

theorem of_resize {p size : Nat} (hlive : h.Live p) (hz : size ≠ 0)
    (ha : h.countResize.allocate size = (.error e, h')) :
    Failed h (.resize (some p) size) e h' := by
  obtain ⟨hc,hst,⟨h0,-⟩ | ⟨-,rfl,hk⟩⟩ := allocate_failed ha
  · exact absurd h0 hz
  · refine ⟨⟨hc.regions,hc.blocks,hc.memory⟩,hst,hk,by simp [outOfMemory],?_⟩
    intro q n s hq _
    cases hq
    exact hlive

theorem of_freeAt {p : Nat} (hf : h.freeAt p = (.error e, h')) : Failed h r e h' := by
  obtain ⟨rfl,rfl | rfl⟩ := freeAt_failed hf
  · exact unchanged (by simp) (by simp)
  · exact unchanged (by simp) (by simp)

end Failed

theorem resize_failed {h h' : Heap σ} (hs : Sound h) {address : Option Nat} {size : Nat}
    {e : HeapError} (hr : h.resize address size = (.error e, h')) :
    Failed h (.resize address size) e h' := by
  cases address with
  | none =>
    simp only [resize] at hr
    split at hr
    · rename_i ha
      cases hr
      exact .of_allocate (by simp) ha
    · cases hr
  | some p =>
    by_cases hz : size = 0
    · simp only [resize, if_pos hz] at hr
      split at hr
      · rename_i hf
        cases hr
        exact .of_freeAt hf
      · cases hr
    · simp only [resize, if_neg hz] at hr
      rcases resizeAt_failed hs hr with ⟨rfl,rfl⟩ | ⟨hlive,ha⟩
      · exact .unchanged (by simp) (by simp)
      · exact .of_resize hlive hz ha

theorem perform_failed {h h' : Heap σ} (hs : Sound h) {r : Request} {e : HeapError}
    (hp : h.perform r = (.error e, h')) : Failed h r e h' := by
  cases r with
  | allocate size => exact .of_allocate (by simp) (answered_failed hp)
  | allocateZeroed count size =>
    rcases allocateZeroed_failed (answered_failed hp) with ⟨rfl,rfl⟩ | ha
    · exact .unchanged (by simp) (by simp)
    · exact .of_allocate (by simp) ha
  | resize address size => exact resize_failed hs hp
  | free address =>
    cases address with
    | none => cases hp
    | some p => exact .of_freeAt (answered_failed hp)
  | duplicate s => exact .of_allocate (by simp) (duplicateUpTo_failed hs (answered_failed hp))
  | duplicateUpTo s n =>
    exact .of_allocate (by simp) (duplicateUpTo_failed hs (answered_failed hp))
  | write p place s =>
    obtain ⟨rfl,rfl⟩ := writeAt_failed (answered_failed hp)
    exact .unchanged (by simp) (by simp)

/-! ## Answers decided by the allocation -/

theorem resize_answer {h : Heap σ} (hs : Sound h) {p n size : Nat} (hp : h.capacity p = .ok n)
    (hn : n < size) : (h.resize (some p) size).1 = (h.countResize.allocate size).1.map some := by
  obtain ⟨b,hb,rfl,rfl⟩ := (capacity_ok_iff hs.arranged p n).mp hp
  have hl := (findLive_ok_iff hs.arranged b.payload b).mpr ⟨hb,rfl⟩
  have hmove : h.resize (some b.payload) size =
      h.countResize.relocate b.payload b.capacity size := by
    simp only [resize, if_neg (Nat.ne_zero_of_lt hn), resizeAt, hl, if_neg (Nat.not_le.mpr hn)]
    rfl
  have hlive : h.countResize.Live b.payload := ⟨b.capacity,hp⟩
  rw [hmove, relocate]
  cases ha : h.countResize.allocate size with
  | mk answer h₁ =>
    cases answer with
    | error e => rfl
    | ok q =>
      obtain ⟨h₂,hf⟩ := freeAt_after_allocate hs.countResize ha hlive
        (h₁.memory.copy q b.payload (min b.capacity size))
      simp only [hf]
      rfl

/-- Requests fail without a trace in what a heap holds. The last four fields are
about operations of several steps: once their allocation has succeeded, the
block it made and the block that is to be freed are found. -/
structure FailsCleanly (h : Heap σ) : Prop where
  failed : ∀ r e h', h.perform r = (.error e, h') → Failed h r e h'
  payload : ∀ r e h', h.perform r = (.error e, h') → ∀ p, h'.payload p = h.payload p
  acquired : CountsGrants σ → ∀ r e h', h.perform r = (.error e, h') →
    Store.acquired h'.store = Store.acquired h.store
  resized : ∀ p size s e h', h.payload p = .ok s → h.resize (some p) size = (.error e, h') →
    h'.payload p = .ok s
  resize_answer : ∀ p n size, h.capacity p = .ok n → n < size →
    (h.resize (some p) size).1 = (h.countResize.allocate size).1.map some
  copy_answer : ∀ s n, (h.duplicateUpTo s n).1 =
    (h.allocate (min n (Bytes.textLength s) + 1)).1
  found : ∀ size p h', h.allocate size = (.ok p, h') → ∃ n, h'.capacity p = .ok n ∧ size ≤ n
  freed : ∀ size p h', h.countResize.allocate size = (.ok p, h') → ∀ q m, h.Live q →
    ∃ h'', { h' with memory := m }.freeAt q = (.ok (), h'')

/-- In every heap that a run can reach, a request that fails changes nothing but
counters. -/
theorem run_fails_cleanly (config : Config) (store : σ) (hl : Lawful [] store)
    (requests : List Request) : FailsCleanly ((Heap.empty config store).after requests) := by
  have hs := after_sound (empty_sound config hl) requests
  constructor
  case failed => exact fun r e h' hp => perform_failed hs hp
  case payload => exact fun r e h' hp => (perform_failed hs hp).payload
  case acquired => exact fun hg r e h' hp => (perform_failed hs hp).store.acquired hg
  case resized =>
    intro p size s e h' hp hr
    rw [(resize_failed hs hr).payload, hp]
  case resize_answer => exact fun p n size hp hn => resize_answer hs hp hn
  case copy_answer => exact duplicateUpTo_answer hs
  case found => exact fun size p h' ha => capacity_after_allocate hs ha
  case freed => exact fun size p h' ha q m hq => freeAt_after_allocate hs.countResize ha hq m

theorem limited_run_fails_cleanly :
    Lawful [] (Arena.bounded .ascending (some 128)) ∧ CountsGrants Arena ∧
    FailsCleanly ((Heap.empty { increment := 64 } (Arena.bounded .ascending (some 128))).after
      [.duplicate [104, 105], .allocate 8]) ∧
    ∃ s, (((Heap.empty { increment := 64 } (Arena.bounded .ascending (some 128))).after
      [.duplicate [104, 105], .allocate 8]).perform (.resize (some 35184372088856) 200)).1 =
        .error (.outOfMemory s) :=
  ⟨Arena.bounded_lawful _ _,Metered.counts_grants Span,
    run_fails_cleanly _ _ (Arena.bounded_lawful _ _) _,_,rfl⟩

end Freestanding.Heap
