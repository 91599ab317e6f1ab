import Freestanding.Proofs.Heap.Run

/-!
# Contents

Headers lie in the same memory as what allocations hold, and every request
writes some. What an allocation holds changes only by requests about that
allocation all the same, and the headers always spell out the list of blocks. A
resize carries the contents over, as many bytes as fit on both sides, and
leaves the heap as it is when there is room. Zeroed allocations and copies of
texts hold what they are named for, whatever was in memory before.
-/

set_option autoImplicit false

namespace Freestanding.Heap

variable {σ : Type}

theorem text_append_nul {s t : Bytes} (h : ∀ c ∈ s, c ≠ 0) : Bytes.text (s ++ 0 :: t) = s := by
  rw [Bytes.text_append h]
  simp [Bytes.text]

/-! ## Payloads -/

theorem payload_ok_iff {h : Heap σ} (ha : Arranged h.regions h.blocks) (p : Nat) (s : Bytes) :
    h.payload p = .ok s ↔
      ∃ b ∈ used h.blocks, b.payload = p ∧ h.memory.read p b.capacity = s := by
  constructor
  · intro hp
    cases hc : h.capacity p with
    | error e => simp [payload, hc] at hp
    | ok n =>
      obtain ⟨b,hb,hbp,rfl⟩ := (capacity_ok_iff ha p n).mp hc
      simp only [payload, hc, Except.ok.injEq] at hp
      exact ⟨b,hb,hbp,hp⟩
  · rintro ⟨b,hb,hbp,rfl⟩
    have hc := (capacity_ok_iff ha p b.capacity).mpr ⟨b,hb,hbp,rfl⟩
    simp only [payload, hc]

variable [Store σ]

theorem Change.payload_kept {h h' : Heap σ} {gone fresh : List Block}
    (hs : Sound h) (hc : Change h gone fresh h') {p : Nat} {s : Bytes}
    (hp : h.payload p = .ok s) (hg : ∀ b ∈ gone, b.payload ≠ p)
    (hn : ∀ b ∈ used h.blocks, b ∈ fresh → b ∈ gone) :
    h'.payload p = .ok s := by
  obtain ⟨b,hb,rfl,rfl⟩ := (payload_ok_iff hs.arranged p s).mp hp
  have hbg : b ∉ gone := fun hm => hg b hm rfl
  have hb' := hc.stays hb hbg
  refine (payload_ok_iff hc.sound.arranged _ _).mpr ⟨b,hb',rfl,?_⟩
  apply Memory.read_congr
  intro i hi
  have hroom := (hs.arranged.sized b (mem_used.mp hb).1).payload_add_capacity
  exact hc.kept b hb' (fun hm => hbg (hn b hb hm)) _ (Nat.le_add_right _ _) (by omega)

theorem Step.payload_kept {h h' : Heap σ} (hs : Sound h) {r : Request} {a : Answer}
    (hr : Step h r a h') {p : Nat} {s : Bytes} (hp : h.payload p = .ok s)
    (ht : r.target? ≠ some p) : h'.payload p = .ok s := by
  cases hr with
  | refused hc => exact hc.payload_kept hs hp (by simp) (by simp)
  | met _ he =>
    apply he.toChange.payload_kept hs hp
    · intro b hb hbp
      have hm := List.mem_map_of_mem (f := Block.payload) hb
      rw [he.gone_payload, hbp] at hm
      exact ht (Option.mem_toList.mp hm)
    · exact fun b hb hf => he.fresh_gone b hf hb
  | @written b place text _ hb hc =>
    apply hc.payload_kept hs hp
    · intro c hcb hcp
      rw [List.mem_singleton.mp hcb] at hcp
      exact ht (congrArg some hcp)
    · simp

theorem Step.payload_refused {h h' : Heap σ} (hs : Sound h) {r : Request} {e : HeapError}
    (hr : Step h r (.error e) h') {p : Nat} {s : Bytes} (hp : h.payload p = .ok s) :
    h'.payload p = .ok s := by
  cases hr with
  | refused hc => exact hc.payload_kept hs hp (by simp) (by simp)

theorem after_payload_kept {h : Heap σ} (hs : Sound h) {p : Nat} {s : Bytes}
    (hp : h.payload p = .ok s) {rs : List Request} (ht : ∀ r ∈ rs, r.target? ≠ some p) :
    (h.after rs).payload p = .ok s := by
  induction rs generalizing h with
  | nil => exact hp
  | cons r rs ih =>
    have hr := perform_step hs r
    have hp' := hr.payload_kept hs hp (ht r (by simp))
    exact ih hr.sound hp' fun q hq => ht q (by simp [hq])

theorem payload_headers_apart {h : Heap σ} (hs : Sound h) {p : Nat} {s : Bytes}
    (hp : h.payload p = .ok s) {c : Block} (hc : c ∈ h.blocks) :
    c.address + headerSize ≤ p ∨ p + s.length ≤ c.address := by
  obtain ⟨b,hb,rfl,rfl⟩ := (payload_ok_iff hs.arranged p s).mp hp
  have hb := (mem_used.mp hb).1
  rw [Memory.read_length, (hs.arranged.sized b hb).payload_add_capacity]
  exact hs.arranged.header_apart hb hc

/-! ## What the operations put into an allocation -/

theorem resizeAt_contents {h h' : Heap σ} (hs : Sound h) {p n : Nat} {a : Option Nat}
    (hr : h.resizeAt p n = (.ok a, h')) : ∃ p' s s', a = some p' ∧ h.payload p = .ok s ∧
      h'.payload p' = .ok s' ∧ n ≤ s'.length ∧
      s'.take (min s.length n) = s.take (min s.length n) := by
  rcases findLive_cases hs p with ⟨b,hb,rfl⟩ | he
  · have hp := (payload_ok_iff hs.arranged _ _).mpr ⟨b,hb,rfl,rfl⟩
    by_cases hn : n ≤ b.capacity
    · obtain ⟨h'',heq,-,-,hm,hc⟩ := resizeAt_kept hs hb hn
      rw [heq] at hr
      cases hr
      refine ⟨_,_,_,rfl,hp,hc.payload_kept hs hp (by simp) (by simp),?_,rfl⟩
      rw [Memory.read_length]
      exact hn
    · rcases resizeAt_moved hs hb hn with ⟨c,h'',heq,hroom,hnew,hc,hcopy⟩ | ⟨e,h'',heq,-⟩
      · rw [heq] at hr
        cases hr
        have hmem := (Effect.move hc hb hnew hroom).fresh_used c (by simp)
        refine ⟨_,_,_,rfl,hp,(payload_ok_iff hc.sound.arranged _ _).mpr ⟨c,hmem,rfl,rfl⟩,?_,?_⟩
        · rw [Memory.read_length]
          exact hroom
        · rw [Memory.read_length, Memory.read_take _ (by omega), Memory.read_take _ (by omega)]
          exact Memory.read_congr hcopy
      · rw [heq] at hr
        cases hr
  · simp only [resizeAt, he] at hr
    cases hr

theorem allocateZeroed_contents {h h' : Heap σ} (hs : Sound h) {count size p : Nat}
    (hz : h.allocateZeroed count size = (.ok p, h')) : ∃ s, h'.payload p = .ok s ∧
      count * size ≤ s.length ∧ s.take (count * size) = List.replicate (count * size) 0 := by
  rcases allocateZeroed_change hs count size with ⟨b,h'',heq,hn,hc,hzero⟩ | ⟨e,h'',heq,-⟩
  · rw [heq] at hz
    cases hz
    refine ⟨_,(payload_ok_iff hc.sound.arranged _ _).mpr ⟨b,hc.fresh_mem,rfl,rfl⟩,?_,?_⟩
    · rw [Memory.read_length]
      exact hn
    · rw [Memory.read_take _ hn, Memory.read_zero hzero]
  · rw [heq] at hz
    cases hz

theorem duplicateUpTo_contents {h h' : Heap σ} (hs : Sound h) {text : Bytes} {n p : Nat}
    (hd : h.duplicateUpTo text n = (.ok p, h')) :
    ∃ s, h'.payload p = .ok s ∧ Bytes.text s = (Bytes.text text).take n := by
  rcases duplicateUpTo_change hs text n with ⟨b,h'',heq,hn,hc,m,hm⟩ | ⟨e,h'',heq,-⟩
  · rw [heq] at hd
    cases hd
    refine ⟨_,(payload_ok_iff hc.sound.arranged _ _).mpr ⟨b,hc.fresh_mem,rfl,rfl⟩,?_⟩
    let copy := (Bytes.text text).take n ++ [0]
    have hlen : copy.length ≤ b.capacity := by
      simp only [copy, List.length_append, List.length_take, List.length_singleton]
      exact hn
    have hread : (h'.memory.read b.payload b.capacity).take copy.length = copy := by
      rw [Memory.read_take _ hlen, hm, Memory.read_write]
    rw [← List.take_append_drop copy.length (h'.memory.read b.payload b.capacity), hread,
      List.append_assoc]
    exact text_append_nul fun c hc => Bytes.ne_zero_of_mem_text (List.mem_of_mem_take hc)
  · rw [heq] at hd
    cases hd

theorem allocateZeroed_answer (h : Heap σ) {count size : Nat} (hw : count * size < wordLimit) :
    (h.allocateZeroed count size).1 = (h.allocate (count * size)).1 := by
  simp only [allocateZeroed, wordMul?, if_pos hw]
  rcases h.allocate (count * size) with ⟨_ | _,h'⟩ <;> rfl

theorem duplicateUpTo_answer {h : Heap σ} (hs : Sound h) (text : Bytes) (n : Nat) :
    (h.duplicateUpTo text n).1 = (h.allocate (min n (Bytes.textLength text) + 1)).1 := by
  have hl : ((Bytes.text text).take n).length = min n (Bytes.textLength text) := List.length_take
  rw [← hl]
  rcases allocate_change hs (((Bytes.text text).take n).length + 1) with
    ⟨b,h',ha,-,hc⟩ | ⟨e,h',ha,-⟩
  · have hcap := (capacity_ok_iff hc.sound.arranged _ _).mpr ⟨b,hc.fresh_mem,rfl,rfl⟩
    simp only [duplicateUpTo, ha, hcap]
  · simp only [duplicateUpTo, ha]

/-- Contents are safe in a heap: `kept` for one request and `kept_through` for
any number of them, as long as none is about the allocation. The list of blocks
is `chained` by the headers in memory, and no header of a block lies in a
payload. The rest says what the operations put into the allocation that they
answer. -/
structure KeepsContents (h : Heap σ) : Prop where
  kept : ∀ r p s, h.payload p = .ok s → r.target? ≠ some p → (h.perform r).2.payload p = .ok s
  kept_through : ∀ rs p s, h.payload p = .ok s → (∀ r ∈ rs, r.target? ≠ some p) →
    (h.after rs).payload p = .ok s
  refused : ∀ r e p s, (h.perform r).1 = .error e → h.payload p = .ok s →
    (h.perform r).2.payload p = .ok s
  chained : ∀ n, h.blocks.length ≤ n →
    walk h.memory.header n (firstAddress? h.blocks) = h.blocks
  headers_apart : ∀ p s, h.payload p = .ok s →
    ∀ b ∈ h.blocks, b.address + headerSize ≤ p ∨ p + s.length ≤ b.address
  resized : ∀ p n a h', 0 < n → h.resize (some p) n = (.ok a, h') →
    ∃ p' s s', a = some p' ∧ h.payload p = .ok s ∧ h'.payload p' = .ok s' ∧ n ≤ s'.length ∧
      s'.take (min s.length n) = s.take (min s.length n)
  in_place : ∀ p n s, 0 < n → h.payload p = .ok s → n ≤ s.length →
    ∃ h', h.resize (some p) n = (.ok (some p), h') ∧ h'.blocks = h.blocks ∧
      h'.regions = h.regions ∧ h'.memory = h.memory
  zeroed : ∀ count size p h', h.allocateZeroed count size = (.ok p, h') →
    ∃ s, h'.payload p = .ok s ∧ count * size ≤ s.length ∧
      s.take (count * size) = List.replicate (count * size) 0
  zeroed_answer : ∀ count size, count * size < wordLimit →
    (h.allocateZeroed count size).1 = (h.allocate (count * size)).1
  copied : ∀ text n p h', h.duplicateUpTo text n = (.ok p, h') →
    ∃ s, h'.payload p = .ok s ∧ Bytes.text s = (Bytes.text text).take n
  copied_whole : ∀ text p h', h.duplicate text = (.ok p, h') →
    ∃ s, h'.payload p = .ok s ∧ Bytes.text s = Bytes.text text
  copied_answer : ∀ text n,
    (h.duplicateUpTo text n).1 = (h.allocate (min n (Bytes.textLength text) + 1)).1

/-- Every heap that a run can reach keeps contents safe. -/
theorem run_keeps_contents (config : Config) (store : σ) (hl : Lawful [] store)
    (requests : List Request) : KeepsContents ((Heap.empty config store).after requests) := by
  have hs := after_sound (empty_sound config hl) requests
  have ht := after_threaded config hl requests
  constructor
  case kept => exact fun r p s hp ht => (perform_step hs r).payload_kept hs hp ht
  case kept_through => exact fun rs p s hp ht => after_payload_kept hs hp ht
  case refused =>
    intro r e p s he hp
    have hr := perform_step hs r
    rw [he] at hr
    exact hr.payload_refused hs hp
  case chained => exact fun n hn => ht.linked.walk hn
  case headers_apart => exact fun p s hp b hb => payload_headers_apart hs hp hb
  case resized =>
    intro p n a h' hn hr
    simp only [resize, if_neg (Nat.ne_of_gt hn)] at hr
    exact resizeAt_contents hs hr
  case in_place =>
    intro p n s hn hp hroom
    obtain ⟨b,hb,rfl,rfl⟩ := (payload_ok_iff hs.arranged p s).mp hp
    rw [Memory.read_length] at hroom
    obtain ⟨h',hr,hbl,hre,hm,-⟩ := resizeAt_kept hs hb hroom
    refine ⟨h',?_,hbl,hre,hm⟩
    simp only [resize, if_neg (Nat.ne_of_gt hn), hr]
  case zeroed => exact fun count size p h' => allocateZeroed_contents hs
  case zeroed_answer => exact fun count size => allocateZeroed_answer _
  case copied => exact fun text n p h' => duplicateUpTo_contents hs
  case copied_whole =>
    intro text p h' hd
    obtain ⟨s,hp,ht⟩ := duplicateUpTo_contents hs hd
    exact ⟨s,hp,by rw [ht, Bytes.textLength, List.take_length]⟩
  case copied_answer => exact duplicateUpTo_answer hs

theorem filled_run_keeps_contents :
    Lawful [] (Arena.bounded .spaced none) ∧
    KeepsContents ((Heap.empty { increment := 64, fill := some 170 }
      (Arena.bounded .spaced none)).after
        [.duplicate [104, 105, 0, 106], .allocateZeroed 4 6, .resize (some 35184372088856) 300]) :=
  ⟨Arena.bounded_lawful _ _,run_keeps_contents _ _ (Arena.bounded_lawful _ _) _⟩

/-- The second of two neighbours is taken in by the first. What is allocated in
their place has the header of the second among its bytes. -/
example : ((Heap.empty { increment := 4096 } (Arena.bounded .spaced none)).after
    [.allocate 8, .allocate 8, .allocate 8, .free (some 35184372088856),
      .free (some 35184372088888), .allocate 40]).payload 35184372088856 =
    .ok [0, 0, 0, 0, 0, 0, 0, 0, 32, 0, 0, 0, 0, 0, 0, 0, 64, 0, 0, 0, 0, 32, 0, 0,
      1, 0, 0, 0, 0, 0, 0, 0, 0, 0, 0, 0, 0, 0, 0, 0] := by
  decide +kernel

end Freestanding.Heap
