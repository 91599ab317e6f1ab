import Freestanding.Proofs.Heap.Change

/-!
# Requests

The operations of a heap as one type of requests, with the one form of answer
they share: an address, nothing, or an error. For every request it is said
which blocks in use are gone afterwards, which are fresh, and how they belong
to the addresses in the request and in the answer.
-/

set_option autoImplicit false

namespace Freestanding.Heap

variable {σ : Type}

inductive Request
  | allocate (size : Nat)
  | allocateZeroed (count size : Nat)
  | resize (address : Option Nat) (size : Nat)
  | free (address : Option Nat)
  | duplicate (s : Bytes)
  | duplicateUpTo (s : Bytes) (n : Nat)
  | write (address place : Nat) (s : Bytes)
  deriving DecidableEq, Repr

abbrev Answer := Except HeapError (Option Nat)

namespace Request

def target? : Request → Option Nat
  | resize address _ => address
  | free address => address
  | write address _ _ => some address
  | _ => none

def size : Request → Nat
  | allocate size => size
  | allocateZeroed count size => count * size
  | resize _ size => size
  | duplicate s => Bytes.textLength s + 1
  | duplicateUpTo s n => min n (Bytes.textLength s) + 1
  | _ => 0

end Request

def answered {α : Type} (f : α → Option Nat) (o : Outcome σ α) : Answer × Heap σ :=
  (o.1.map f, o.2)

theorem answered_ok {α : Type} {f : α → Option Nat} {o : Outcome σ α} {x : α} {h : Heap σ}
    (ho : o = (.ok x, h)) : answered f o = (.ok (f x), h) := by
  rw [ho]
  rfl

theorem answered_error {α : Type} {f : α → Option Nat} {o : Outcome σ α} {e : HeapError}
    {h : Heap σ} (ho : o = (.error e, h)) : answered f o = (.error e, h) := by
  rw [ho]
  rfl

variable [Store σ]

/-- Carry out a request. -/
def perform (h : Heap σ) : Request → Answer × Heap σ
  | .allocate size => answered some (h.allocate size)
  | .allocateZeroed count size => answered some (h.allocateZeroed count size)
  | .resize address size => h.resize address size
  | .free address => answered (fun _ => none) (h.free address)
  | .duplicate s => answered some (h.duplicate s)
  | .duplicateUpTo s n => answered some (h.duplicateUpTo s n)
  | .write address place s => answered (fun _ => none) (h.writeAt address place s)

/-! ## Allocating with contents -/

theorem allocateZeroed_change {h : Heap σ} (hs : Sound h) (count size : Nat) :
    (∃ b h', h.allocateZeroed count size = (.ok b.payload, h') ∧ count * size ≤ b.capacity ∧
      Change h [] [b] h' ∧ ∀ i < count * size, h'.memory.byte (b.payload + i) = 0) ∨
    ∃ e h', h.allocateZeroed count size = (.error e, h') ∧ e.Blameless ∧ Change h [] [] h' := by
  by_cases hw : count * size < wordLimit
  · rcases allocate_change hs (count * size) with ⟨b,h',ha,hn,hc⟩ | ⟨e,h',ha,he,hc⟩
    · have heq : h.allocateZeroed count size =
          (.ok b.payload, { h' with memory := h'.memory.fill b.payload (count * size) 0 }) := by
        simp only [allocateZeroed, wordMul?, if_pos hw, ha]
      refine Or.inl ⟨b,_,heq,hn,?_,?_⟩
      · refine hc.store (by simpa using hc.fresh_mem) _ fun a hout => ?_
        apply Memory.fill_outside
        have := hout b (by simp)
        simp only [Block.capacity, Block.payload, Block.finish] at *
        omega
      · intro i hi
        simp only [Memory.fill]
        rw [if_pos (by omega)]
    · exact Or.inr ⟨e,h',by simp only [allocateZeroed, wordMul?, if_pos hw, ha],he,hc⟩
  · exact Or.inr ⟨.sizeOverflow count size,h,by simp only [allocateZeroed, wordMul?, if_neg hw],
      fun a => ⟨by simp,by simp⟩,Change.refl hs⟩

theorem duplicateUpTo_change {h : Heap σ} (hs : Sound h) (s : Bytes) (n : Nat) :
    (∃ b h', h.duplicateUpTo s n = (.ok b.payload, h') ∧
      min n (Bytes.textLength s) + 1 ≤ b.capacity ∧ Change h [] [b] h' ∧
      ∃ m : Memory, h'.memory = m.write b.payload ((Bytes.text s).take n ++ [0])) ∨
    ∃ e h', h.duplicateUpTo s n = (.error e, h') ∧ e.Blameless ∧ Change h [] [] h' := by
  have hl : ((Bytes.text s).take n).length = min n (Bytes.textLength s) := List.length_take
  rcases allocate_change hs (((Bytes.text s).take n).length + 1) with
    ⟨b,h',ha,hn,hc⟩ | ⟨e,h',ha,he,hc⟩
  · have hcap := (capacity_ok_iff hc.sound.arranged _ _).mpr ⟨b,hc.fresh_mem,rfl,rfl⟩
    have heq : h.duplicateUpTo s n = (.ok b.payload,
        { h' with memory := h'.memory.write b.payload ((Bytes.text s).take n ++ [0]) }) := by
      simp only [duplicateUpTo, ha, hcap]
    refine Or.inl ⟨b,_,heq,hl ▸ hn,?_,h'.memory,rfl⟩
    refine hc.store (by simpa using hc.fresh_mem) _ fun a hout => ?_
    apply Memory.write_outside
    have := hout b (by simp)
    simp only [Block.capacity, Block.payload, Block.finish, List.length_append,
      List.length_singleton] at *
    omega
  · exact Or.inr ⟨e,h',by simp only [duplicateUpTo, ha],he,hc⟩

/-! ## Resizing and writing -/

theorem relocate_change {h : Heap σ} (hs : Sound h) {b : Block} (hb : b ∈ used h.blocks)
    (size : Nat) :
    (∃ c h', h.relocate b.payload b.capacity size = (.ok (some c.payload), h') ∧
      size ≤ c.capacity ∧ c ∉ used h.blocks ∧ Change h [b] [c] h' ∧
      ∀ i < min b.capacity size, h'.memory.byte (c.payload + i) = h.memory.byte (b.payload + i)) ∨
    ∃ e h', h.relocate b.payload b.capacity size = (.error e, h') ∧ e.Blameless ∧
      Change h [] [] h' := by
  rcases allocate_change hs size with ⟨c,h',ha,hn,hc⟩ | ⟨e,h',ha,he,hc⟩
  · have hb' : b ∈ used h'.blocks := hc.stays hb (by simp)
    have hbz := hs.arranged.sized b (mem_used.mp hb).1
    have hbc := hc.fresh_new
    have hcopy : Change h [] [c]
        { h' with memory := h'.memory.copy c.payload b.payload (min b.capacity size) } := by
      refine hc.store (by simpa using hc.fresh_mem) _ fun a hout => ?_
      apply Memory.copy_outside
      have := hout c (by simp)
      simp only [Block.capacity, Block.payload, Block.finish] at *
      omega
    obtain ⟨h'',hf,hd⟩ := freeAt_change hcopy.sound hb'
    have heq : h.relocate b.payload b.capacity size =
        (.ok (some c.payload), h''.note (.moved b.payload size c.payload)) := by
      simp only [relocate, ha, hf]
    refine Or.inl ⟨c,_,heq,hn,hbc,(hcopy.trans hd).note _,fun i hi => ?_⟩
    -- The copy reads from the old payload, which the allocation left alone.
    have hkeep : h'.memory.byte (b.payload + i) = h.memory.byte (b.payload + i) := by
      refine hc.kept b hb' ?_ _ (Nat.le_add_right _ _) ?_
      · intro hm
        exact hbc (List.mem_singleton.mp hm ▸ hb)
      · rw [← hbz.payload_add_capacity]
        omega
    have hcb : c ∉ [b] := fun hm => hbc (List.mem_singleton.mp hm ▸ hb)
    have hcz := (hc.sound.arranged.sized c (mem_used.mp hc.fresh_mem).1).payload_add_capacity
    have hsub : b.payload + (c.payload + i - c.payload) = b.payload + i := by omega
    simp only [Heap.note]
    rw [hd.kept c (hd.stays hc.fresh_mem hcb) (by simp) _ (Nat.le_add_right _ _) (by omega)]
    simp only [Memory.copy]
    rw [if_pos (by omega), hsub, hkeep]
  · exact Or.inr ⟨e,h',by simp only [relocate, ha],he,hc⟩

theorem resizeAt_kept {h : Heap σ} (hs : Sound h) {b : Block} (hb : b ∈ used h.blocks)
    {size : Nat} (hn : size ≤ b.capacity) :
    ∃ h', h.resizeAt b.payload size = (.ok (some b.payload), h') ∧ h'.blocks = h.blocks ∧
      h'.regions = h.regions ∧ h'.memory = h.memory ∧ Change h [] [] h' := by
  have hl := (findLive_ok_iff hs.arranged b.payload b).mpr ⟨hb,rfl⟩
  simp only [resizeAt, hl, if_pos hn]
  exact ⟨_,rfl,rfl,rfl,rfl,((Change.refl hs).count _).note _⟩

theorem resizeAt_moved {h : Heap σ} (hs : Sound h) {b : Block} (hb : b ∈ used h.blocks)
    {size : Nat} (hn : ¬size ≤ b.capacity) :
    (∃ c h', h.resizeAt b.payload size = (.ok (some c.payload), h') ∧
      size ≤ c.capacity ∧ c ∉ used h.blocks ∧ Change h [b] [c] h' ∧
      ∀ i < min b.capacity size, h'.memory.byte (c.payload + i) = h.memory.byte (b.payload + i)) ∨
    ∃ e h', h.resizeAt b.payload size = (.error e, h') ∧ e.Blameless ∧ Change h [] [] h' := by
  have hl := (findLive_ok_iff hs.arranged b.payload b).mpr ⟨hb,rfl⟩
  obtain ⟨k,heq⟩ : ∃ k, h.resizeAt b.payload size =
      { h with counters := k }.relocate b.payload b.capacity size := by
    simp only [resizeAt, hl, if_neg hn]
    exact ⟨_,rfl⟩
  rw [heq]
  have hcount := (Change.refl hs).count k
  rcases relocate_change hcount.sound hb size with
    ⟨c,h',hr,hroom,hnew,hc,hcopy⟩ | ⟨e,h',hr,he,hc⟩
  · exact Or.inl ⟨c,h',hr,hroom,hnew,hcount.trans hc,hcopy⟩
  · exact Or.inr ⟨e,h',hr,he,hcount.trans hc⟩

theorem writeAt_change {h : Heap σ} (hs : Sound h) {b : Block} (hb : b ∈ used h.blocks)
    (place : Nat) (s : Bytes) :
    ∃ done h', h.writeAt b.payload place s = (.ok done, h') ∧ Change h [b] [b] h' := by
  have hcap := (capacity_ok_iff hs.arranged _ _).mpr ⟨b,hb,rfl,rfl⟩
  have hr : Change h [b] [b] h := ⟨hs,List.Perm.refl _,fun _ _ _ _ _ _ => rfl,id,rfl⟩
  by_cases hroom : place + s.length ≤ b.capacity
  · have heq : h.writeAt b.payload place s =
        (.ok true, { h with memory := h.memory.write (b.payload + place) s }) := by
      simp only [writeAt, hcap, if_pos hroom]
    refine ⟨true,_,heq,?_⟩
    refine hr.store (by simpa using hb) _ fun a hout => ?_
    apply Memory.write_outside
    have := hout b (by simp)
    have := (hs.arranged.sized b (mem_used.mp hb).1).header_lt
    simp only [Block.capacity, Block.payload, Block.finish] at *
    omega
  · exact ⟨false,h,by simp only [writeAt, hcap, if_neg hroom],hr⟩

/-! ## Every request -/

/-- What a request that was met did: the block at the address it was about is
gone, and the block at the address it answered is fresh. A block that stays in
place counts as both. -/
structure Effect (h : Heap σ) (target issued : Option Nat) (size : Nat)
    (gone fresh : List Block) (h' : Heap σ) : Prop extends Change h gone fresh h' where
  gone_payload : gone.map Block.payload = target.toList
  gone_used : ∀ b ∈ gone, b ∈ used h.blocks
  fresh_payload : fresh.map Block.payload = issued.toList
  fresh_used : ∀ b ∈ fresh, b ∈ used h'.blocks
  fresh_gone : ∀ b ∈ fresh, b ∈ used h.blocks → b ∈ gone
  room : ∀ b ∈ fresh, size ≤ b.capacity

/-- What carrying out a request can come to. -/
inductive Step (h : Heap σ) : Request → Answer → Heap σ → Prop
  | refused {r : Request} {e : HeapError} {h' : Heap σ} (change : Change h [] [] h') :
      Step h r (.error e) h'
  | met {r : Request} {a : Option Nat} {h' : Heap σ} {gone fresh : List Block}
      (other : ∀ q place s, r ≠ .write q place s)
      (effect : Effect h r.target? a r.size gone fresh h') : Step h r (.ok a) h'
  | written {b : Block} {place : Nat} {s : Bytes} {h' : Heap σ} (hb : b ∈ used h.blocks)
      (change : Change h [b] [b] h') : Step h (.write b.payload place s) (.ok none) h'

namespace Effect

variable {h h' : Heap σ} {b c : Block} {size : Nat}

theorem issue (hc : Change h [] [b] h') (hn : size ≤ b.capacity) :
    Effect h none (some b.payload) size [] [b] h' where
  toChange := hc
  gone_payload := rfl
  gone_used := by simp
  fresh_payload := rfl
  fresh_used := by simpa using hc.fresh_mem
  fresh_gone := by simpa using hc.fresh_new
  room := by simpa using hn

theorem keep (hc : Change h [] [] h') (hb : b ∈ used h.blocks) (hn : size ≤ b.capacity) :
    Effect h (some b.payload) (some b.payload) size [b] [b] h' where
  sound := hc.sound
  used_perm := hc.used_perm.cons b
  kept := fun c hu _ => hc.kept c hu (by simp)
  threaded := hc.threaded
  config := hc.config
  gone_payload := rfl
  gone_used := by simpa using hb
  fresh_payload := rfl
  fresh_used := by simpa using hc.stays hb (by simp)
  fresh_gone := by simp
  room := by simpa using hn

theorem move (hc : Change h [b] [c] h') (hb : b ∈ used h.blocks) (hn : c ∉ used h.blocks)
    (hr : size ≤ c.capacity) :
    Effect h (some b.payload) (some c.payload) size [b] [c] h' where
  toChange := hc
  gone_payload := rfl
  gone_used := by simpa using hb
  fresh_payload := rfl
  fresh_used := by
    have hbc : c ∉ [b] := fun hm => hn (List.mem_singleton.mp hm ▸ hb)
    simpa using (hc.mem_iff.mpr (Or.inl (by simp))).resolve_left hbc
  fresh_gone := by simp [hn]
  room := by simpa using hr

theorem giveBack (hc : Change h [b] [] h') (hb : b ∈ used h.blocks) :
    Effect h (some b.payload) none size [b] [] h' where
  toChange := hc
  gone_payload := rfl
  gone_used := by simpa using hb
  fresh_payload := rfl
  fresh_used := by simp
  fresh_gone := by simp
  room := by simp

end Effect

theorem freeAt_cases {h : Heap σ} (hs : Sound h) (q : Nat) :
    (∃ b ∈ used h.blocks, b.payload = q) ∨ ∃ e, h.freeAt q = (.error e, h) := by
  by_cases hq : ∃ b ∈ h.blocks, b.payload = q
  · obtain ⟨b,hb,rfl⟩ := hq
    cases hf : b.free with
    | true => exact Or.inr ⟨_,freeAt_free hs hb hf⟩
    | false => exact Or.inl ⟨b,mem_used.mpr ⟨hb,hf⟩,rfl⟩
  · exact Or.inr ⟨_,freeAt_absent hs fun b hb hp => hq ⟨b,hb,hp⟩⟩

theorem findLive_cases {h : Heap σ} (hs : Sound h) (q : Nat) :
    (∃ b ∈ used h.blocks, b.payload = q) ∨ h.findLive q = .error (.invalidPointer q) := by
  cases hl : h.findLive q with
  | ok b => exact Or.inl ⟨b,(findLive_ok_iff hs.arranged q b).mp hl⟩
  | error e => exact Or.inr (by rw [findLive_error hl])

theorem perform_step {h : Heap σ} (hs : Sound h) (r : Request) :
    Step h r (h.perform r).1 (h.perform r).2 := by
  cases r with
  | allocate size =>
    rw [perform]
    rcases allocate_change hs size with ⟨b,h',ha,hn,hc⟩ | ⟨e,h',ha,-,hc⟩
    · rw [answered_ok ha]
      exact .met nofun (Effect.issue hc hn)
    · rw [answered_error ha]
      exact .refused hc
  | allocateZeroed count size =>
    rw [perform]
    rcases allocateZeroed_change hs count size with ⟨b,h',ha,hn,hc,-⟩ | ⟨e,h',ha,-,hc⟩
    · rw [answered_ok ha]
      exact .met nofun (Effect.issue hc hn)
    · rw [answered_error ha]
      exact .refused hc
  | duplicate s =>
    rw [perform, duplicate]
    rcases duplicateUpTo_change hs s (Bytes.textLength s) with ⟨b,h',ha,hn,hc,-⟩ | ⟨e,h',ha,-,hc⟩
    · rw [Nat.min_self] at hn
      rw [answered_ok ha]
      exact .met nofun (Effect.issue hc hn)
    · rw [answered_error ha]
      exact .refused hc
  | duplicateUpTo s n =>
    rw [perform]
    rcases duplicateUpTo_change hs s n with ⟨b,h',ha,hn,hc,-⟩ | ⟨e,h',ha,-,hc⟩
    · rw [answered_ok ha]
      exact .met nofun (Effect.issue hc hn)
    · rw [answered_error ha]
      exact .refused hc
  | free address =>
    rw [perform]
    cases address with
    | none =>
      rw [free, answered_ok rfl]
      exact .met nofun ⟨Change.refl hs,rfl,by simp,rfl,by simp,by simp,by simp⟩
    | some q =>
      rw [free]
      rcases freeAt_cases hs q with ⟨b,hb,rfl⟩ | ⟨e,he⟩
      · obtain ⟨h',hf,hc⟩ := freeAt_change hs hb
        rw [answered_ok hf]
        exact .met nofun (Effect.giveBack hc hb)
      · rw [answered_error he]
        exact .refused (Change.refl hs)
  | resize address size =>
    rw [perform]
    cases address with
    | none =>
      rcases allocate_change hs size with ⟨b,h',ha,hn,hc⟩ | ⟨e,h',ha,-,hc⟩
      · simp only [resize, ha]
        exact .met nofun (Effect.issue hc hn)
      · simp only [resize, ha]
        exact .refused hc
    | some q =>
      by_cases hz : size = 0
      · rcases freeAt_cases hs q with ⟨b,hb,rfl⟩ | ⟨e,he⟩
        · obtain ⟨h',hf,hc⟩ := freeAt_change hs hb
          simp only [resize, if_pos hz, hf]
          exact .met nofun (Effect.giveBack hc hb)
        · simp only [resize, if_pos hz, he]
          exact .refused (Change.refl hs)
      · simp only [resize, if_neg hz]
        rcases findLive_cases hs q with ⟨b,hb,rfl⟩ | he
        · by_cases hn : size ≤ b.capacity
          · obtain ⟨h',hr,-,-,-,hc⟩ := resizeAt_kept hs hb hn
            rw [hr]
            exact .met nofun (Effect.keep hc hb hn)
          · rcases resizeAt_moved hs hb hn with ⟨c,h',hr,hroom,hnew,hc,-⟩ | ⟨e,h',hr,-,hc⟩
            · rw [hr]
              exact .met nofun (Effect.move hc hb hnew hroom)
            · rw [hr]
              exact .refused hc
        · simp only [resizeAt, he]
          exact .refused (Change.refl hs)
  | write q place s =>
    rw [perform]
    cases hcap : h.capacity q with
    | ok n =>
      obtain ⟨b,hb,rfl,-⟩ := (capacity_ok_iff hs.arranged q n).mp hcap
      obtain ⟨done,h',hw,hc⟩ := writeAt_change hs hb place s
      rw [answered_ok hw]
      exact .written hb hc
    | error e =>
      rw [answered_error (h := h) (e := e) (by simp only [writeAt, hcap])]
      exact .refused (Change.refl hs)

end Freestanding.Heap
