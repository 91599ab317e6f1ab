import Freestanding.Proofs.Heap.Run

/-!
# The ledger of live allocations

A ledger is kept from requests and answers alone: what an answer issues is
entered, with the size that was asked for, and what a request was about is
struck out when the request is met. The blocks in use are those of the ledger.
From this follows which addresses a heap accepts: those in its ledger.
-/

set_option autoImplicit false

namespace Freestanding.Heap

variable {σ : Type}

/-- Live addresses, each with the size last asked for. -/
abbrev Ledger := List (Nat × Nat)

namespace Ledger

def addresses (l : Ledger) : List Nat := l.map Prod.fst

def record (l : Ledger) (r : Request) (a : Answer) : Ledger :=
  match r, a with
  | _, .error _ => l
  | .write .., _ => l
  | r, .ok issued =>
    (issued.toList.map fun p => (p, r.size)) ++ l.filter fun e => some e.1 ≠ r.target?

def keep (l : Ledger) : List (Request × Answer) → Ledger
  | [] => l
  | e :: es => keep (l.record e.1 e.2) es

end Ledger

/-- What the blocks of a heap have to do with a ledger. -/
structure Tracks (l : Ledger) (h : Heap σ) : Prop where
  addresses : l.addresses.Perm ((used h.blocks).map Block.payload)
  room : ∀ e ∈ l, ∃ b ∈ used h.blocks, b.payload = e.1 ∧ e.2 ≤ b.capacity

theorem Tracks.of_perm {l : Ledger} {h h' : Heap σ} (ht : Tracks l h)
    (hp : (used h'.blocks).Perm (used h.blocks)) : Tracks l h' where
  addresses := ht.addresses.trans (hp.map Block.payload).symm
  room := fun e he => by
    obtain ⟨b,hb,hr⟩ := ht.room e he
    exact ⟨b,hp.mem_iff.mpr hb,hr⟩

theorem Tracks.mem_iff {l : Ledger} {h : Heap σ} (ht : Tracks l h) {q : Nat} :
    q ∈ l.addresses ↔ ∃ b ∈ used h.blocks, b.payload = q := by
  simp [ht.addresses.mem_iff]

theorem empty_tracks (config : Config) (store : σ) : Tracks [] (Heap.empty config store) :=
  ⟨List.Perm.refl _,by simp⟩

variable [Store σ]

theorem Tracks.nodup {l : Ledger} {h : Heap σ} (ht : Tracks l h) (hs : Sound h) :
    l.addresses.Nodup := by
  rw [ht.addresses.nodup_iff]
  apply List.pairwise_map.mpr
  apply hs.arranged.used_address_lt.imp
  intro b c hbc he
  simp only [Block.payload] at he
  omega

theorem record_met {l : Ledger} {r : Request} {a : Option Nat}
    (ho : ∀ q place s, r ≠ .write q place s) : l.record r (.ok a) =
      (a.toList.map fun p => (p, r.size)) ++ l.filter fun e => some e.1 ≠ r.target? := by
  cases r with
  | write q place s => exact absurd rfl (ho q place s)
  | _ => rfl

theorem strike_perm {l : Ledger} (hn : l.addresses.Nodup) {q : Nat} (hq : q ∈ l.addresses) :
    l.addresses.Perm (q :: Ledger.addresses (l.filter fun e => some e.1 ≠ some q)) := by
  induction l with
  | nil => simp [Ledger.addresses] at hq
  | cons e l ih =>
    obtain ⟨he,hn⟩ := List.nodup_cons.mp hn
    by_cases heq : e.1 = q
    · have hall : l.filter (fun e => some e.1 ≠ some q) = l := by
        apply List.filter_eq_self.mpr
        intro f hf
        have hfq : f.1 ≠ q := fun h => he (heq ▸ h ▸ List.mem_map_of_mem hf)
        simpa using hfq
      rw [List.filter_cons_of_neg (by simp [heq]), hall, ← heq]
      exact List.Perm.refl _
    · have hq' : q ∈ Ledger.addresses l := by
        rcases List.mem_cons.mp hq with h | h
        · exact absurd h.symm heq
        · exact h
      rw [List.filter_cons_of_pos (by simp [heq])]
      exact ((ih hn hq').cons e.1).trans (List.Perm.swap _ _ _)

theorem Tracks.effect {l : Ledger} {h h' : Heap σ} (hs : Sound h) (ht : Tracks l h) {r : Request}
    {a : Option Nat} {gone fresh : List Block} (he : Effect h r.target? a r.size gone fresh h')
    (ho : ∀ q place s, r ≠ .write q place s) : Tracks (l.record r (.ok a)) h' := by
  have hmap := he.used_perm.map Block.payload
  rw [List.map_append, List.map_append, he.gone_payload, he.fresh_payload] at hmap
  have hmap := hmap.trans (ht.addresses.symm.append_left a.toList)
  rw [record_met ho]
  constructor
  · have hnew : Ledger.addresses (a.toList.map fun p => (p, r.size)) = a.toList := by
      cases a <;> rfl
    rw [Ledger.addresses, List.map_append]
    change (Ledger.addresses _ ++ Ledger.addresses _).Perm _
    rw [hnew]
    cases hq : r.target? with
    | none =>
      simp only [hq, Option.toList_none, List.nil_append] at hmap
      simpa using hmap.symm
    | some q =>
      have hmem : q ∈ l.addresses := by
        rw [ht.mem_iff]
        have hg : q ∈ gone.map Block.payload := by simp [he.gone_payload, hq]
        obtain ⟨b,hb,hp⟩ := List.mem_map.mp hg
        exact ⟨b,he.gone_used b hb,hp⟩
      have hstrike := strike_perm (ht.nodup hs) hmem
      simp only [hq, Option.toList_some] at hmap
      have hall := hmap.trans ((hstrike.append_left a.toList).trans List.perm_middle)
      exact (List.perm_cons q).mp hall.symm
  · intro e hm
    rcases List.mem_append.mp hm with hm | hm
    · obtain ⟨p,hp,rfl⟩ := List.mem_map.mp hm
      rw [← he.fresh_payload] at hp
      obtain ⟨b,hb,rfl⟩ := List.mem_map.mp hp
      exact ⟨b,he.fresh_used b hb,rfl,he.room b hb⟩
    · obtain ⟨hm,hne⟩ := List.mem_filter.mp hm
      obtain ⟨b,hb,hp,hr⟩ := ht.room e hm
      have hg : b ∉ gone := by
        intro hg
        have : b.payload ∈ gone.map Block.payload := List.mem_map_of_mem hg
        rw [he.gone_payload, hp] at this
        simp [Option.mem_toList.mp this] at hne
      exact ⟨b,he.stays hb hg,hp,hr⟩

theorem Tracks.step {l : Ledger} {h h' : Heap σ} (hs : Sound h) (ht : Tracks l h) {r : Request}
    {a : Answer} (hr : Step h r a h') : Tracks (l.record r a) h' := by
  cases hr with
  | refused hc => exact ht.of_perm hc.used_perm
  | met ho he => exact ht.effect hs he ho
  | @written b place s _ hb hc =>
    have hrec : l.record (.write b.payload place s) (.ok none) = l := rfl
    rw [hrec]
    exact ht.of_perm ((List.perm_cons b).mp hc.used_perm)

def answers (h : Heap σ) : List Request → List (Request × Answer)
  | [] => []
  | r :: rs => (r, (h.perform r).1) :: answers (h.perform r).2 rs

theorem Tracks.run {l : Ledger} {h : Heap σ} (hs : Sound h) (ht : Tracks l h)
    (rs : List Request) : Tracks (l.keep (h.answers rs)) (h.after rs) := by
  induction rs generalizing h l with
  | nil => exact ht
  | cons r rs ih =>
    have hr := perform_step hs r
    exact ih hr.sound (ht.step hs hr)

/-! ## What a heap accepts -/

def Rejected {α : Type} (q : Nat) (a : Except HeapError α) : Prop :=
  a = .error (.invalidPointer q) ∨ a = .error (.doubleFree q)

theorem HeapError.Blameless.not_rejected {α : Type} {e : HeapError} (he : e.Blameless) (q : Nat) :
    ¬Rejected q (.error e : Except HeapError α) := by
  rintro (h | h)
  · exact (he q).1 (Except.error.inj h)
  · exact (he q).2 (Except.error.inj h)

theorem not_rejected_ok {α : Type} (q : Nat) (x : α) :
    ¬Rejected q (.ok x : Except HeapError α) := by
  rintro (h | h) <;> cases h

theorem free_rejected_iff {h : Heap σ} (hs : Sound h) (q : Nat) :
    Rejected q (h.free (some q)).1 ↔ ¬∃ b ∈ used h.blocks, b.payload = q := by
  rw [free]
  constructor
  · rintro hr ⟨b,hb,rfl⟩
    obtain ⟨h',hf,-⟩ := freeAt_change hs hb
    rw [hf] at hr
    exact not_rejected_ok _ _ hr
  · intro hq
    by_cases hb : ∃ b ∈ h.blocks, b.payload = q
    · obtain ⟨b,hb,rfl⟩ := hb
      have hf : b.free = true := by
        by_contra hf
        exact hq ⟨b,mem_used.mpr ⟨hb,by simpa using hf⟩,rfl⟩
      rw [freeAt_free hs hb hf]
      exact Or.inr rfl
    · rw [freeAt_absent hs fun b hm hp => hb ⟨b,hm,hp⟩]
      exact Or.inl rfl

theorem double_free_iff {h : Heap σ} (hs : Sound h) (q : Nat) :
    (h.free (some q)).1 = .error (.doubleFree q) ↔
      ∃ b ∈ h.blocks, b.free = true ∧ b.payload = q := by
  rw [free]
  constructor
  · intro hd
    by_cases hb : ∃ b ∈ h.blocks, b.payload = q
    · obtain ⟨b,hb,rfl⟩ := hb
      cases hf : b.free with
      | true => exact ⟨b,hb,hf,rfl⟩
      | false =>
        obtain ⟨h',he,-⟩ := freeAt_change hs (mem_used.mpr ⟨hb,hf⟩)
        rw [he] at hd
        cases hd
    · rw [freeAt_absent hs fun b hm hp => hb ⟨b,hm,hp⟩] at hd
      cases hd
  · rintro ⟨b,hb,hf,rfl⟩
    rw [freeAt_free hs hb hf]

theorem capacity_rejected_iff {h : Heap σ} (hs : Sound h) (q : Nat) :
    Rejected q (h.capacity q) ↔ ¬∃ b ∈ used h.blocks, b.payload = q := by
  cases hc : h.capacity q with
  | ok n =>
    obtain ⟨b,hb,hp,-⟩ := (capacity_ok_iff hs.arranged q n).mp hc
    exact ⟨fun hr => absurd hr (not_rejected_ok q n),fun hn => absurd ⟨b,hb,hp⟩ hn⟩
  | error e =>
    obtain rfl := capacity_error hc
    refine ⟨fun _ => ?_,fun _ => Or.inl rfl⟩
    rintro ⟨b,hb,hp⟩
    rw [(capacity_ok_iff hs.arranged q _).mpr ⟨b,hb,hp,rfl⟩] at hc
    cases hc

theorem payload_rejected_iff {h : Heap σ} (hs : Sound h) (q : Nat) :
    Rejected q (h.payload q) ↔ ¬∃ b ∈ used h.blocks, b.payload = q := by
  rw [← capacity_rejected_iff hs q, payload]
  cases h.capacity q with
  | ok n => exact ⟨fun hr => absurd hr (not_rejected_ok q _),fun hr => absurd hr (not_rejected_ok q n)⟩
  | error e => simp [Rejected]

theorem resize_rejected_iff {h : Heap σ} (hs : Sound h) (q : Nat) {n : Nat} (hn : 0 < n) :
    Rejected q (h.resize (some q) n).1 ↔ ¬∃ b ∈ used h.blocks, b.payload = q := by
  simp only [resize, if_neg (Nat.ne_of_gt hn)]
  constructor
  · rintro hr ⟨b,hb,rfl⟩
    by_cases hroom : n ≤ b.capacity
    · obtain ⟨h',he,-⟩ := resizeAt_kept hs hb hroom
      rw [he] at hr
      exact not_rejected_ok _ _ hr
    · rcases resizeAt_moved hs hb hroom with ⟨c,h',he,-⟩ | ⟨e,h',he,hbl,-⟩
      · rw [he] at hr
        exact not_rejected_ok _ _ hr
      · rw [he] at hr
        exact hbl.not_rejected _ hr
  · intro hq
    rcases findLive_cases hs q with hb | he
    · exact absurd hb hq
    · simp only [resizeAt, he]
      exact Or.inl rfl

/-- A heap keeps to a ledger. The blocks in use are those of the ledger, what is
issued is not in it already, every entry has its own room in one region, and an
address is turned down exactly when it is not in the ledger. -/
structure Refines (l : Ledger) (h : Heap σ) : Prop where
  nodup : l.addresses.Nodup
  used_iff : ∀ q, q ∈ l.addresses ↔ ∃ b ∈ h.blocks, b.free = false ∧ b.payload = q
  issued_new : ∀ r p h', h.perform r = (.ok (some p), h') → p ∈ l.addresses → r.target? = some p
  aligned : ∀ p ∈ l.addresses, p % 8 = 0
  room : ∀ e ∈ l, ∃ n, h.capacity e.1 = .ok n ∧ e.2 ≤ n
  within : ∀ p ∈ l.addresses, ∀ n, h.capacity p = .ok n →
    ∃ r ∈ h.regions, r.start ≤ p ∧ p + n ≤ r.finish
  apart : ∀ p ∈ l.addresses, ∀ q ∈ l.addresses, p ≠ q → ∀ n m, h.capacity p = .ok n →
    h.capacity q = .ok m → p + n ≤ q ∨ q + m ≤ p
  headers_apart : ∀ p ∈ l.addresses, ∀ n, h.capacity p = .ok n →
    ∀ b ∈ h.blocks, b.address + headerSize ≤ p ∨ p + n ≤ b.address
  free_rejected : ∀ q, Rejected q (h.free (some q)).1 ↔ q ∉ l.addresses
  capacity_rejected : ∀ q, Rejected q (h.capacity q) ↔ q ∉ l.addresses
  payload_rejected : ∀ q, Rejected q (h.payload q) ↔ q ∉ l.addresses
  resize_rejected : ∀ q n, 0 < n → (Rejected q (h.resize (some q) n).1 ↔ q ∉ l.addresses)
  double_free : ∀ q, (h.free (some q)).1 = .error (.doubleFree q) ↔
    ∃ b ∈ h.blocks, b.free = true ∧ b.payload = q

theorem issued_target {h h' : Heap σ} (hs : Sound h) {r : Request} {p : Nat}
    (hp : h.perform r = (.ok (some p), h')) {b : Block} (hb : b ∈ used h.blocks)
    (hbp : b.payload = p) : r.target? = some p := by
  have hr := perform_step hs r
  rw [hp] at hr
  cases hr with
  | @met _ _ _ gone fresh _ he =>
    obtain ⟨c,rfl,hc⟩ := List.map_eq_singleton_iff.mp he.fresh_payload
    have hgone : b ∈ gone := by
      by_contra hbg
      have hstay := (mem_used.mp (he.stays hb hbg)).1
      have hfresh := (mem_used.mp (he.fresh_used c (by simp))).1
      have hadd : b.address = c.address := Nat.add_right_cancel (hbp.trans hc.symm)
      have hbc := he.sound.arranged.eq_of_address hstay hfresh hadd
      exact hbg (he.fresh_gone b (by simp [hbc]) hb)
    have hm : b.payload ∈ gone.map Block.payload := List.mem_map_of_mem hgone
    rw [he.gone_payload, hbp] at hm
    exact Option.mem_toList.mp hm

theorem capacity_block {h : Heap σ} (hs : Sound h) {p n : Nat} (hc : h.capacity p = .ok n) :
    ∃ b ∈ h.blocks, b.payload = p ∧ b.payload + n = b.finish := by
  obtain ⟨b,hb,hp,rfl⟩ := (capacity_ok_iff hs.arranged p n).mp hc
  have hb := (mem_used.mp hb).1
  exact ⟨b,hb,hp,(hs.arranged.sized b hb).payload_add_capacity⟩

theorem Tracks.refines {l : Ledger} {h : Heap σ} (hs : Sound h) (ht : Tracks l h) :
    Refines l h := by
  have hiff : ∀ q, q ∉ l.addresses ↔ ¬∃ b ∈ used h.blocks, b.payload = q := fun q =>
    not_congr ht.mem_iff
  constructor
  case nodup => exact ht.nodup hs
  case used_iff =>
    intro q
    simp only [ht.mem_iff, mem_used, and_assoc]
  case issued_new =>
    intro r p h' hp hm
    obtain ⟨b,hb,hbp⟩ := ht.mem_iff.mp hm
    exact issued_target hs hp hb hbp
  case aligned =>
    intro p hp
    obtain ⟨b,hb,rfl⟩ := ht.mem_iff.mp hp
    have := hs.arranged.address_aligned (mem_used.mp hb).1
    simp only [alignment, Block.payload, headerSize] at *
    omega
  case room =>
    intro e he
    obtain ⟨b,hb,hp,hn⟩ := ht.room e he
    exact ⟨b.capacity,(capacity_ok_iff hs.arranged _ _).mpr ⟨b,hb,hp,rfl⟩,hn⟩
  case within =>
    intro p _ n hc
    obtain ⟨b,hb,rfl,hf⟩ := capacity_block hs hc
    obtain ⟨r,hr,hst,hfi⟩ := laid_within hs.arranged.laid hb
    refine ⟨r,hr,?_,hf ▸ hfi⟩
    simp only [Block.payload]
    omega
  case apart =>
    intro p _ q _ hpq n m hn hm
    obtain ⟨b,hb,rfl,hbf⟩ := capacity_block hs hn
    obtain ⟨c,hc,rfl,hcf⟩ := capacity_block hs hm
    have hap := hs.arranged.apart hb hc fun he => hpq (by rw [he])
    simp only [Block.Apart, Block.Before, Block.payload] at *
    omega
  case headers_apart =>
    intro p _ n hn c hc
    obtain ⟨b,hb,rfl,hbf⟩ := capacity_block hs hn
    rw [hbf]
    exact hs.arranged.header_apart hb hc
  case free_rejected => exact fun q => (free_rejected_iff hs q).trans (hiff q).symm
  case capacity_rejected => exact fun q => (capacity_rejected_iff hs q).trans (hiff q).symm
  case payload_rejected => exact fun q => (payload_rejected_iff hs q).trans (hiff q).symm
  case resize_rejected => exact fun q n hn => (resize_rejected_iff hs q hn).trans (hiff q).symm
  case double_free => exact double_free_iff hs

/-- After every run from an empty heap, the heap keeps to the ledger that the
requests and their answers make up. -/
theorem run_refines_ledger (config : Config) (store : σ) (hl : Lawful [] store)
    (requests : List Request) :
    Refines (Ledger.keep [] ((Heap.empty config store).answers requests))
      ((Heap.empty config store).after requests) := by
  have hs := empty_sound config hl
  exact ((empty_tracks config store).run hs requests).refines (after_sound hs requests)

theorem growing_run_refines_ledger :
    Lawful [] (Arena.bounded .descending none) ∧
    Refines (Ledger.keep [] ((Heap.empty {} (Arena.bounded .descending none)).answers
        [.allocate 10, .allocate 20, .resize (some 35184388861976) 5000,
          .free (some 35184388861976), .resize (some 35184388862016) 16]))
      ((Heap.empty {} (Arena.bounded .descending none)).after
        [.allocate 10, .allocate 20, .resize (some 35184388861976) 5000,
          .free (some 35184388861976), .resize (some 35184388862016) 16]) :=
  ⟨Arena.bounded_lawful _ _,run_refines_ledger _ _ (Arena.bounded_lawful _ _) _⟩

end Freestanding.Heap
