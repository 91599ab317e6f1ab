import Freestanding.Heap.Operations
import Freestanding.Proofs.Heap.Arrangement

/-!
# Finding blocks and regions

Looking up an address among arranged blocks finds the block whose payload is
there, whichever block that is, although the search stops at the first payload
past the address. The region of a block is found by any address in it.
-/

set_option autoImplicit false

namespace Freestanding.Heap

theorem blockAt?_eq_some_iff {bs : List Block} (h : bs.Pairwise fun b c => b.address < c.address)
    (a : Nat) (b : Block) : blockAt? a bs = some b ↔ b ∈ bs ∧ b.payload = a := by
  induction bs with
  | nil => simp [blockAt?]
  | cons c bs ih =>
    obtain ⟨hc,h⟩ := List.pairwise_cons.mp h
    have hlt : ∀ d ∈ bs, c.payload < d.payload := fun d hd => Nat.add_lt_add_right (hc d hd) _
    rw [blockAt?]
    split_ifs with he hl
    · constructor
      · intro hb
        obtain rfl := Option.some.inj hb
        exact ⟨by simp,he⟩
      · rintro ⟨hb,rfl⟩
        rcases List.mem_cons.mp hb with rfl | hb
        · rfl
        · exact absurd he (Nat.ne_of_lt (hlt b hb))
    · simp only [List.mem_cons, false_iff, not_and]
      rintro (rfl | hb) rfl
      · exact he rfl
      · exact Nat.lt_asymm hl (hlt b hb)
    · rw [ih h, List.mem_cons]
      constructor
      · exact fun ⟨hb,ha⟩ => ⟨Or.inr hb,ha⟩
      · rintro ⟨rfl | hb,ha⟩
        · exact absurd ha he
        · exact ⟨hb,ha⟩

theorem locate?_spec {a i : Nat} {r : Region} {rs : List Region}
    (h : locate? a rs = some (i,r)) : rs[i]? = some r ∧ r.contains a = true := by
  unfold locate? at h
  split at h
  · cases h
  · obtain ⟨s,hs,he⟩ := Option.map_eq_some_iff.mp h
    obtain ⟨rfl,rfl⟩ := Prod.mk.inj he
    exact Option.filter_eq_some_iff.mp hs

theorem locate?_eq_some_iff {rs : List Region} (ho : rs.Pairwise Region.Before) {a i : Nat}
    {r : Region} : locate? a rs = some (i,r) ↔ rs[i]? = some r ∧ r.contains a = true := by
  refine ⟨locate?_spec,fun ⟨hi,ha⟩ => ?_⟩
  obtain ⟨hlt,rfl⟩ := List.getElem?_eq_some_iff.mp hi
  obtain ⟨before,after,he,hlen⟩ : ∃ before after, rs = before ++ rs[i] :: after ∧
      before.length = i :=
    ⟨rs.take i,rs.drop (i + 1),by rw [← List.drop_eq_getElem_cons, List.take_append_drop],
      List.length_take_of_le (Nat.le_of_lt hlt)⟩
  generalize rs[i] = r at hi ha he
  subst he hlen
  rw [Region.contains_iff] at ha
  obtain ⟨-,hr,hbefore⟩ := List.pairwise_append.mp ho
  have hpoint : partitionPoint (fun s => s.start ≤ a) (before ++ r :: after) =
      before.length + 1 := by
    rw [List.append_cons, partitionPoint_append]
    · simp
    · simp only [List.mem_append, List.mem_singleton, decide_eq_true_eq]
      rintro s (hs | rfl)
      · exact Nat.le_trans (hbefore s hs r (by simp)).start_le ha.1
      · exact ha.1
    · intro s hs
      have := (List.pairwise_cons.mp hr).1 s hs
      simp only [Region.Before, decide_eq_false_iff_not] at this ⊢
      omega
  simp [locate?, hpoint, Region.contains_iff, ha, Option.filter]

theorem locate?_isSome {rs : List Region} (ho : rs.Pairwise Region.Before) (a : Nat) :
    (locate? a rs).isSome = true ↔ ∃ r ∈ rs, r.contains a = true := by
  constructor
  · intro h
    obtain ⟨⟨i,r⟩,hl⟩ := Option.isSome_iff_exists.mp h
    obtain ⟨hi,ha⟩ := locate?_spec hl
    exact ⟨r,List.mem_of_getElem? hi,ha⟩
  · rintro ⟨r,hr,ha⟩
    obtain ⟨i,hi⟩ := List.mem_iff_getElem?.mp hr
    rw [(locate?_eq_some_iff ho).mpr ⟨hi,ha⟩]
    rfl

theorem sizeAt_split {pre post : List Block} {b : Block}
    (h : ∀ c ∈ pre, c.address ≠ b.address) : sizeAt b.address (pre ++ b :: post) = b.size := by
  have hf : (pre ++ b :: post).find? (·.address == b.address) = some b := by
    rw [List.find?_append, List.find?_eq_none.mpr (by simpa using h)]
    simp
  simp [sizeAt, hf]

theorem firstFit?_spec {total : Nat} {bs : List Block} {b : Block}
    (h : firstFit? total bs = some b) : b ∈ bs ∧ b.free = true ∧ total ≤ b.size := by
  have hp := List.find?_some h
  simp only [Bool.and_eq_true, decide_eq_true_eq] at hp
  exact ⟨List.mem_of_find?_eq_some h,hp⟩

namespace Arranged

variable {rs : List Region} {bs : List Block}

theorem payload_located (h : Arranged rs bs) {b : Block} (hb : b ∈ bs) :
    (locate? b.payload rs).isSome = true := by
  obtain ⟨r,hr,hs,hf⟩ := laid_within h.laid hb
  have hz := (h.sized b hb).header_lt
  refine (locate?_isSome h.ordered _).mpr ⟨r,hr,(Region.contains_iff _ _).mpr ?_⟩
  simp only [Block.payload, Block.finish] at *
  omega

theorem blockAt?_payload (h : Arranged rs bs) {b : Block} (hb : b ∈ bs) :
    blockAt? b.payload bs = some b :=
  (blockAt?_eq_some_iff h.address_lt _ _).mpr ⟨hb,rfl⟩

end Arranged

variable {σ : Type}

theorem findBlock_ok_iff {h : Heap σ} (ha : Arranged h.regions h.blocks) (a : Nat) (b : Block) :
    h.findBlock a = .ok b ↔ b ∈ h.blocks ∧ b.payload = a := by
  unfold findBlock
  constructor
  · intro hb
    split_ifs at hb with hl
    split at hb
    · next c hc =>
      obtain rfl := Except.ok.inj hb
      exact (blockAt?_eq_some_iff ha.address_lt a c).mp hc
    · cases hb
  · rintro ⟨hb,rfl⟩
    simp [ha.payload_located hb, ha.blockAt?_payload hb]

theorem findBlock_error {h : Heap σ} {a : Nat} {e : HeapError} (he : h.findBlock a = .error e) :
    e = .invalidPointer a := by
  unfold findBlock at he
  split_ifs at he
  · split at he <;> simp_all
  · simp_all

theorem findLive_ok_iff {h : Heap σ} (ha : Arranged h.regions h.blocks) (a : Nat) (b : Block) :
    h.findLive a = .ok b ↔ b ∈ used h.blocks ∧ b.payload = a := by
  unfold findLive
  cases hb : h.findBlock a with
  | error e =>
    simp only [reduceCtorEq, false_iff, mem_used]
    rintro ⟨⟨hm,-⟩,hp⟩
    rw [(findBlock_ok_iff ha a b).mpr ⟨hm,hp⟩] at hb
    cases hb
  | ok c =>
    obtain ⟨hc,hp⟩ := (findBlock_ok_iff ha a c).mp hb
    have heq : ∀ d ∈ h.blocks, d.payload = a → d = c := fun d hd hda =>
      ha.eq_of_address hd hc (Nat.add_right_cancel (hda.trans hp.symm))
    cases hf : c.free with
    | true =>
      simp only [hf, if_true, reduceCtorEq, false_iff, mem_used]
      rintro ⟨⟨hm,hu⟩,hd⟩
      rw [heq b hm hd, hf] at hu
      cases hu
    | false =>
      simp only [hf, Bool.false_eq_true, if_false, Except.ok.injEq, mem_used]
      constructor
      · rintro rfl
        exact ⟨⟨hc,hf⟩,hp⟩
      · rintro ⟨⟨hm,-⟩,hd⟩
        exact (heq b hm hd).symm

theorem findLive_error {h : Heap σ} {a : Nat} {e : HeapError} (he : h.findLive a = .error e) :
    e = .invalidPointer a := by
  unfold findLive at he
  split at he
  · next e' hb =>
    obtain rfl := Except.error.inj he
    exact findBlock_error hb
  · split_ifs at he
    exact (Except.error.inj he).symm

theorem capacity_ok_iff {h : Heap σ} (ha : Arranged h.regions h.blocks) (a n : Nat) :
    h.capacity a = .ok n ↔ ∃ b ∈ used h.blocks, b.payload = a ∧ b.capacity = n := by
  unfold capacity
  constructor
  · intro hc
    split at hc
    · cases hc
    · next b hl =>
      obtain ⟨hb,hp⟩ := (findLive_ok_iff ha a b).mp hl
      exact ⟨b,hb,hp,Except.ok.inj hc⟩
  · rintro ⟨b,hb,hp,rfl⟩
    rw [(findLive_ok_iff ha a b).mpr ⟨hb,hp⟩]

theorem capacity_error {h : Heap σ} {a : Nat} {e : HeapError} (he : h.capacity a = .error e) :
    e = .invalidPointer a := by
  unfold capacity at he
  split at he
  · next hl =>
    rw [← Except.error.inj he]
    exact findLive_error hl
  · cases he

/-- An address that stands for an allocation. -/
def Live (h : Heap σ) (p : Nat) : Prop := ∃ n, h.capacity p = .ok n

theorem live_iff {h : Heap σ} (ha : Arranged h.regions h.blocks) (p : Nat) :
    h.Live p ↔ ∃ b ∈ used h.blocks, b.payload = p := by
  simp only [Live, capacity_ok_iff ha]
  constructor
  · rintro ⟨n,b,hb,hp,-⟩
    exact ⟨b,hb,hp⟩
  · rintro ⟨b,hb,hp⟩
    exact ⟨b.capacity,b,hb,hp,rfl⟩

end Freestanding.Heap
