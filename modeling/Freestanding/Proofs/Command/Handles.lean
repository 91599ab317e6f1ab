import Freestanding.Command.Script
import Freestanding.Proofs.Heap.Failure
import Freestanding.Proofs.Heap.Ledger

/-!
# Handles that were freed

A handle keeps its address when it is freed, and the heap decides what using it
again comes to. The address is turned down as long as it has not been handed
out anew. Once it has, the old handle reaches the new allocation, and another
free takes that one away.
-/

set_option autoImplicit false

namespace Freestanding.Heap

variable {σ : Type} [Store σ]

/-! ## Live addresses along a request -/

section

variable {h h' : Heap σ} {r : Request} {p : Nat}

theorem Step.live_cases (hs : Sound h) {answer : Answer} (hr : Step h r answer h')
    (hp : h'.Live p) : h.Live p ∨ answer = .ok (some p) := by
  obtain ⟨b,hb,hbp⟩ := (live_iff hr.sound.arranged p).mp hp
  have hlive : b ∈ used h.blocks → h.Live p := fun hm =>
    (live_iff hs.arranged p).mpr ⟨b,hm,hbp⟩
  cases hr with
  | refused hc => exact Or.inl (hlive ((hc.mem_iff.mp (Or.inr hb)).resolve_left (by simp)))
  | met _ he =>
    rcases he.mem_iff.mp (Or.inr hb) with hf | hm
    · have hmem := List.mem_map_of_mem (f := Block.payload) hf
      rw [he.fresh_payload, hbp, Option.mem_toList] at hmem
      exact Or.inr (congrArg Except.ok hmem)
    · exact Or.inl (hlive hm)
  | written hc hw =>
    rcases hw.mem_iff.mp (Or.inr hb) with hf | hm
    · exact Or.inl (hlive (List.mem_singleton.mp hf ▸ hc))
    · exact Or.inl (hlive hm)

theorem Step.issued_live (hr : Step h r (.ok (some p)) h') : h'.Live p := by
  cases hr with
  | @met _ _ _ _ fresh _ he =>
    have hp : p ∈ fresh.map Block.payload := by simp [he.fresh_payload]
    obtain ⟨b,hb,hbp⟩ := List.mem_map.mp hp
    exact (live_iff he.sound.arranged p).mpr ⟨b,he.fresh_used b hb,hbp⟩

theorem Step.target_live (hs : Sound h) {a : Option Nat} (hr : Step h r (.ok a) h')
    (ht : r.target? = some p) : h.Live p := by
  cases hr with
  | @met _ _ _ gone _ _ he =>
    have hp : p ∈ gone.map Block.payload := by simp [he.gone_payload, ht]
    obtain ⟨b,hb,hbp⟩ := List.mem_map.mp hp
    exact (live_iff hs.arranged p).mpr ⟨b,he.gone_used b hb,hbp⟩
  | @written b _ _ _ hb =>
    exact (live_iff hs.arranged p).mpr ⟨b,hb,Option.some.inj ht⟩

theorem Step.target_dead (hs : Sound h) (hr : Step h r (.ok none) h')
    (ho : ∀ q place s, r ≠ .write q place s) (ht : r.target? = some p) : ¬h'.Live p := by
  cases hr with
  | @met _ _ _ gone fresh _ he =>
    have hgone := he.gone_payload
    rw [ht] at hgone
    obtain ⟨b,rfl,hbp⟩ := List.map_eq_singleton_iff.mp hgone
    obtain rfl : fresh = [] := List.map_eq_nil_iff.mp he.fresh_payload
    have hperm : (b :: used h'.blocks).Perm (used h.blocks) := he.used_perm
    intro hlive
    obtain ⟨c,hc,hcp⟩ := (live_iff he.sound.arranged p).mp hlive
    have hcb : c = b := by
      have hcu := hperm.mem_iff.mp (List.mem_cons_of_mem b hc)
      have hbu := he.gone_used b (by simp)
      apply hs.arranged.eq_of_address (mem_used.mp hcu).1 (mem_used.mp hbu).1
      exact Nat.add_right_cancel (hcp.trans hbp.symm)
    have hnodup := hperm.nodup_iff.mpr (used_nodup hs)
    exact (List.nodup_cons.mp hnodup).1 (hcb ▸ hc)
  | written => exact absurd rfl (ho _ _ _)

theorem freeAt_stale (hs : Sound h) (hp : ¬h.Live p) :
    ∃ e, h.freeAt p = (.error e, h) ∧ (e = .invalidPointer p ∨ e = .doubleFree p) := by
  rcases freeAt_cases hs p with hb | ⟨e,he⟩
  · exact absurd ((live_iff hs.arranged p).mpr hb) hp
  · exact ⟨e,he,(freeAt_failed he).2⟩

theorem resize_stale (hs : Sound h) (hp : ¬h.Live p) (size : Nat) :
    ∃ e, h.resize (some p) size = (.error e, h) ∧ (e = .invalidPointer p ∨ e = .doubleFree p) := by
  by_cases hz : size = 0
  · obtain ⟨e,he,hk⟩ := freeAt_stale hs hp
    exact ⟨e,by simp only [resize, if_pos hz, he],hk⟩
  · rcases findLive_cases hs p with hb | he
    · exact absurd ((live_iff hs.arranged p).mpr hb) hp
    · exact ⟨_,by simp only [resize, if_neg hz, resizeAt, he],Or.inl rfl⟩

end

end Freestanding.Heap

namespace Freestanding.Script

open Heap (Sound Live)

/-! ## Operations and their requests -/

namespace Op

def index? : Op → Option Nat
  | resize index _ _ => some index
  | free index _ => some index
  | _ => none

def request : Op → Heap.Request
  | allocate size => .allocate size
  | zeroed count size => .allocateZeroed count size
  | resize _ address size => .resize (some address) size
  | free _ address => .free (some address)

theorem request_target {o : Op} {i : Nat} (hi : o.index? = some i) :
    ∃ q, o.request.target? = some q := by
  cases o with
  | resize k a size => exact ⟨a,rfl⟩
  | free k a => exact ⟨a,rfl⟩
  | allocate size => cases hi
  | zeroed count size => cases hi

theorem request_ne_write (o : Op) (q place : Nat) (s : Bytes) : o.request ≠ .write q place s := by
  cases o <;> simp [request]

end Op

variable {σ : Type}

theorem handle_ok {s : Session σ} {op : String} {i a : Nat} (h : s.handle op i = .ok a) :
    s.handles[i]? = some a := by
  unfold Session.handle at h
  split at h
  · rename_i ha
    rw [ha, Except.ok.inj h]
  · cases h

theorem bind_ok {α β : Type} {x : Except CommandError α} {f : α → Except CommandError β} {b : β}
    (h : (x >>= f) = .ok b) : ∃ a, x = .ok a ∧ f a = .ok b := by
  cases x with
  | error e => cases h
  | ok a => exact ⟨a,rfl,h⟩

theorem resolve_target {s : Session σ} {op : String} {o : Op} {i : Nat}
    (h : s.resolve op = .ok o) (hi : o.index? = some i) :
    s.handles[i]? = o.request.target? := by
  unfold Session.resolve at h
  split at h
  · cases h
  · obtain ⟨size,-,h⟩ := bind_ok h
    cases h
    cases hi
  · obtain ⟨count,-,h⟩ := bind_ok h
    obtain ⟨size,-,h⟩ := bind_ok h
    cases h
    cases hi
  · obtain ⟨index,-,h⟩ := bind_ok h
    obtain ⟨address,ha,h⟩ := bind_ok h
    obtain ⟨size,-,h⟩ := bind_ok h
    cases h
    cases hi
    exact handle_ok ha
  · obtain ⟨index,-,h⟩ := bind_ok h
    obtain ⟨address,ha,h⟩ := bind_ok h
    cases h
    cases hi
    exact handle_ok ha

variable [Heap.Store σ]

/-- What carrying out an operation can come to. -/
inductive Acted (s : Session σ) : Op → Except Heap.HeapError Done → Session σ → Prop
  | refused {o : Op} {e : Heap.HeapError} {heap : Heap σ}
      (answer : s.heap.perform o.request = (.error e, heap)) :
      Acted s o (.error e) { s with heap }
  | allocated {o : Op} {p n : Nat} {heap : Heap σ}
      (answer : s.heap.perform o.request = (.ok (some p), heap)) :
      Acted s o (.ok (.allocated s.handles.length n)) ⟨heap,s.handles ++ [p]⟩
  | resized {i a size p n : Nat} {heap : Heap σ}
      (answer : s.heap.perform (.resize (some a) size) = (.ok (some p), heap)) :
      Acted s (.resize i a size) (.ok (.resized i n (p != a))) ⟨heap,s.handles.set i p⟩
  | freed {o : Op} {i : Nat} {heap : Heap σ} (index : o.index? = some i)
      (answer : s.heap.perform o.request = (.ok none, heap)) :
      Acted s o (.ok (.freed i)) { s with heap }

theorem perform_issued_live {h h' : Heap σ} (hs : Sound h) {r : Heap.Request} {p : Nat}
    (hp : h.perform r = (.ok (some p), h')) : h'.Live p := by
  have hr := Heap.perform_step hs r
  rw [hp] at hr
  exact hr.issued_live

theorem adopt_acted {s s' : Session σ} (hs : Sound s.heap) {o : Op}
    {out : Heap.Outcome σ Nat} {answer : Except Heap.HeapError Done}
    (hout : s.heap.perform o.request = Heap.answered some out)
    (ha : s.adopt out = (answer, s')) : Acted s o answer s' := by
  rcases out with ⟨e | p,heap⟩
  · cases ha
    exact .refused hout
  · obtain ⟨n,hn⟩ := perform_issued_live hs hout
    simp only [Session.adopt, hn] at ha
    cases ha
    exact .allocated hout

theorem apply_acted {s : Session σ} (hs : Sound s.heap) (o : Op) :
    Acted s o (s.apply o).1 (s.apply o).2 := by
  cases o with
  | allocate size => exact adopt_acted hs rfl rfl
  | zeroed count size => exact adopt_acted hs rfl rfl
  | resize i a size =>
    rcases hx : s.heap.resize (some a) size with ⟨e | ⟨_ | p⟩,heap⟩
    · simp only [Session.apply, hx]
      exact .refused hx
    · simp only [Session.apply, hx]
      exact .freed rfl hx
    · obtain ⟨n,hn⟩ := perform_issued_live hs (r := .resize (some a) size) hx
      simp only [Session.apply, hx, hn]
      exact .resized hx
  | free i a =>
    rcases hx : s.heap.free (some a) with ⟨e | u,heap⟩
    · simp only [Session.apply, hx]
      exact .refused (Heap.answered_error hx)
    · simp only [Session.apply, hx]
      exact .freed rfl (Heap.answered_ok hx)

theorem perform_done {s s' : Session σ} (hs : Sound s.heap) {op : String} {done : Done}
    (h : s.perform op = (.ok done, s')) :
    ∃ o, s.resolve op = .ok o ∧ Acted s o (.ok done) s' := by
  unfold Session.perform at h
  split at h
  · cases h
  · rename_i o ho
    have ha := apply_acted hs o
    split at h <;> cases h
    rename_i hx
    rw [hx] at ha
    exact ⟨o,ho,ha⟩

def Session.cleared (s : Session σ) : Session σ :=
  { s with heap := { s.heap with journal := [] } }

theorem Session.cleared_sound {s : Session σ} (hs : Sound s.heap) : Sound s.cleared.heap :=
  ⟨hs.arranged,hs.lawful,hs.increment_aligned,hs.increment_pos⟩

/-! ## Stale handles -/

/-- A handle whose address stands for no allocation. -/
structure Stale (s : Session σ) (i p : Nat) : Prop where
  sound : Sound s.heap
  handle : s.handles[i]? = some p
  dead : ¬s.heap.Live p

def Done.issued? (s : Session σ) : Done → Option Nat
  | .allocated index _ => s.handles[index]?
  | .resized index _ true => s.handles[index]?
  | _ => none

def issues (s : Session σ) : List String → List Nat
  | [] => []
  | op :: ops =>
    match s.cleared.perform op with
    | (.error _, _) => []
    | (.ok done, s') => (done.issued? s').toList ++ issues s' ops

theorem run_next {s s' : Session σ} {op : String} {ops : List String} {entries : List Command.Entry}
    (h : run s (op :: ops) = (entries, .ok (), s')) :
    ∃ done s₁ rest, s.cleared.perform op = (.ok done, s₁) ∧ run s₁ ops = (rest, .ok (), s') := by
  rcases hx : s.cleared.perform op with ⟨e | done,s₁⟩
  · unfold Session.cleared at hx
    simp only [run, hx] at h
    cases h
  · refine ⟨done,s₁,(run s₁ ops).1,rfl,Prod.ext rfl ?_⟩
    unfold Session.cleared at hx
    simp only [run, hx] at h
    exact (Prod.mk.inj h).2

theorem run_ends {Q : Session σ → List String → Prop}
    (hstep : ∀ s op ops done s', Q s (op :: ops) →
      s.cleared.perform op = (.ok done, s') → Q s' ops)
    {s s' : Session σ} {ops : List String} {entries : List Command.Entry} (hq : Q s ops)
    (h : run s ops = (entries, .ok (), s')) : Q s' [] := by
  induction ops generalizing s entries with
  | nil =>
    cases h
    exact hq
  | cons op ops ih =>
    obtain ⟨done,s₁,rest,hx,h₁⟩ := run_next h
    exact ih (hstep s op ops done s₁ hq hx) h₁

theorem Acted.step {s s' : Session σ} (hs : Sound s.heap) {o : Op} {done : Done}
    (ha : Acted s o (.ok done) s') : ∃ a, Heap.Step s.heap o.request (.ok a) s'.heap := by
  have hr := Heap.perform_step hs o.request
  cases ha with
  | allocated answer =>
    rw [answer] at hr
    exact ⟨_,hr⟩
  | resized answer =>
    rw [Op.request, answer] at hr
    exact ⟨_,hr⟩
  | freed _ answer =>
    rw [answer] at hr
    exact ⟨_,hr⟩

theorem Acted.sound {s s' : Session σ} (hs : Sound s.heap) {o : Op} {done : Done}
    (ha : Acted s o (.ok done) s') : Sound s'.heap := by
  obtain ⟨a,hr⟩ := ha.step hs
  exact hr.sound

theorem run_sound {s s' : Session σ} {ops : List String} {entries : List Command.Entry}
    (hs : Sound s.heap) (h : run s ops = (entries, .ok (), s')) : Sound s'.heap := by
  refine run_ends (Q := fun s _ => Sound s.heap) ?_ hs h
  intro s op ops done s₁ hs hx
  have hc := Session.cleared_sound hs
  obtain ⟨o,-,ha⟩ := perform_done hc hx
  exact ha.sound hc

theorem freed_stale {s s' : Session σ} (hs : Sound s.heap) {op : String} {i : Nat}
    (h : s.perform op = (.ok (.freed i), s')) :
    ∃ p, s.handles[i]? = some p ∧ s.heap.Live p ∧ Stale s' i p := by
  obtain ⟨o,ho,ha⟩ := perform_done hs h
  have hsound := ha.sound hs
  cases ha with
  | @freed _ _ heap index answer =>
    have htarget := resolve_target ho index
    have hr := Heap.perform_step hs o.request
    rw [answer] at hr
    obtain ⟨p,hp⟩ := Op.request_target index
    rw [hp] at htarget
    exact ⟨p,htarget,hr.target_live hs hp,hsound,htarget,
      hr.target_dead hs (Op.request_ne_write o) hp⟩

namespace Stale

variable {s s' : Session σ} {i p : Nat}

theorem step (hs : Stale s i p) {op : String} {done : Done} (h : s.perform op = (.ok done, s'))
    (hn : done.issued? s' ≠ some p) : Stale s' i p := by
  obtain ⟨o,ho,ha⟩ := perform_done hs.sound h
  have hsound := ha.sound hs.sound
  have hr := Heap.perform_step hs.sound o.request
  cases ha with
  | @allocated _ q n heap answer =>
    rw [answer] at hr
    refine ⟨hsound,?_,fun hl => ?_⟩
    · rw [List.getElem?_append_left (List.getElem?_eq_some_iff.mp hs.handle).1]
      exact hs.handle
    · rcases hr.live_cases hs.sound hl with hl | he
      · exact hs.dead hl
      · cases he
        exact hn (by simp [Done.issued?])
  | @resized k a size q n heap answer =>
    rw [Op.request, answer] at hr
    have hlive : s.heap.Live a := hr.target_live hs.sound rfl
    have hka : s.handles[k]? = some a := resolve_target ho rfl
    have hap : a ≠ p := fun he => hs.dead (he ▸ hlive)
    have hki : k ≠ i := by
      rintro rfl
      rw [hs.handle] at hka
      exact hap (Option.some.inj hka).symm
    refine ⟨hsound,?_,fun hl => ?_⟩
    · rw [List.getElem?_set_ne hki]
      exact hs.handle
    · rcases hr.live_cases hs.sound hl with hl | he
      · exact hs.dead hl
      · cases he
        have hk := (List.getElem?_eq_some_iff.mp hka).1
        have hmoved : (p != a) = true := by simpa using hap.symm
        rw [hmoved] at hn
        exact hn (by simp [Done.issued?, hk])
  | @freed _ k heap index answer =>
    rw [answer] at hr
    refine ⟨hsound,hs.handle,fun hl => ?_⟩
    rcases hr.live_cases hs.sound hl with hl | he
    · exact hs.dead hl
    · cases he

theorem cleared (hs : Stale s i p) : Stale s.cleared i p :=
  ⟨Session.cleared_sound hs.sound,hs.handle,hs.dead⟩

theorem run {ops : List String} {entries : List Command.Entry} (hs : Stale s i p)
    (h : Script.run s ops = (entries, .ok (), s')) (hn : p ∉ issues s ops) : Stale s' i p := by
  refine (run_ends (Q := fun s ops => Stale s i p ∧ p ∉ issues s ops) ?_ ⟨hs,hn⟩ h).1
  rintro s op ops done s₁ ⟨hs,hn⟩ hx
  simp only [issues, hx, List.mem_append, Option.mem_toList, not_or] at hn
  exact ⟨hs.cleared.step hx hn.1,hn.2⟩

theorem refused (hs : Stale s i p) {op : String} {o : Op} (ho : s.resolve op = .ok o)
    (hi : o.index? = some i) :
    ∃ e, s.perform op = (.error (.heap e), s) ∧ (e = .invalidPointer p ∨ e = .doubleFree p) := by
  have htarget := resolve_target ho hi
  rw [hs.handle] at htarget
  cases o with
  | allocate size => cases hi
  | zeroed count size => cases hi
  | resize k a size =>
    cases htarget
    obtain ⟨e,he,hk⟩ := Heap.resize_stale hs.sound hs.dead size
    exact ⟨e,by simp only [Session.perform, ho, Session.apply, he],hk⟩
  | free k a =>
    cases htarget
    obtain ⟨e,he,hk⟩ := Heap.freeAt_stale hs.sound hs.dead
    exact ⟨e,by simp only [Session.perform, ho, Session.apply, Heap.free, he],hk⟩

end Stale

theorem met_live {s s' : Session σ} (hs : Sound s.heap) {op : String} {o : Op} {done : Done}
    (ho : s.resolve op = .ok o) (h : s.perform op = (.ok done, s')) {q : Nat}
    (hq : o.request.target? = some q) : s.heap.Live q := by
  obtain ⟨o',ho',ha⟩ := perform_done hs h
  rw [ho] at ho'
  cases ho'
  obtain ⟨a,hr⟩ := ha.step hs
  exact hr.target_live hs hq

theorem free_met {s : Session σ} (hs : Sound s.heap) {op : String} {i q : Nat}
    (ho : s.resolve op = .ok (.free i q)) (hlive : s.heap.Live q) :
    ∃ s', s.perform op = (.ok (.freed i), s') ∧ ¬s'.heap.Live q := by
  obtain ⟨b,hb,rfl⟩ := (Heap.live_iff hs.arranged q).mp hlive
  obtain ⟨heap,hf,-⟩ := Heap.freeAt_change hs hb
  have hdone : s.perform op = (.ok (.freed i), { s with heap }) := by
    simp only [Session.perform, ho, Session.apply, Heap.free, hf]
  obtain ⟨p,hp,-,hstale⟩ := freed_stale hs hdone
  have htarget : s.handles[i]? = some b.payload := resolve_target ho rfl
  rw [htarget] at hp
  cases hp
  exact ⟨_,hdone,hstale.dead⟩

/-- After a handle was freed in a script, operations on it are turned down and
change nothing as long as its address has not been handed out again. That is
all that keeps them out: an operation that is met finds the address live, and
whenever it is live another free is met. -/
theorem freed_handle_refused_until_reissued (config : Heap.Config) (store : σ)
    (hs : Heap.Lawful [] store) (before later : List String) (op again : String) (i : Nat)
    (e₁ e₂ : List Command.Entry) (s₁ s₂ s₃ : Session σ) (o : Op)
    (hb : run ⟨.empty config store, []⟩ before = (e₁, .ok (), s₁))
    (hf : s₁.cleared.perform op = (.ok (.freed i), s₂))
    (hl : run s₂ later = (e₂, .ok (), s₃))
    (ho : s₃.cleared.resolve again = .ok o) (hi : o.index? = some i) :
    ∃ p q, s₁.handles[i]? = some p ∧ s₃.handles[i]? = some q ∧
      (p ∉ issues s₂ later → ∃ e, s₃.cleared.perform again = (.error (.heap e), s₃.cleared) ∧
        (e = .invalidPointer p ∨ e = .doubleFree p)) ∧
      (∀ done s₄, s₃.cleared.perform again = (.ok done, s₄) → s₃.heap.Live q) ∧
      (o = .free i q → s₃.heap.Live q →
        ∃ s₄, s₃.cleared.perform again = (.ok (.freed i), s₄) ∧ ¬s₄.heap.Live q) := by
  have hs₁ := run_sound (Heap.empty_sound config hs) hb
  obtain ⟨p,hp,-,hstale⟩ := freed_stale (Session.cleared_sound hs₁) hf
  have hs₃ := Session.cleared_sound (run_sound hstale.sound hl)
  obtain ⟨q,hq⟩ := Op.request_target hi
  refine ⟨p,q,hp,(resolve_target ho hi).trans hq,?_,?_,?_⟩
  · intro hn
    exact (hstale.run hl hn).cleared.refused ho hi
  · intro done s₄ h
    exact met_live hs₃ ho h hq
  · rintro rfl hlive
    exact free_met hs₃ ho hlive

theorem resized_handle_refused_until_reissued :
    Heap.Lawful [] (Heap.Arena.unbounded none) ∧
    ∃ s₁ s₂ s₃ : Session Heap.Arena, ∃ e₁ e₂ : List Command.Entry,
      run ⟨.empty {} (.unbounded none), []⟩ ["a8", "a8"] = (e₁, .ok (), s₁) ∧
      s₁.cleared.perform "r0:0" = (.ok (.freed 0), s₂) ∧
      run s₂ ["a100"] = (e₂, .ok (), s₃) ∧ issues s₂ ["a100"] = [35184372088920] ∧
      ∃ e, s₃.cleared.perform "f0" = (.error (.heap e), s₃.cleared) ∧
        (e = .invalidPointer 35184372088856 ∨ e = .doubleFree 35184372088856) := by
  have hl := Heap.Arena.unbounded_lawful none
  refine ⟨hl,_,_,_,_,_,rfl,rfl,rfl,rfl,?_⟩
  obtain ⟨p,q,hp,-,hrefused,-⟩ := freed_handle_refused_until_reissued {} _ hl ["a8", "a8"] ["a100"]
    "r0:0" "f0" 0 _ _ _ _ _ (.free 0 35184372088856) rfl rfl rfl rfl rfl
  cases hp
  exact hrefused (by decide)

/-- The address of a freed handle is handed out again, and a second free of that
handle takes the new allocation away. -/
theorem freed_handle_frees_again :
    ∃ s₁ s₂ s₃ s₄ : Session Heap.Arena, ∃ e₁ e₂ : List Command.Entry,
      run ⟨.empty {} (.unbounded none), []⟩ ["a8"] = (e₁, .ok (), s₁) ∧
      s₁.cleared.perform "f0" = (.ok (.freed 0), s₂) ∧ run s₂ ["a8"] = (e₂, .ok (), s₃) ∧
      s₃.handles[1]? = some 35184372088856 ∧ s₃.heap.Live 35184372088856 ∧
      s₃.cleared.perform "f0" = (.ok (.freed 0), s₄) ∧ ¬s₄.heap.Live 35184372088856 := by
  refine ⟨_,_,_,_,_,_,rfl,rfl,rfl,rfl,⟨8,rfl⟩,rfl,?_⟩
  rintro ⟨n,hn⟩
  cases hn

end Freestanding.Script
