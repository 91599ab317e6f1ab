import Freestanding.Bytes.Buffer
import Mathlib.Data.List.Basic

/-!
# Edits stay in their buffer

An edit that fits overwrites a part of the buffer, so no edit changes its length;
one that does not fit changes nothing. A text fits if there is room for its NUL,
and then the buffer holds it with all bytes behind the NUL as they were. Moving
bytes within a buffer is copying them to another one and back.
-/

set_option autoImplicit false

namespace Freestanding.Buffer

open Bytes (text textLength)

/-! ## Overwriting -/

theorem length_overwrite {buf src : Bytes} {pos : Nat} (h : pos + src.length ≤ buf.length) :
    (overwrite buf src pos).length = buf.length := by
  simp only [overwrite, List.length_append, List.length_take, List.length_drop]
  omega

theorem overwrite_start (buf src : Bytes) : overwrite buf src 0 = src ++ buf.drop src.length := by
  simp [overwrite]

theorem overwrite_text (buf src : Bytes) :
    overwrite buf src (textLength buf) = overwrite buf (text buf ++ src) 0 := by
  have htake : buf.take (textLength buf) = text buf :=
    (List.prefix_iff_eq_take.mp (List.takeWhile_prefix _)).symm
  rw [overwrite_start, overwrite, htake, List.length_append]
  rfl

theorem text_stored {t : Bytes} (ht : ∀ c ∈ t, c ≠ 0) (rest : Bytes) : text (t ++ 0 :: rest) = t := by
  rw [Bytes.text_append ht]
  simp [text]

/-! ## One edit -/

theorem edit?_overwrites {buf out : Bytes} {e : Edit} (h : edit? buf e = some out) :
    ∃ src pos, pos + src.length ≤ buf.length ∧ out = overwrite buf src pos := by
  have hmap : ∀ f, mapText f buf = overwrite buf ((text buf).map f) 0 := by
    intro f
    rw [overwrite_start, List.length_map]
    rfl
  have htext : (text buf).length ≤ buf.length := (List.takeWhile_prefix _).length_le
  cases e with
  | setText _ | setField _ _ | append _ | appendUpTo _ _ | fill _ _ | copy _ _ | move _ _ _ =>
    obtain ⟨hfits,ho⟩ := Option.ite_none_right_eq_some.mp h
    obtain rfl := Option.some.inj ho
    refine ⟨_,_,?_,rfl⟩
    simp only [List.length_append, List.length_take, List.length_drop, List.length_replicate,
      List.length_singleton] at hfits ⊢
    omega
  | lower | upper =>
    obtain rfl := Option.some.inj h
    exact ⟨_,_,by simpa using htext,hmap _⟩

theorem edit_cases (buf : Bytes) (e : Edit) :
    (edit? buf e = none ∧ edit buf e = (false,buf)) ∨
    ∃ out, edit? buf e = some out ∧ edit buf e = (true,out) := by
  rw [edit]
  cases edit? buf e with
  | none => exact Or.inl ⟨rfl,rfl⟩
  | some out => exact Or.inr ⟨out,rfl,rfl⟩

theorem length_edit (buf : Bytes) (e : Edit) : (edit buf e).2.length = buf.length := by
  rcases edit_cases buf e with ⟨-,h⟩ | ⟨out,ho,h⟩
  · rw [h]
  · obtain ⟨src,pos,hfits,rfl⟩ := edit?_overwrites ho
    rw [h, length_overwrite hfits]

theorem edit_refused {buf : Bytes} {e : Edit} (h : (edit buf e).1 = false) :
    (edit buf e).2 = buf := by
  rcases edit_cases buf e with ⟨-,he⟩ | ⟨out,-,he⟩
  · rw [he]
  · rw [he] at h
    cases h

/-! ## Texts -/

def textAfter? (buf : Bytes) : Edit → Option Bytes
  | .setText src => some (text src)
  | .append src => some (text buf ++ text src)
  | .appendUpTo src n => some (text buf ++ (text src).take n)
  | _ => none

theorem textAfter?_ne_zero {buf t : Bytes} {e : Edit} (h : textAfter? buf e = some t) :
    ∀ c ∈ t, c ≠ 0 := by
  intro c hc
  cases e with
  | setText src =>
    obtain rfl := Option.some.inj h
    exact Bytes.ne_zero_of_mem_text hc
  | append src =>
    obtain rfl := Option.some.inj h
    rcases List.mem_append.mp hc with hc | hc
    · exact Bytes.ne_zero_of_mem_text hc
    · exact Bytes.ne_zero_of_mem_text hc
  | appendUpTo src n =>
    obtain rfl := Option.some.inj h
    rcases List.mem_append.mp hc with hc | hc
    · exact Bytes.ne_zero_of_mem_text hc
    · exact Bytes.ne_zero_of_mem_text (List.mem_of_mem_take hc)
  | _ => cases h

theorem appendBytes_eq (buf src : Bytes) : appendBytes buf src =
    if (text buf ++ src).length + 1 ≤ buf.length then
      some ((text buf ++ src) ++ 0 :: buf.drop ((text buf ++ src).length + 1))
    else none := by
  rw [appendBytes, overwrite_text, overwrite_start]
  simp only [textLength, List.length_append, List.length_singleton, List.append_assoc,
    List.singleton_append, Nat.add_assoc]
  rfl

/-- Text is written with its NUL or not at all, and what lies behind stays. -/
theorem edit?_text {buf t : Bytes} {e : Edit} (h : textAfter? buf e = some t) :
    edit? buf e =
      if t.length + 1 ≤ buf.length then some (t ++ 0 :: buf.drop (t.length + 1)) else none := by
  cases e with
  | setText src =>
    obtain rfl := Option.some.inj h
    simp only [edit?, overwrite_start, List.length_append, List.length_singleton,
      List.append_assoc, List.singleton_append]
    rfl
  | append src =>
    obtain rfl := Option.some.inj h
    exact appendBytes_eq buf (text src)
  | appendUpTo src n =>
    obtain rfl := Option.some.inj h
    exact appendBytes_eq buf ((text src).take n)
  | _ => cases h

/-! ## Moving bytes -/

structure MovedThrough (buf room : Bytes) (dest src n : Nat) (out : Bytes) : Prop where
  copied : (edit room (.copy (buf.drop src) n)).1 = true
  back : (edit (buf.drop dest) (.copy (edit room (.copy (buf.drop src) n)).2 n)).1 = true
  whole : out = buf.take dest ++
    (edit (buf.drop dest) (.copy (edit room (.copy (buf.drop src) n)).2 n)).2

theorem edit_copy {buf src : Bytes} {n : Nat} (hb : n ≤ buf.length) (hs : n ≤ src.length) :
    edit buf (.copy src n) = (true,src.take n ++ buf.drop n) := by
  rw [edit, edit?, if_pos ⟨hb,hs⟩, overwrite_start, List.length_take_of_le hs]

theorem edit_move {buf : Bytes} {dest src n : Nat} (hd : dest + n ≤ buf.length)
    (hs : src + n ≤ buf.length) : edit buf (.move dest src n) =
      (true,buf.take dest ++ ((buf.drop src).take n ++ buf.drop (dest + n))) := by
  have hlen : ((buf.drop src).take n).length = n := by
    rw [List.length_take, List.length_drop]
    omega
  rw [edit, edit?, if_pos ⟨hd,hs⟩, overwrite, hlen, List.append_assoc]

theorem moved_through {buf room : Bytes} {dest src n : Nat} (hd : dest + n ≤ buf.length)
    (hs : src + n ≤ buf.length) (hroom : n ≤ room.length) :
    MovedThrough buf room dest src n (edit buf (.move dest src n)).2 := by
  have hfrom : n ≤ (buf.drop src).length := by
    rw [List.length_drop]
    omega
  have hto : n ≤ (buf.drop dest).length := by
    rw [List.length_drop]
    omega
  have hlen : ((buf.drop src).take n).length = n := List.length_take_of_le hfrom
  have hout := edit_copy hroom hfrom
  have hback : edit (buf.drop dest) (.copy (edit room (.copy (buf.drop src) n)).2 n) =
      (true,(buf.drop src).take n ++ buf.drop (dest + n)) := by
    rw [hout, edit_copy hto (by simp [hlen]), List.take_left' hlen, List.drop_drop]
  refine ⟨by rw [hout],by rw [hback],?_⟩
  rw [hback, edit_move hd hs]

theorem edit_move_fits {buf : Bytes} {dest src n : Nat} :
    (edit buf (.move dest src n)).1 = true ↔ dest + n ≤ buf.length ∧ src + n ≤ buf.length := by
  constructor
  · intro h
    rcases edit_cases buf (.move dest src n) with ⟨-,he⟩ | ⟨out,ho,-⟩
    · rw [he] at h
      cases h
    · exact (Option.ite_none_right_eq_some.mp ho).1
  · rintro ⟨hd,hs⟩
    rw [edit_move hd hs]

/-! ## All edits -/

/-- What an edit that turns `buf` into `out` answers and does. -/
structure Bounded (buf : Bytes) (e : Edit) (fits : Bool) (out : Bytes) : Prop where
  length : out.length = buf.length
  refused : fits = false → out = buf
  texts : ∀ t, textAfter? buf e = some t → (fits = true ↔ t.length + 1 ≤ buf.length) ∧
    (fits = true → text out = t ∧ out.drop (t.length + 1) = buf.drop (t.length + 1))
  moves : ∀ dest src n, e = .move dest src n →
    (fits = true ↔ dest + n ≤ buf.length ∧ src + n ≤ buf.length) ∧
    (fits = true → ∀ room : Bytes, n ≤ room.length → MovedThrough buf room dest src n out)

theorem edit_text {buf t : Bytes} {e : Edit} (h : textAfter? buf e = some t) :
    ((edit buf e).1 = true ↔ t.length + 1 ≤ buf.length) ∧
    ((edit buf e).1 = true → text (edit buf e).2 = t ∧
      (edit buf e).2.drop (t.length + 1) = buf.drop (t.length + 1)) := by
  rw [edit, edit?_text h]
  by_cases hfits : t.length + 1 ≤ buf.length
  · rw [if_pos hfits]
    refine ⟨by simp [hfits],fun _ => ⟨text_stored (textAfter?_ne_zero h) _,?_⟩⟩
    rw [List.drop_append]
    simp
  · rw [if_neg hfits]
    simp [hfits]

theorem edit_bounded (buf : Bytes) (e : Edit) : Bounded buf e (edit buf e).1 (edit buf e).2 where
  length := length_edit buf e
  refused := edit_refused
  texts := fun _ => edit_text
  moves := by
    rintro dest src n rfl
    refine ⟨edit_move_fits,fun hfits room hroom => ?_⟩
    obtain ⟨hd,hs⟩ := edit_move_fits.mp hfits
    exact moved_through hd hs hroom

def contents (buf : Bytes) : List Edit → Bytes
  | [] => buf
  | e :: es => contents (edit buf e).2 es

theorem length_contents (buf : Bytes) (es : List Edit) : (contents buf es).length = buf.length := by
  induction es generalizing buf with
  | nil => rfl
  | cons e es ih => rw [contents, ih, length_edit]

theorem edits_append (buf : Bytes) (es fs : List Edit) :
    edits buf (es ++ fs) = edits buf es ++ edits (contents buf es) fs := by
  induction es generalizing buf with
  | nil => rfl
  | cons e es ih => rw [List.cons_append, edits, ih, edits, contents, List.cons_append]

/-- Whatever was done to a buffer before, an edit keeps its length, and one that is
refused keeps every byte. A text is written if it fits with its NUL, and the bytes
behind the NUL are kept. Bytes that are moved are those that would come through
another buffer. -/
theorem edits_stay_in_buffer (buf : Bytes) (before after : List Edit) (e : Edit) :
    ∃ fits out, edits buf (before ++ e :: after) =
        edits buf before ++ (fits,out) :: edits out after ∧
      out.length = buf.length ∧ Bounded (contents buf before) e fits out := by
  have hbounded := edit_bounded (contents buf before) e
  refine ⟨_,_,?_,?_,hbounded⟩
  · rw [edits_append]
    rfl
  · rw [hbounded.length, length_contents]

theorem edits_of_six_bytes :
    edits [120, 0, 1, 2, 3, 4] [.append [121, 122], .appendUpTo [97, 98, 99] 3, .move 2 0 4] =
      [(true,[120, 121, 122, 0, 3, 4]),(false,[120, 121, 122, 0, 3, 4]),
        (true,[120, 121, 120, 121, 122, 0])] ∧
    Bounded [120, 0, 1, 2, 3, 4] (.append [121, 122]) true [120, 121, 122, 0, 3, 4] ∧
    Bounded [120, 121, 122, 0, 3, 4] (.move 2 0 4) true [120, 121, 120, 121, 122, 0] ∧
    MovedThrough [120, 121, 122, 0, 3, 4] [9, 9, 9, 9] 2 0 4 [120, 121, 120, 121, 122, 0] := by
  obtain ⟨fits,out,he,-,happended⟩ := edits_stay_in_buffer [120, 0, 1, 2, 3, 4] []
    [.appendUpTo [97, 98, 99] 3, .move 2 0 4] (.append [121, 122])
  obtain ⟨hf,-⟩ := List.cons.inj he
  obtain ⟨rfl,rfl⟩ := Prod.mk.inj hf
  obtain ⟨fits,out,he,-,hmoved⟩ := edits_stay_in_buffer [120, 0, 1, 2, 3, 4]
    [.append [121, 122], .appendUpTo [97, 98, 99] 3] [] (.move 2 0 4)
  rw [edits_append] at he
  obtain ⟨hf,-⟩ := List.cons.inj (List.append_cancel_left he)
  obtain ⟨rfl,rfl⟩ := Prod.mk.inj hf
  exact ⟨rfl,happended,hmoved,(hmoved.moves 2 0 4 rfl).2 rfl [9, 9, 9, 9] (by decide)⟩

end Freestanding.Buffer
