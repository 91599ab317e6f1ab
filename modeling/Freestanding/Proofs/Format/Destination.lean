import Freestanding.Format.Destination
import Freestanding.Proofs.Format.Cut

/-!
# Formatting at the end of a destination

A step that writes to a destination either fails before it writes or puts its
whole text at the end. So formatting keeps what the destination holds, and what
it appends is the output of the template alone. If it fails, the output is that
of the template up to the directive that failed. A buffer takes as much of the
output as leaves room for a NUL.
-/

set_option autoImplicit false

namespace Freestanding.Format

/-! ## One step -/

/-- A step that takes `n` arguments when it succeeds: it writes a text at the end,
or it fails and leaves the destination alone. -/
def Writes (w : Writing Unit) (k : Sink) (n : Nat) : Except FormatError Bytes → Prop
  | .ok text => w.run k = .ok () ⟨k.written ++ text, k.index + n, k.args.drop n⟩
  | .error e => ∃ k', w.run k = .error e k' ∧ k'.written = k.written

theorem put_writes (s : Bytes) (k : Sink) : Writes (Writing.put s) k 0 (.ok s) := rfl

theorem take_writes {α : Type} {d : Directive} {read : Argument → Option α} {field : α → Bytes}
    (hm : ¬maxField < d.requested) (hk : d.takesArgument = true)
    (hf : ∀ a, d.field? a = (read a).map field) (k : Sink) :
    Writes (Writing.take d read >>= fun v => Writing.put (field v)) k 1
      (d.write k.index k.args) := by
  obtain ⟨written,index,args⟩ := k
  cases args with
  | nil =>
    simp only [Directive.write, if_neg hm, if_pos hk]
    exact ⟨_,rfl,rfl⟩
  | cons a args =>
    simp only [Directive.write, if_neg hm, if_pos hk, hf]
    cases hr : read a with
    | some v =>
      simp only [Option.map_some, Writes]
      simp [Writing.take, Writing.put, hr]
    | none =>
      -- The argument is taken although it does not suit; the destination is not touched.
      refine ⟨⟨written,index + 1,args⟩,?_,rfl⟩
      simp [Writing.take, hr]
      rfl

theorem Directive.emit_takes {d : Directive} (hm : ¬maxField < d.requested)
    (hk : d.takesArgument = true) :
    ∃ (α : Type) (read : Argument → Option α) (field : α → Bytes),
      d.emit = (Writing.take d read >>= fun v => Writing.put (field v)) ∧
      ∀ a, d.field? a = (read a).map field := by
  rw [Directive.takesArgument] at hk
  cases hc : d.conversion with
  | signed | unsigned | octal | hex _ =>
    refine ⟨_,_,_,by rw [Directive.emit, if_neg hm, hc],fun a => ?_⟩
    rw [Directive.field?, hc, Option.map_map]
    rfl
  | real _ _ | char | text | pointer =>
    refine ⟨_,_,_,by rw [Directive.emit, if_neg hm, hc],fun a => ?_⟩
    rw [Directive.field?, hc]
  | percent =>
    rw [hc] at hk
    cases hk

theorem Directive.emit_writes (d : Directive) (k : Sink) :
    Writes d.emit k (Piece.directive d).taken (d.write k.index k.args) := by
  by_cases hm : maxField < d.requested
  · simp only [Directive.write, Directive.emit, if_pos hm]
    exact ⟨k,rfl,rfl⟩
  by_cases hk : d.takesArgument = true
  · obtain ⟨α,read,field,he,hf⟩ := Directive.emit_takes hm hk
    rw [he, Piece.taken, if_pos hk]
    exact take_writes hm hk hf k
  · have hc : d.conversion = .percent := by simpa [Directive.takesArgument] using hk
    simp only [Directive.write, Directive.emit, Piece.taken, if_neg hm, if_neg hk, hc]
    exact put_writes [37] k

theorem Piece.emit_writes (p : Piece) (k : Sink) :
    Writes p.emit k p.taken (p.write k.index k.args) := by
  cases p with
  | literal c => exact put_writes [c] k
  | verbatim s => exact put_writes s k
  | directive d => exact d.emit_writes k

/-! ## All steps -/

theorem emitAll_run (ps : List Piece) (k : Sink) : ∃ k',
    (emitAll ps).run k =
      (writePieces k.index k.args ps).error.elim (.ok () k') (EStateM.Result.error · k') ∧
    k'.written = k.written ++ (writePieces k.index k.args ps).written := by
  induction ps generalizing k with
  | nil => exact ⟨k,rfl,by simp [writePieces]⟩
  | cons p ps ih =>
    have hp := p.emit_writes k
    rw [writePieces]
    cases hw : p.write k.index k.args with
    | error e =>
      rw [hw] at hp
      obtain ⟨k',hrun,hsame⟩ := hp
      refine ⟨k',?_,by simp [hsame]⟩
      simp [emitAll, hrun]
    | ok s =>
      rw [hw] at hp
      have hrun : p.emit.run k =
        .ok () ⟨k.written ++ s, k.index + p.taken, k.args.drop p.taken⟩ := hp
      obtain ⟨k',hrest,hwritten⟩ := ih ⟨k.written ++ s, k.index + p.taken, k.args.drop p.taken⟩
      refine ⟨k',?_,by simpa using hwritten⟩
      rw [← hrest]
      simp [emitAll, hrun]

def Output.answer (o : Output) : Except FormatError Nat := o.error.elim (.ok o.written.length) .error

theorem Output.answer_ok {o : Output} {n : Nat} (h : o.answer = .ok n) :
    o.error = none ∧ n = o.written.length := by
  rw [Output.answer] at h
  cases he : o.error with
  | none =>
    rw [he] at h
    exact ⟨rfl,(Except.ok.inj h).symm⟩
  | some e =>
    rw [he] at h
    cases h

theorem Output.answer_error {o : Output} {e : FormatError} (h : o.answer = .error e) :
    o.error = some e := by
  rw [Output.answer] at h
  cases he : o.error with
  | none =>
    rw [he] at h
    cases h
  | some e' =>
    rw [he] at h
    exact congrArg some (Except.error.inj h)

theorem appendTo_eq (dest template : Bytes) (args : List Argument) :
    appendTo dest template args =
      ((run template args).answer, dest ++ (run template args).written) := by
  obtain ⟨k,hrun,hwritten⟩ := emitAll_run (pieces (Bytes.text template)) ⟨dest,0,args⟩
  rw [appendTo, hrun, run, Output.answer]
  cases (writePieces 0 args (pieces (Bytes.text template))).error with
  | none => simp [hwritten]
  | some e => simp [hwritten]

/-! ## The directive that fails -/

theorem writePieces_error {ps : List Piece} {index : Nat} {args : List Argument} {e : FormatError}
    (h : (writePieces index args ps).error = some e) :
    ∃ before p after, ps = before ++ p :: after ∧
      writePieces index args before = ⟨(writePieces index args ps).written, none⟩ ∧
      p.write (index + argumentCount before) (args.drop (argumentCount before)) = .error e := by
  induction ps generalizing index args with
  | nil => cases h
  | cons p ps ih =>
    rw [writePieces] at h ⊢
    cases hw : p.write index args with
    | error e' =>
      simp only [hw, Option.some.injEq] at h
      subst h
      exact ⟨[],p,ps,rfl,rfl,hw⟩
    | ok s =>
      simp only [hw] at h
      obtain ⟨before,q,after,rfl,hbefore,hq⟩ := ih h
      refine ⟨p :: before,q,after,rfl,?_,?_⟩
      · simp only [writePieces, hw, hbefore]
      · rw [argumentCount, ← Nat.add_assoc, ← List.drop_drop]
        exact hq

theorem Piece.write_error {p : Piece} {index : Nat} {args : List Argument} {e : FormatError}
    (h : p.write index args = .error e) : ∃ d, p = .directive d := by
  cases p with
  | directive d => exact ⟨d,rfl⟩
  | _ => cases h

/-- Formatting stopped at a directive: the part of the template in front of it writes
all that was written, and the directive fails on the arguments left and writes
nothing. -/
structure StoppedAt (template : Bytes) (args : List Argument) (e : FormatError) (added : Bytes)
    (before : Bytes) (d : Directive) : Prop where
  place : ∃ s rest, Bytes.text template = before ++ 37 :: s ∧ readDirective? s = some (d, rest)
  succeeds : ∀ dest, appendTo dest before args = (.ok added.length, dest ++ added)
  fails : ∀ dest, ∃ k, d.emit.run ⟨dest ++ added, argumentCount (pieces before),
    args.drop (argumentCount (pieces before))⟩ = .error e k ∧ k.written = dest ++ added

theorem run_error {template : Bytes} {args : List Argument} {e : FormatError}
    (h : (run template args).error = some e) :
    ∃ before d, StoppedAt template args e (run template args).written before d := by
  obtain ⟨ps,p,qs,hps,hwritten,hp⟩ := writePieces_error h
  obtain ⟨d,rfl⟩ := Piece.write_error hp
  obtain ⟨before,v,hcut,rfl,hv⟩ := pieces_cut hps (by simp)
  have hd : ∃ s rest, readDirective? s = some (d, rest) ∧ v = 37 :: s := by
    rcases pieces_eq_cons hv with ⟨_,_,_,_,hd,_⟩ | ⟨_,s,rest,hread,hs,hd,_⟩ | ⟨_,_,_,hd,_⟩
    · cases hd
    · cases hd
      exact ⟨s,rest,hread,hs⟩
    · cases hd
  obtain ⟨s,rest,hread,rfl⟩ := hd
  have hnul : ∀ c ∈ before, c ≠ 0 := by
    intro c hc
    apply Bytes.ne_zero_of_mem_text (s := template)
    rw [hcut]
    exact List.mem_append_left _ hc
  have hbefore : run before args = ⟨(run template args).written, none⟩ := by
    rw [run, Bytes.text_eq_self hnul]
    exact hwritten
  rw [Nat.zero_add] at hp
  refine ⟨before,d,⟨s,rest,hcut,hread⟩,fun dest => ?_,fun dest => ?_⟩
  · rw [appendTo_eq, hbefore]
    rfl
  · have hw := d.emit_writes ⟨dest ++ (run template args).written,
      argumentCount (pieces before),args.drop (argumentCount (pieces before))⟩
    have hfail : d.write (argumentCount (pieces before))
      (args.drop (argumentCount (pieces before))) = .error e := hp
    rw [hfail] at hw
    exact hw

/-! ## Into a buffer -/

theorem storeBounded_getElem? {buf : Bytes} (hb : buf ≠ []) (out : Bytes) (i : Nat) :
    (Buffer.storeBounded buf out)[i]? =
      if i < min out.length (buf.length - 1) then out[i]?
      else if i = min out.length (buf.length - 1) then some 0 else buf[i]? := by
  have hlength : (out.take (buf.length - 1)).length = min out.length (buf.length - 1) := by
    rw [List.length_take, Nat.min_comm]
  rw [Buffer.storeBounded, if_neg (by simpa using hb), Buffer.overwrite, List.take_zero,
    List.nil_append, Nat.zero_add, List.length_append, hlength, List.append_assoc]
  rcases Nat.lt_trichotomy i (min out.length (buf.length - 1)) with hlt | heq | hgt
  · rw [if_pos hlt, List.getElem?_append_left (by omega), List.getElem?_take_of_lt (by omega)]
  · rw [if_neg (by omega), if_pos heq, List.getElem?_append_right (by omega), hlength, heq,
      Nat.sub_self]
    rfl
  · rw [if_neg (by omega), if_neg (by omega), List.getElem?_append_right (by omega), hlength]
    rw [List.getElem?_append_right (by simp; omega), List.getElem?_drop]
    congr 1
    simp only [List.length_singleton]
    omega

theorem formatInto_eq (buf template : Bytes) (args : List Argument) :
    formatInto buf template args =
      ((run template args).answer,
        (run template args).error.elim (Buffer.storeBounded buf (run template args).written)
          fun _ => buf) := by
  rw [formatInto, format, Output.answer]
  cases (run template args).error <;> rfl

/-- Formatting keeps what a destination holds and appends an output that does not
depend on it. An error leaves the output of the template in front of the
directive that failed. Into a buffer goes the same output, cut to leave room
for a NUL, and an error leaves the buffer as it was. -/
theorem formatting_only_appends (template : Bytes) (args : List Argument) :
    (∃ added answer, (∀ dest, appendTo dest template args = (answer, dest ++ added)) ∧
      (∀ n, answer = .ok n → n = added.length) ∧
      ∀ e, answer = .error e → ∃ before d, StoppedAt template args e added before d) ∧
    ∀ buf, (formatInto buf template args).1 = (appendTo [] template args).1 ∧
      ((∃ e, (formatInto buf template args).1 = .error e) ∨ buf = [] →
        (formatInto buf template args).2 = buf) ∧
      ∀ n, (formatInto buf template args).1 = .ok n → buf ≠ [] → ∀ i,
        (formatInto buf template args).2[i]? =
          if i < min n (buf.length - 1) then (appendTo [] template args).2[i]?
          else if i = min n (buf.length - 1) then some 0 else buf[i]? := by
  refine ⟨⟨(run template args).written,_,fun dest => appendTo_eq dest template args,?_,?_⟩,?_⟩
  · intro n hn
    exact (Output.answer_ok hn).2
  · intro e he
    exact run_error (Output.answer_error he)
  · intro buf
    rw [formatInto_eq, appendTo_eq]
    refine ⟨rfl,?_,?_⟩
    · rintro (⟨e,he⟩ | rfl)
      · simp only [Output.answer_error he, Option.elim_some]
      · cases (run template args).error <;> rfl
    · intro n hn hb i
      obtain ⟨he,rfl⟩ := Output.answer_ok hn
      simp only [he, Option.elim_none]
      exact storeBounded_getElem? hb _ i

theorem mismatch_only_appends :
    appendTo [120] [97, 37, 100, 37, 115, 33] [.int 42, .int 8] =
      (.error (.argumentMismatch 1 115 "integer"), [120, 97, 52, 50]) ∧
    (∃ before d, StoppedAt [97, 37, 100, 37, 115, 33] [.int 42, .int 8]
      (.argumentMismatch 1 115 "integer") [97, 52, 50] before d) ∧
    (formatInto [255, 255, 255] [97, 37, 100, 37, 115, 33] [.int 42, .int 8]).2 =
      [255, 255, 255] ∧
    (formatInto [255, 255, 255] [97, 37, 100] [.int 42]).1 = .ok 3 ∧
    (formatInto [255, 255, 255] [97, 37, 100] [.int 42]).2[2]? = some 0 := by
  have hx : appendTo [120] [97, 37, 100, 37, 115, 33] [.int 42, .int 8] =
      (.error (.argumentMismatch 1 115 "integer"), [120, 97, 52, 50]) := by decide +kernel
  have he : (formatInto [255, 255, 255] [97, 37, 100, 37, 115, 33] [.int 42, .int 8]).1 =
      .error (.argumentMismatch 1 115 "integer") := by decide +kernel
  have hn : (formatInto [255, 255, 255] [97, 37, 100] [.int 42]).1 = .ok 3 := by decide +kernel
  obtain ⟨⟨added,answer,hdest,-,hstop⟩,hbuf⟩ :=
    formatting_only_appends [97, 37, 100, 37, 115, 33] [.int 42, .int 8]
  have h := hx.symm.trans (hdest [120])
  obtain ⟨rfl,hadded⟩ := Prod.mk.inj h
  obtain rfl : [97, 52, 50] = added := List.cons.inj hadded |>.2
  refine ⟨hx,hstop _ rfl,(hbuf [255, 255, 255]).2.1 (Or.inl ⟨_,he⟩),hn,?_⟩
  exact ((formatting_only_appends [97, 37, 100] [.int 42]).2 [255, 255, 255]).2.2 3 hn (by simp) 2

end Freestanding.Format
