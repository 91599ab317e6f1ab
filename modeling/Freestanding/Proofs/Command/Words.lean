import Freestanding.Command.Run
import Freestanding.Proofs.Format.Takers

/-!
# Words as arguments

The words of a command line are converted one by one for the directives of a
template, and what a word is converted to suits the directive it is for. So
formatting never turns an argument down. It can only lack one, and it does so
exactly when there are fewer words than directives.
-/

set_option autoImplicit false

namespace Freestanding.Command

open Format

def Converted (d : Directive) : Except CommandError (Argument × List LogEntry) → Prop
  | .ok (a, _) => (d.field? a).isSome
  | .error (.conversion _) | .error (.badArgument _) => True
  | .error _ => False

theorem wholeNumber_converted {α : Type} {d : Directive} {f : α → Argument}
    (hf : ∀ v, (d.field? (f v)).isSome) (word : String) (p : Numeral.Parsed α) :
    Converted d ((wholeNumber d word p).map fun x => (f x.1, x.2)) := by
  unfold wholeNumber
  split_ifs
  · exact hf p.value
  · exact hf p.value
  · trivial

theorem argument_converted (d : Directive) (word : String) :
    Converted d (argument d word) := by
  unfold argument
  cases hk : d.conversion with
  | signed =>
    simp only
    split
    · trivial
    · exact wholeNumber_converted (fun v => by simp [Directive.field?, hk, Argument.signed?]) _ _
  | unsigned | octal | hex _ =>
    simp only
    split
    · trivial
    · exact wholeNumber_converted (fun v => by simp [Directive.field?, hk, Argument.unsigned?]) _ _
  | pointer =>
    simp only
    split
    · trivial
    · exact wholeNumber_converted (fun v => by simp [Directive.field?, hk, Argument.pointer?]) _ _
  | real style upper =>
    exact wholeNumber_converted (fun v => by simp [Directive.field?, hk, Argument.real?]) _ _
  | char =>
    simp only
    split
    · simp [Converted, Directive.field?, hk, Argument.char?]
    · trivial
  | text => simp [Converted, Directive.field?, hk, Argument.text?]
  | percent => simp [Converted, Directive.field?, hk]

theorem arguments_suited {ds : List Directive} {words : List String} {args : List Argument}
    (h : (arguments ds words).2 = .ok args) :
    Suited ds args ∧ args.length = min ds.length words.length := by
  fun_induction arguments ds words generalizing args with
  | case1 d ds w ws e he => cases h
  | case2 d ds w ws a log ha logs rest hr ih =>
    cases rest with
    | error e => cases h
    | ok tail =>
      cases h
      obtain ⟨hs,hl⟩ := ih (by rw [hr])
      have hd := argument_converted d w
      rw [ha] at hd
      refine ⟨⟨hd,hs⟩,?_⟩
      simp only [List.length_cons, hl]
      omega
  | case3 ds ws hn =>
    cases h
    refine ⟨by cases ds <;> trivial,?_⟩
    cases ds with
    | nil => simp
    | cons d ds =>
      cases ws with
      | nil => simp
      | cons w ws => exact (hn d ds w ws rfl rfl).elim

theorem arguments_ok {ds : List Directive} {words : List String}
    (h : ∀ p ∈ ds.zip words, ∃ a, argument p.1 p.2 = .ok a) :
    ∃ args, (arguments ds words).2 = .ok args := by
  fun_induction arguments ds words with
  | case1 d ds w ws e he =>
    obtain ⟨a,ha⟩ := h (d, w) (by simp)
    rw [he] at ha
    cases ha
  | case2 d ds w ws a log ha logs rest hr ih =>
    obtain ⟨tail,ht⟩ := ih fun p hp => h p (by simp [hp])
    rw [hr] at ht
    obtain rfl : rest = .ok tail := ht
    exact ⟨a :: tail,rfl⟩
  | case3 ds ws hn => exact ⟨[],rfl⟩

theorem arguments_error {ds : List Directive} {words : List String} {e : CommandError}
    (h : (arguments ds words).2 = .error e) : ∃ d word, argument d word = .error e := by
  fun_induction arguments ds words with
  | case1 d ds w ws e' he =>
    cases h
    exact ⟨d,w,he⟩
  | case2 d ds w ws a log ha logs rest hr ih =>
    cases rest with
    | error e' =>
      cases h
      exact ih (by rw [hr])
    | ok tail => cases h
  | case3 ds ws hn => cases h

theorem written_logs (logs : List LogEntry) (s : Bytes) :
    (Transcript.output (logs.map Entry.log ++ [.write s])).written = s := by
  induction logs with
  | nil => exact List.append_nil s
  | cons l logs ih => exact ih

theorem formatWords_ends (spec : String) (words : List String) :
    (∃ e, (arguments (argumentDirectives (Bytes.ofString spec)) words).2 = .error e ∧
      (formatWords spec words).error = some e) ∨
    ∃ args, (arguments (argumentDirectives (Bytes.ofString spec)) words).2 = .ok args ∧
      (formatWords spec words).error =
        (Format.run (Bytes.ofString spec) args).error.map CommandError.format ∧
      ((formatWords spec words).error = none →
        format (Bytes.ofString spec) args = .ok (formatWords spec words).written) := by
  unfold formatWords
  cases ha : (arguments (argumentDirectives (Bytes.ofString spec)) words).2 with
  | error e => exact Or.inl ⟨e,rfl,by simp only [ha, Transcript.failure]⟩
  | ok args =>
    refine Or.inr ⟨args,rfl,?_⟩
    cases hr : (Format.run (Bytes.ofString spec) args).error with
    | none =>
      simp only [ha, format, hr]
      exact ⟨rfl,fun _ => by rw [written_logs]⟩
    | some e =>
      simp only [ha, format, hr]
      exact ⟨rfl,fun h => by cases h⟩

theorem arguments_suited_text {s : Bytes} {words : List String} {args : List Argument}
    (h : (arguments (argumentDirectives s) words).2 = .ok args) :
    Suited (takers (pieces (Bytes.text s))) args := by
  obtain ⟨more,hmore⟩ := argumentDirectives_text s
  have hs := (arguments_suited h).1
  rw [hmore] at hs
  rw [takers_pieces]
  exact hs.of_append

theorem formatWords_no_mismatch (spec : String) (words : List String) (index : Nat)
    (letter : UInt8) (found : String) :
    (formatWords spec words).error ≠ some (.format (.argumentMismatch index letter found)) := by
  rcases formatWords_ends spec words with ⟨e,ha,he⟩ | ⟨args,ha,he,-⟩
  · obtain ⟨d,word,hd⟩ := arguments_error ha
    intro h
    rw [he] at h
    cases h
    have hd' := argument_converted d word
    rw [hd] at hd'
    exact hd'
  · rw [he]
    intro h
    obtain ⟨e,hrun,hcause⟩ := Option.map_eq_some_iff.mp h
    cases hcause
    exact writePieces_no_mismatch 0 (arguments_suited_text ha) index letter found hrun

/-- Where every word can be converted and no field is too wide, only an argument
can be missing: the one for the first directive without a word. -/
theorem formatWords_error {spec : String} {words : List String}
    (hnul : 0 ∉ Bytes.ofString spec)
    (hwidth : ∀ d, .directive d ∈ pieces (Bytes.ofString spec) → d.requested ≤ maxField)
    (hwords : ∀ p ∈ (argumentDirectives (Bytes.ofString spec)).zip words,
      ∃ a, argument p.1 p.2 = .ok a) :
    (formatWords spec words).error =
      (argumentDirectives (Bytes.ofString spec))[words.length]?.map
        fun d => .format (.missingArgument words.length d.letter) := by
  obtain ⟨args,hargs⟩ := arguments_ok hwords
  rcases formatWords_ends spec words with ⟨e,ha,-⟩ | ⟨args',ha,he,-⟩
  · rw [hargs] at ha
    cases ha
  · have htext : Bytes.text (Bytes.ofString spec) = Bytes.ofString spec :=
      Bytes.text_eq_self fun c hmem hz => hnul (hz ▸ hmem)
    have hs := arguments_suited_text ha
    have hl := (arguments_suited ha).2
    rw [htext] at hs
    have hrun := writePieces_suited 0 hs hwidth
    rw [takers_pieces] at hrun
    rw [he, Format.run, htext, hrun, Option.map_map, Nat.zero_add]
    by_cases hlt : words.length < (argumentDirectives (Bytes.ofString spec)).length
    · rw [hl, Nat.min_eq_right (Nat.le_of_lt hlt)]
      rfl
    · have hle := Nat.not_lt.mp hlt
      rw [hl, Nat.min_eq_left hle, List.getElem?_eq_none hle, List.getElem?_eq_none (Nat.le_refl _)]
      rfl

/-- Words are converted for the directives that formatting meets: no argument is
of the wrong kind for its directive. Where no field is too wide and every word
can be converted, the command writes the formatted text when there are as many
words as directives, and otherwise it reports the first argument that is
missing. -/
theorem words_match_directives (now : Int) (config : Heap.Config) (spec : String)
    (words : List String) :
    (∀ index letter found, (run now config (.printf spec words)).error ≠
      some (.format (.argumentMismatch index letter found))) ∧
    (0 ∉ Bytes.ofString spec →
      (∀ d, .directive d ∈ pieces (Bytes.ofString spec) → d.requested ≤ maxField) →
      (∀ p ∈ (argumentDirectives (Bytes.ofString spec)).zip words,
        ∃ a, argument p.1 p.2 = .ok a) →
      ((argumentDirectives (Bytes.ofString spec)).length ≤ words.length →
        (run now config (.printf spec words)).error = none ∧
        ∃ args, (arguments (argumentDirectives (Bytes.ofString spec)) words).2 = .ok args ∧
          format (Bytes.ofString spec) args =
            .ok (run now config (.printf spec words)).written) ∧
      ∀ h : words.length < (argumentDirectives (Bytes.ofString spec)).length,
        (run now config (.printf spec words)).error =
          some (.format (.missingArgument words.length
            (argumentDirectives (Bytes.ofString spec))[words.length].letter))) := by
  refine ⟨formatWords_no_mismatch spec words,?_⟩
  intro hnul hwidth hwords
  have herror := formatWords_error hnul hwidth hwords
  refine ⟨fun hle => ?_,fun hlt => ?_⟩
  · rw [List.getElem?_eq_none hle] at herror
    refine ⟨herror,?_⟩
    rcases formatWords_ends spec words with ⟨e,-,he⟩ | ⟨args,ha,-,hout⟩
    · rw [herror] at he
      cases he
    · exact ⟨args,ha,hout herror⟩
  · rw [List.getElem?_eq_getElem hlt] at herror
    exact herror

theorem number_and_text_match_directives :
    (run 0 {} (.printf "%y%5d %% %s" ["-12"])).error =
      some (.format (.missingArgument 1 115)) ∧
    (run 0 {} (.printf "%y%5d %% %s" ["-12", "ab", "c"])).error = none := by
  have hnul : 0 ∉ Bytes.ofString "%y%5d %% %s" := by decide +kernel
  have hpieces : pieces (Bytes.ofString "%y%5d %% %s") =
      [.verbatim [37, 121], .directive ⟨⟨{},5,none,.int⟩,.signed,100⟩, .literal 32,
        .directive ⟨⟨{},0,none,.int⟩,.percent,37⟩, .literal 32,
        .directive ⟨⟨{},0,none,.int⟩,.text,115⟩] := by decide +kernel
  have hwidth : ∀ d, .directive d ∈ pieces (Bytes.ofString "%y%5d %% %s") →
      d.requested ≤ maxField := by
    intro d hd
    simp only [hpieces, List.mem_cons, Piece.directive.injEq, reduceCtorEq, false_or,
      List.not_mem_nil, or_false] at hd
    rcases hd with rfl | rfl | rfl <;> decide
  have hdirectives : argumentDirectives (Bytes.ofString "%y%5d %% %s") =
      [⟨⟨{},5,none,.int⟩,.signed,100⟩, ⟨⟨{},0,none,.int⟩,.text,115⟩] := by decide +kernel
  have hnumber : argument ⟨⟨{},5,none,.int⟩,.signed,100⟩ "-12" = .ok (.int (-12), []) := rfl
  have htext : argument ⟨⟨{},0,none,.int⟩,.text,115⟩ "ab" = .ok (.text (some [97, 98]), []) := rfl
  have hshort := (words_match_directives 0 {} "%y%5d %% %s" ["-12"]).2 hnul hwidth
    (by simp [hdirectives, hnumber])
  have hlong := (words_match_directives 0 {} "%y%5d %% %s" ["-12", "ab", "c"]).2 hnul hwidth
    (by simp [hdirectives, hnumber, htext])
  simp only [hdirectives] at hshort hlong
  exact ⟨hshort.2 (by decide),(hlong.1 (by decide)).1⟩

end Freestanding.Command
