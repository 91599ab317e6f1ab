import Freestanding.Scan.Run
import Freestanding.Proofs.Format.RoundTrip

/-!
# Printed fields

An entry is a value with the directive that prints it and scans it. Entries
joined by blanks make up a template and, printed, a text. Formatting by the
template writes that text, one field for every entry.
-/

set_option autoImplicit false

namespace Freestanding.Scan

open Format

def Solid (c : UInt8) : Prop := c ≠ 0 ∧ Bytes.isBlank c = false

instance : DecidablePred Solid := fun c => inferInstanceAs (Decidable (c ≠ 0 ∧ _ = false))

inductive Entry
  | signed (detect : Bool) (value : Int64)
  | unsigned (value : UInt64)
  | octal (value : UInt64)
  | hex (upper : Bool) (value : UInt64)
  | char (c : UInt8) (solid : Solid c)
  | word (s : Bytes) (nonempty : s ≠ []) (solid : ∀ c ∈ s, Solid c)

namespace Entry

def letter : Entry → Char
  | signed detect _ => if detect then 'i' else 'd'
  | unsigned _ => 'u'
  | octal _ => 'o'
  | hex upper _ => if upper then 'X' else 'x'
  | char _ _ => 'c'
  | word _ _ _ => 's'

def lengthChars : Entry → List Char
  | char _ _ | word _ _ _ => []
  | _ => ['l']

def directive (e : Entry) : Bytes := ('%' :: (e.lengthChars ++ [e.letter])).map Char.toUInt8

def argument : Entry → Argument
  | signed _ v => .int v
  | unsigned v | octal v | hex _ v => .uint v
  | char c _ => .char c
  | word s _ _ => .text (some s)

def value : Entry → Value
  | signed _ v => .int v
  | unsigned v | octal v | hex _ v => .uint v
  | char c _ => .char c
  | word s _ _ => .text s

def printed : Entry → Bytes
  | signed _ v => Numeral.integer 10 v.toInt
  | unsigned v => Numeral.natural 10 false v.toNat
  | octal v => Numeral.natural 8 false v.toNat
  | hex upper v => Numeral.natural 16 upper v.toNat
  | char c _ => [c]
  | word s _ _ => s

def conversion : Entry → Conversion
  | signed _ _ => .signed
  | unsigned _ => .unsigned
  | octal _ => .octal
  | hex upper _ => .hex upper
  | char _ _ => .char
  | word _ _ _ => .text

def length : Entry → Format.Length
  | char _ _ | word _ _ _ => .int
  | _ => .long

def read (e : Entry) : Directive := ⟨⟨{},0,none,e.length⟩,e.conversion,e.letter.toUInt8⟩

theorem readDirective?_directive (e : Entry) (rest : Bytes) :
    ∃ s, e.directive ++ rest = 37 :: s ∧ readDirective? s = some (e.read, rest) := by
  refine ⟨(e.lengthChars ++ [e.letter]).map Char.toUInt8 ++ rest,rfl,?_⟩
  cases e with
  | signed detect v => cases detect <;> rfl
  | unsigned v => rfl
  | octal v => rfl
  | hex upper v => cases upper <;> rfl
  | char c h => rfl
  | word s hn h => rfl

theorem integerField_bare (l : Format.Length) (k : Conversion) (c : UInt8) (negative : Bool)
    (m : Nat) : integerField ⟨⟨{},0,none,l⟩,k,c⟩ negative m =
      integerFront ⟨⟨{},0,none,l⟩,k,c⟩ negative m (Numeral.natural k.base k.isUpper m) ++
        Numeral.natural k.base k.isUpper m := by
  simp [integerField, padded, integerDigits]

theorem read_field (e : Entry) : e.read.field? e.argument = some e.printed := by
  cases e with
  | signed detect v =>
    simp only [read, conversion, length, Directive.field?, argument, Argument.signed?,
      Option.map_some, Format.Length.signed, integerField_bare, printed, Numeral.integer]
    by_cases hv : v.toInt < 0
    · simp [hv, integerFront, signText, Conversion.base, Conversion.isUpper]
    · simp [hv, integerFront, signText, Conversion.base, Conversion.isUpper]
  | unsigned v =>
    simp [read, conversion, length, Directive.field?, argument, Argument.unsigned?,
      Format.Length.unsigned, integerField_bare, printed, integerFront, Conversion.base,
      Conversion.isUpper]
  | octal v =>
    simp [read, conversion, length, Directive.field?, argument, Argument.unsigned?,
      Format.Length.unsigned, integerField_bare, printed, integerFront, Conversion.base,
      Conversion.isUpper]
  | hex upper v =>
    simp [read, conversion, length, Directive.field?, argument, Argument.unsigned?,
      Format.Length.unsigned, integerField_bare, printed, integerFront, Conversion.base,
      Conversion.isUpper]
  | char c h => rfl
  | word s hn h =>
    have htext : Bytes.text s = s := Bytes.text_eq_self fun c hc => (h c hc).1
    simp [read, conversion, Directive.field?, argument, Argument.text?, textField, padded, printed,
      htext]

theorem read_write (e : Entry) (index : Nat) (args : List Argument) :
    e.read.write index (e.argument :: args) = .ok e.printed := by
  apply write_field _ _ e.read_field
  · show max 0 0 ≤ maxField
    decide
  · cases e <;> rfl

theorem read_takesArgument (e : Entry) : e.read.takesArgument = true := by
  cases e <;> rfl

end Entry

/-! ## Entries joined by blanks -/

def spaced (ss : List Bytes) : Bytes := ss.flatMap (32 :: ·)

theorem spaced_cons (s : Bytes) (ss : List Bytes) : spaced (s :: ss) = 32 :: (s ++ spaced ss) := rfl

theorem intercalate_cons (s : Bytes) (ss : List Bytes) :
    List.intercalate [32] (s :: ss) = s ++ spaced ss := by
  induction ss generalizing s with
  | nil => simp [List.intercalate, spaced]
  | cons t ss ih =>
    have h := ih t
    simp only [List.intercalate, List.intersperse, spaced, List.flatMap_cons] at h ⊢
    simp [h]

def template (es : List Entry) : Bytes := List.intercalate [32] (es.map Entry.directive)

example : template [.signed true (-7), .hex true 255, .char 120 (by decide)] =
    Bytes.ofAscii "%li %lX %c" := by decide

def output (es : List Entry) : Bytes := List.intercalate [32] (es.map Entry.printed)

theorem writePieces_entry (e : Entry) (rest : Bytes) (index : Nat) (args : List Argument) :
    writePieces index (e.argument :: args) (pieces (e.directive ++ rest)) =
      ⟨e.printed ++ (writePieces (index + 1) args (pieces rest)).written,
        (writePieces (index + 1) args (pieces rest)).error⟩ := by
  obtain ⟨s,hs,hd⟩ := e.readDirective?_directive rest
  rw [hs, pieces_directive hd]
  simp only [writePieces, Piece.write, e.read_write, Piece.taken, e.read_takesArgument, if_true,
    List.drop_one, List.tail_cons]

theorem writePieces_blank (rest : Bytes) (index : Nat) (args : List Argument) :
    writePieces index args (pieces (32 :: rest)) =
      ⟨32 :: (writePieces index args (pieces rest)).written,
        (writePieces index args (pieces rest)).error⟩ := by
  have hp : pieces (32 :: rest) = .literal 32 :: pieces rest := by
    rw [pieces, if_neg (by decide)]
  rw [hp]
  rfl

theorem writePieces_spaced (es : List Entry) (index : Nat) :
    writePieces index (es.map Entry.argument) (pieces (spaced (es.map Entry.directive))) =
      ⟨spaced (es.map Entry.printed),none⟩ := by
  induction es generalizing index with
  | nil => rw [List.map_nil, List.map_nil, spaced, List.flatMap_nil, pieces]; rfl
  | cons e es ih =>
    simp only [List.map_cons, spaced_cons]
    rw [writePieces_blank, writePieces_entry, ih]

theorem Entry.directive_ne_zero (e : Entry) : ∀ c ∈ e.directive, c ≠ 0 := by
  have hall : e.directive.all (· != 0) = true := by
    cases e with
    | signed detect v => cases detect <;> rfl
    | hex upper v => cases upper <;> rfl
    | _ => rfl
  intro c hc
  simpa using List.all_eq_true.mp hall c hc

theorem intercalate_ne_zero {ss : List Bytes} (h : ∀ s ∈ ss, ∀ c ∈ s, c ≠ 0) :
    ∀ c ∈ List.intercalate [32] ss, c ≠ 0 := by
  cases ss with
  | nil => simp [List.intercalate]
  | cons s ss =>
    intro c hc
    rw [intercalate_cons, spaced, List.mem_append, List.mem_flatMap] at hc
    rcases hc with hc | ⟨t,ht,hc⟩
    · exact h s (by simp) c hc
    · rcases List.mem_cons.mp hc with rfl | hc
      · decide
      · exact h t (by simp [ht]) c hc

theorem text_template (es : List Entry) : Bytes.text (template es) = template es := by
  apply Bytes.text_eq_self
  apply intercalate_ne_zero
  intro s hs
  obtain ⟨e,-,rfl⟩ := List.mem_map.mp hs
  exact e.directive_ne_zero

/-- Formatting entries writes their fields, joined as their directives are. -/
theorem format_template (es : List Entry) :
    format (template es) (es.map Entry.argument) = .ok (output es) := by
  have hrun : Format.run (template es) (es.map Entry.argument) = ⟨output es,none⟩ := by
    rw [Format.run, text_template]
    cases es with
    | nil =>
      show writePieces 0 [] (pieces []) = ⟨[],none⟩
      rw [pieces]
      rfl
    | cons e es =>
      simp only [template, output, List.map_cons, intercalate_cons]
      rw [writePieces_entry, writePieces_spaced]
  rw [format, hrun]

end Freestanding.Scan
