import Mathlib.Algebra.Ring.Int.Defs
import Slate.Proofs.Input.Loopback

/-!
Integers at the head of the buffer. What is read is the longest text there that is a minus sign or a
digit followed by digits. If it has a digit in it and its value is within sixty-four bits, then it
is taken with one blank behind it, otherwise nothing is taken at all. The bytes of digits occur in
no other character, so the text may as well be found and cut off byte by byte.
-/

set_option autoImplicit false

namespace Slate

open Numeral

theorem Numeral.Denotes.exists_digit
    {text : List Char} {number : Int} (denotes : Denotes text number) :
    ∃ digit ∈ text, digit.isDigit = true := by
  cases denotes with
  | natural nonempty areDigits =>
      obtain ⟨digit, member⟩ := List.exists_mem_of_ne_nil _ nonempty
      exact ⟨digit, member, areDigits digit member⟩
  | negative nonempty areDigits =>
      obtain ⟨digit, member⟩ := List.exists_mem_of_ne_nil _ nonempty
      exact ⟨digit, List.mem_cons_of_mem _ member, areDigits digit member⟩

namespace Input

/-- A minus sign or a digit, and then digits. -/
def SignedDigits (text : List Char) : Prop :=
  ∃ first digits, text = first :: digits ∧ (first = '-' ∨ first.isDigit = true) ∧
    ∀ digit ∈ digits, digit.isDigit = true

/-- The longest such text at the head of a buffer, or no text if there is none. -/
structure LongestLiteral (taken buffer : List Char) : Prop where
  begins : taken <+: buffer
  form : taken = [] ∨ SignedDigits taken
  longest : ∀ other, other <+: buffer → SignedDigits other → other.length ≤ taken.length

theorem SignedDigits.length_le
    {first : Char} {other rest : List Char} (signed : SignedDigits other)
    (begins : other <+: first :: rest) :
    (first = '-' ∨ first.isDigit = true) ∧
      other.length ≤ (first :: rest.takeWhile Char.isDigit).length := by
  obtain ⟨head, digits, rfl, isHead, areDigits⟩ := signed
  obtain ⟨rfl, further, rfl⟩ := List.cons_prefix_cons.1 begins
  refine ⟨isHead, Nat.succ_le_succ ?_⟩
  rw [List.takeWhile_append_of_pos areDigits, List.length_append]
  exact Nat.le_add_right _ _

theorem longestLiteral_literal (buffer : List Char) : LongestLiteral (literal buffer) buffer := by
  cases buffer with
  | nil =>
      refine ⟨List.nil_prefix, .inl rfl, fun other begins _ => ?_⟩
      rw [List.prefix_nil.1 begins]
      exact Nat.le_refl 0
  | cons first rest =>
      rw [literal]
      split
      next isFirst =>
        refine ⟨List.cons_prefix_cons.2 ⟨rfl, List.takeWhile_prefix _⟩, .inr ?_, ?_⟩
        · exact ⟨first, _, rfl, isFirst, List.all_eq_true.1 List.all_takeWhile⟩
        · exact fun other begins signed => (signed.length_le begins).2
      next notFirst =>
        refine ⟨List.nil_prefix, .inl rfl, fun other begins signed => ?_⟩
        exact absurd (signed.length_le begins).1 notFirst

theorem longestLiteral_iff {taken buffer : List Char} :
    LongestLiteral taken buffer ↔ taken = literal buffer := by
  constructor
  · intro found
    have cut := longestLiteral_literal buffer
    have noShorter {one other : List Char} (first : LongestLiteral one buffer)
        (second : LongestLiteral other buffer) : one.length ≤ other.length := by
      obtain rfl | signed := first.form
      · exact Nat.zero_le _
      · exact second.longest one first.begins signed
    have begins : taken <+: literal buffer :=
      List.prefix_of_prefix_length_le found.begins cut.begins (noShorter found cut)
    exact begins.eq_of_length (Nat.le_antisymm (noShorter found cut) (noShorter cut found))
  · rintro rfl
    exact longestLiteral_literal buffer

/-- The text has a digit in it and denotes an integer of sixty-four bits. -/
def Readable (text : List Char) : Prop :=
  (∃ digit ∈ text, digit.isDigit = true) ∧
    ∃ number, Denotes text number ∧ -2 ^ 63 ≤ number ∧ number ≤ 2 ^ 63 - 1

theorem readable_literal_iff (buffer : List Char) :
    Readable (literal buffer) ↔ ∃ word, toWord? (literal buffer) = some word := by
  constructor
  · rintro ⟨_, number, denotes, least, greatest⟩
    refine ⟨Int64.ofInt number, ?_⟩
    rw [denotes.toWord?_eq, Word.ofInt?_eq_some_iff]
    exact Int64.toInt_ofInt_of_le least (Int.lt_add_one_of_le greatest)
  · rintro ⟨word, isWord⟩
    obtain ⟨further, leads⟩ := exists_leads isWord
    refine ⟨leads.denotes.exists_digit, word.toInt, leads.denotes, word.le_toInt, ?_⟩
    exact Int.le_sub_one_of_lt word.toInt_lt

theorem fill_cons (first : Char) (rest : List Char) (lines : List (Option (List Char))) :
    fill ⟨first :: rest, lines⟩ = .ok true ⟨first :: rest, lines⟩ :=
  rfl

/-- What is left of a buffer behind the taken text and one blank. -/
def LeftBehind (taken buffer left : List Char) : Prop :=
  ∃ further, buffer = taken ++ further ∧
    (further = ' ' :: left ∨ further = left ∧ left.head? ≠ some ' ')

theorem readInteger_of_word
    {first : Char} {rest : List Char} (lines : List (Option (List Char))) {word : Word}
    (isWord : toWord? (literal (first :: rest)) = some word) :
    ∃ left, readInteger ⟨first :: rest, lines⟩ = .ok word ⟨left, lines⟩ ∧
      Denotes (literal (first :: rest)) word.toInt ∧
      LeftBehind (literal (first :: rest)) (first :: rest) left := by
  obtain ⟨further, split, denotes, _⟩ := exists_leads isWord
  obtain ⟨blank, left, rfl, isBlank⟩ := exists_blank further
  refine ⟨left, ?_, denotes, _, split, ?_⟩
  · have cut : afterLiteral (literal (first :: rest)).length (first :: rest) = left := by
      rw [congrArg (afterLiteral _) split]
      exact afterLiteral_append isBlank
    rw [readInteger_run (fill_cons first rest lines)]
    simp only [isWord, cut]
  · obtain rfl | ⟨rfl, noBlank⟩ := isBlank
    · exact .inl rfl
    · exact .inr ⟨rfl, noBlank⟩

theorem readInteger_of_noWord
    {first : Char} {rest : List Char} (lines : List (Option (List Char)))
    (noWord : toWord? (literal (first :: rest)) = none) :
    readInteger ⟨first :: rest, lines⟩ =
      .error (.malformedInput (String.ofList (first :: rest))) ⟨first :: rest, lines⟩ := by
  rw [readInteger_run (fill_cons first rest lines)]
  simp only [noWord]

def isDigitByte (byte : UInt8) : Bool :=
  48 ≤ byte.toNat && byte.toNat ≤ 57

/-- How many bytes are cut off at the head of a text: the first one and the digits behind it. -/
def cutLength (text : List Char) : Nat :=
  1 + (((String.ofList text).toUTF8.data.toList.drop 1).takeWhile isDigitByte).length

theorem toNat_of_digit {character : Char} :
    character.isDigit = true ↔ 48 ≤ character.toNat ∧ character.toNat ≤ 57 := by
  rw [Token.isDigit_iff, Char.le_def, Char.le_def, UInt32.le_iff_toNat_le, UInt32.le_iff_toNat_le]
  rfl

theorem utf8Size_of_digit {character : Char} (digit : character.isDigit = true) :
    character.utf8Size = 1 := by
  have code := (toNat_of_digit.1 digit).2
  rw [Char.utf8Size_eq_one_iff, UInt32.le_iff_toNat_le]
  exact Nat.le_trans code (by decide)

/-- The byte of a digit occurs in no other character. -/
theorem isDigitByte_of_mem
    {byte : UInt8} {character : Char} (member : byte ∈ String.utf8EncodeChar character) :
    isDigitByte byte = character.isDigit := by
  rw [Bool.eq_iff_iff, toNat_of_digit]
  simp only [isDigitByte, Bool.and_eq_true, decide_eq_true_eq]
  constructor
  · rintro ⟨least, greatest⟩
    rw [toNat_of_mem_utf8EncodeChar member (by omega)]
    exact ⟨least, greatest⟩
  · rintro ⟨least, greatest⟩
    rw [String.utf8EncodeChar_eq_singleton (utf8Size_of_digit (toNat_of_digit.2 ⟨least, greatest⟩)),
      List.mem_singleton] at member
    have code : byte.toNat = character.toNat % 256 := by
      rw [member]
      rfl
    omega

theorem length_takeWhile_isDigitByte (text : List Char) :
    ((text.flatMap String.utf8EncodeChar).takeWhile isDigitByte).length =
      (text.takeWhile Char.isDigit).length := by
  induction text with
  | nil => rfl
  | cons character rest inductionHypothesis =>
      have same : ∀ byte ∈ String.utf8EncodeChar character,
          isDigitByte byte = character.isDigit := fun _ => isDigitByte_of_mem
      rw [List.flatMap_cons, List.takeWhile_cons]
      cases digit : character.isDigit with
      | true =>
          rw [digit] at same
          rw [List.takeWhile_append_of_pos same, List.length_append, inductionHypothesis,
            String.length_utf8EncodeChar, utf8Size_of_digit digit, Nat.add_comm]
          rfl
      | false =>
          rw [digit] at same
          obtain ⟨byte, bytes, encoded⟩ :=
            List.exists_cons_of_ne_nil (String.utf8EncodeChar_ne_nil (c := character))
          rw [encoded] at same ⊢
          rw [List.cons_append, List.takeWhile_cons, same byte List.mem_cons_self]
          rfl

theorem toUTF8_ofList (text : List Char) : (String.ofList text).toUTF8 = text.utf8Encode := by
  rw [String.toUTF8_eq_toByteArray, String.toByteArray_ofList]

theorem isValid_of_prefix {front text : List Char} (begins : front <+: text) :
    (⟨front.utf8Encode.size⟩ : String.Pos.Raw).IsValid (String.ofList text) := by
  obtain ⟨back, rfl⟩ := begins
  rw [String.Pos.Raw.isValid_iff_exists_append]
  refine ⟨String.ofList front, String.ofList back, String.ofList_append, ?_⟩
  rw [← String.toByteArray_ofList]
  rfl

theorem size_utf8Encode_singleton (character : Char) :
    [character].utf8Encode.size = character.utf8Size := by
  rw [List.utf8Encode_singleton, List.size_toByteArray, String.length_utf8EncodeChar]

theorem size_utf8Encode {text : List Char} (single : ∀ character ∈ text, character.utf8Size = 1) :
    text.utf8Encode.size = text.length := by
  induction text with
  | nil => rfl
  | cons character rest inductionHypothesis =>
      obtain ⟨isSingle, single⟩ := List.forall_mem_cons.1 single
      rw [List.utf8Encode_cons, ByteArray.size_append, inductionHypothesis single,
        size_utf8Encode_singleton, isSingle, List.length_cons, Nat.add_comm]

theorem SignedDigits.singles {text : List Char} (signed : SignedDigits text) :
    ∀ character ∈ text, character.utf8Size = 1 := by
  obtain ⟨first, digits, rfl, isFirst, areDigits⟩ := signed
  refine List.forall_mem_cons.2 ⟨?_, fun digit member => utf8Size_of_digit (areDigits digit member)⟩
  obtain rfl | digit := isFirst
  · decide
  · exact utf8Size_of_digit digit

/-- The literal is found byte by byte. -/
theorem cutLength_eq {buffer : List Char} (nonempty : literal buffer ≠ []) :
    cutLength buffer = (literal buffer).utf8Encode.size := by
  have signed := (longestLiteral_literal buffer).form.resolve_left nonempty
  rw [size_utf8Encode signed.singles]
  cases buffer with
  | nil => exact absurd rfl nonempty
  | cons first rest =>
      have isLiteral : literal (first :: rest) = first :: rest.takeWhile Char.isDigit := by
        rw [literal] at nonempty ⊢
        split at nonempty
        next isFirst => rw [if_pos isFirst]
        next => exact absurd rfl nonempty
      rw [isLiteral] at signed ⊢
      have single : first.utf8Size = 1 := signed.singles first List.mem_cons_self
      have bytes : (String.ofList (first :: rest)).toUTF8.data.toList.drop 1 =
          rest.flatMap String.utf8EncodeChar := by
        rw [toUTF8_ofList, List.utf8Encode, List.data_toByteArray, List.toList_toArray,
          List.flatMap_cons, String.utf8EncodeChar_eq_singleton single]
        rfl
      rw [cutLength, bytes, length_takeWhile_isDigitByte, List.length_cons, Nat.add_comm]

/-- Wherever the bytes of a buffer are cut, be it behind the first character, behind the literal or
behind a blank after it, the place is within the buffer and between two characters. What is cut off
byte by byte is the literal. -/
structure CutsFit (taken buffer : List Char) : Prop where
  behindCharacter : ∀ first ∈ buffer.head?,
    (⟨first.utf8Size⟩ : String.Pos.Raw).IsValid (String.ofList buffer)
  behindSign : taken ≠ [] → (⟨1⟩ : String.Pos.Raw).IsValid (String.ofList buffer)
  behindTaken : taken ≠ [] →
    (⟨cutLength buffer⟩ : String.Pos.Raw).IsValid (String.ofList buffer)
  behindBlank : taken ≠ [] → taken ++ [' '] <+: buffer →
    (⟨cutLength buffer + 1⟩ : String.Pos.Raw).IsValid (String.ofList buffer)
  cut : taken ≠ [] →
    (String.ofList buffer).toUTF8.extract 0 (cutLength buffer) = (String.ofList taken).toUTF8

theorem cutsFit_literal (buffer : List Char) : CutsFit (literal buffer) buffer := by
  obtain ⟨begins, form, _⟩ := longestLiteral_literal buffer
  constructor
  case behindCharacter =>
    intro first isFirst
    obtain ⟨rest, rfl⟩ := List.head?_eq_some_iff.1 isFirst
    rw [← size_utf8Encode_singleton]
    exact isValid_of_prefix (List.prefix_append [first] rest)
  case behindSign =>
    intro nonempty
    obtain ⟨first, digits, isLiteral, _⟩ := form.resolve_left nonempty
    have single : first.utf8Size = 1 :=
      (form.resolve_left nonempty).singles first (isLiteral ▸ List.mem_cons_self)
    rw [← single, ← size_utf8Encode_singleton]
    have headBegins : [first] <+: literal buffer := isLiteral ▸ List.prefix_append [first] digits
    exact isValid_of_prefix (headBegins.trans begins)
  case behindTaken =>
    intro nonempty
    rw [cutLength_eq nonempty]
    exact isValid_of_prefix begins
  case behindBlank =>
    intro nonempty blankBegins
    have size : (literal buffer ++ [' ']).utf8Encode.size = cutLength buffer + 1 := by
      rw [List.utf8Encode_append, ByteArray.size_append, size_utf8Encode_singleton,
        cutLength_eq nonempty]
      rfl
    rw [← size]
    exact isValid_of_prefix blankBegins
  case cut =>
    intro nonempty
    obtain ⟨further, split⟩ := begins
    rw [cutLength_eq nonempty, toUTF8_ofList, toUTF8_ofList]
    nth_rewrite 1 [← split]
    rw [List.utf8Encode_append]
    exact ByteArray.extract_append_eq_left rfl

end Input

/-- A request that is refused without a trace is refused time and again. -/
theorem Request.outcomes_of_refused
    {request : Request} {input : Input} {fault : Fault}
    (refused : request.answer input = .error fault input) (count : Nat) :
    Request.outcomes (List.replicate count request) input =
      (List.replicate count (.error fault), input) := by
  induction count with
  | zero => rfl
  | succ count inductionHypothesis =>
      simp only [List.replicate_succ, Request.outcomes, Request.outcome, refused,
        inductionHypothesis]

namespace Input

/-- Integers are read exactly where the longest literal at the head of the buffer has a digit in it
and denotes an integer of sixty-four bits. Then that integer is the answer, and the literal is taken
with one blank behind it. Otherwise the request is refused, time and again, with the whole buffer,
which is still there for a request of a character. No cut goes beyond the buffer or through a
character. -/
theorem readInteger_takes_literal
    (first : Char) (rest : List Char) (lines : List (Option (List Char))) :
    ∃ taken, (∀ other, LongestLiteral other (first :: rest) ↔ other = taken) ∧
      ((∃ value after, readInteger ⟨first :: rest, lines⟩ = .ok value after) ↔ Readable taken) ∧
      (∀ value after, readInteger ⟨first :: rest, lines⟩ = .ok value after →
        Denotes taken value.toInt ∧ LeftBehind taken (first :: rest) after.buffer ∧
          after.lines = lines) ∧
      (¬ Readable taken →
        (∀ count, Request.outcomes (List.replicate count .integer) ⟨first :: rest, lines⟩ =
          (List.replicate count (.error (.malformedInput (String.ofList (first :: rest)))),
            ⟨first :: rest, lines⟩)) ∧
        ∃ code, readCharacter ⟨first :: rest, lines⟩ = .ok code ⟨rest, lines⟩ ∧
          code.toInt = first.toNat) ∧
      CutsFit taken (first :: rest) := by
  refine ⟨literal (first :: rest), fun other => longestLiteral_iff, ?_, ?_, ?_, cutsFit_literal _⟩
  · rw [readable_literal_iff]
    cases isWord : toWord? (literal (first :: rest)) with
    | none => simp [readInteger_of_noWord lines isWord]
    | some word =>
        obtain ⟨left, run, _⟩ := readInteger_of_word lines isWord
        exact ⟨fun _ => ⟨word, rfl⟩, fun _ => ⟨word, _, run⟩⟩
  · intro value after run
    cases isWord : toWord? (literal (first :: rest)) with
    | none =>
        rw [readInteger_of_noWord lines isWord] at run
        cases run
    | some word =>
        obtain ⟨left, wordRun, denotes, leaves⟩ := readInteger_of_word lines isWord
        rw [wordRun] at run
        cases run
        exact ⟨denotes, leaves, rfl⟩
  · intro unreadable
    rw [readable_literal_iff] at unreadable
    have noWord : toWord? (literal (first :: rest)) = none :=
      Option.eq_none_iff_forall_not_mem.2 fun word isWord => unreadable ⟨word, isWord⟩
    refine ⟨Request.outcomes_of_refused (readInteger_of_noWord lines noWord), Word.ofChar first, ?_,
      Word.toInt_ofChar first⟩
    exact readCharacter_run (fill_cons first rest lines) rfl

/-- A numeral with a zero in front and two blanks behind it. A sign alone, with a character of two
bytes glued to it. -/
theorem readInteger_takes_literal_glued :
    (∃ taken, LongestLiteral taken ['-', '0', '7', ' ', ' '] ∧
      readInteger ⟨['-', '0', '7', ' ', ' '], []⟩ = .ok (-7) ⟨[' '], []⟩ ∧
      Denotes taken (-7) ∧ LeftBehind taken ['-', '0', '7', ' ', ' '] [' ']) ∧
    ∃ taken, LongestLiteral taken ['-', 'é'] ∧ ¬ Readable taken ∧
      Request.outcomes [.integer, .integer] ⟨['-', 'é'], []⟩ =
        ([.error (.malformedInput "-é"), .error (.malformedInput "-é")], ⟨['-', 'é'], []⟩) ∧
      readCharacter ⟨['-', 'é'], []⟩ = .ok 45 ⟨['é'], []⟩ := by
  constructor
  · obtain ⟨taken, isTaken, _, succeeds, _⟩ :=
      readInteger_takes_literal '-' ['0', '7', ' ', ' '] []
    have run : readInteger ⟨['-', '0', '7', ' ', ' '], []⟩ = .ok (-7) ⟨[' '], []⟩ := rfl
    obtain ⟨denotes, left, _⟩ := succeeds _ _ run
    exact ⟨taken, (isTaken taken).2 rfl, run, denotes, left⟩
  · obtain ⟨taken, isTaken, readable_iff, _, refuses, _⟩ := readInteger_takes_literal '-' ['é'] []
    have unreadable : ¬ Readable taken := by
      intro readable
      obtain ⟨_, _, run⟩ := readable_iff.2 readable
      cases run
    obtain ⟨refused, code, characterRun, isCode⟩ := refuses unreadable
    obtain rfl : code = 45 := Int64.toInt_inj.1 isCode
    exact ⟨taken, (isTaken taken).2 rfl, unreadable, refused 2, characterRun⟩

end Input

end Slate
