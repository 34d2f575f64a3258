import Slate.Token.Scan

/-!
Scanning undoes spelling. A token that some source has is spelled so that the scanner cuts off the
whole spelling as one piece, before a blank or the end of the text. So the spellings of such tokens,
with single blanks between them, are scanned as the same tokens.
-/

set_option autoImplicit false

namespace Slate

theorem Word.ofInt?_toInt (word : Word) : Word.ofInt? word.toInt = some word := by
  unfold Word.ofInt?
  rw [if_pos ⟨Int64.minValue_le_toInt word, Int64.toInt_le word⟩, Int64.ofInt_toInt]

theorem Word.ofInt?_eq_some_iff {value : Int} {word : Word} :
    ofInt? value = some word ↔ word.toInt = value := by
  constructor
  · intro isWord
    simp only [ofInt?, Option.ite_none_right_eq_some, Option.some.injEq] at isWord
    obtain ⟨⟨least, greatest⟩, rfl⟩ := isWord
    exact Int64.toInt_ofInt_of_le least (Int.lt_add_one_of_le greatest)
  · rintro rfl
    exact Word.ofInt?_toInt word

/-- Code points are within sixty-four bits. -/
theorem Word.toInt_ofChar (character : Char) : (ofChar character).toInt = character.toNat := by
  have valid := character.valid
  have small : character.toNat < 2 ^ 63 := by
    simp only [UInt32.isValidChar, Nat.isValidChar] at valid
    change character.val.toNat < _
    omega
  exact Int64.toInt_ofNat_of_lt small

namespace Token

/-- Variable names are nonempty and consist of small letters and underscores. -/
def IsVariableName (name : String) : Prop :=
  name.toList ≠ [] ∧ ∀ character ∈ name.toList,
    'a' ≤ character ∧ character ≤ 'z' ∨ character = '_'

/-- Procedure names are a capital letter and then capital letters and underscores. -/
def IsProcedureName (name : String) : Prop :=
  ∃ first rest, name.toList = first :: rest ∧ ('A' ≤ first ∧ first ≤ 'Z') ∧
    ∀ character ∈ rest, 'A' ≤ character ∧ character ≤ 'Z' ∨ character = '_'

/-- Tokens that a source can have. -/
def Lexical : Token → Prop
  | .number value => 0 ≤ value
  | .identifier name => IsVariableName name
  | .procedure name => IsProcedureName name
  | _ => True

theorem isLower_iff (character : Char) :
    character.isLower = true ↔ 'a' ≤ character ∧ character ≤ 'z' := by
  change (decide ('a'.val ≤ character.val) && decide (character.val ≤ 'z'.val)) = true ↔ _
  simp [Char.le_def]

theorem isUpper_iff (character : Char) :
    character.isUpper = true ↔ 'A' ≤ character ∧ character ≤ 'Z' := by
  change decide ('A'.val ≤ character.val ∧ character.val ≤ 'Z'.val) = true ↔ _
  simp [Char.le_def]

theorem isNameChar_iff (character : Char) :
    isNameChar character = true ↔ 'a' ≤ character ∧ character ≤ 'z' ∨ character = '_' := by
  simp [isNameChar, isLower_iff]

theorem isVariableName_of_all
    {name : String} (nonempty : name.toList ≠ []) (letters : name.toList.all isNameChar = true) :
    IsVariableName name := by
  refine ⟨nonempty, fun character member => ?_⟩
  rw [← isNameChar_iff]
  exact List.all_eq_true.1 letters character member

theorem isProcedureChar_iff (character : Char) :
    isProcedureChar character = true ↔ 'A' ≤ character ∧ character ≤ 'Z' ∨ character = '_' := by
  simp [isProcedureChar, isUpper_iff]

theorem isDigit_eq_false_of_isNameChar {character : Char} (letter : isNameChar character = true) :
    character.isDigit = false := by
  rw [Bool.eq_false_iff]
  intro digit
  simp [isNameChar_iff, Char.isDigit_iff_toNat, Char.le_def, UInt32.le_iff_toNat_le,
    Char.ext_iff, ← UInt32.toNat_inj] at letter digit
  omega

theorem isDigit_eq_false_of_isUpper {character : Char} (capital : character.isUpper = true) :
    character.isDigit = false := by
  rw [Bool.eq_false_iff]
  intro digit
  simp [isUpper_iff, Char.isDigit_iff_toNat, Char.le_def, UInt32.le_iff_toNat_le] at capital digit
  omega

theorem isNameChar_eq_false_of_isUpper {character : Char} (capital : character.isUpper = true) :
    isNameChar character = false := by
  rw [Bool.eq_false_iff]
  intro letter
  simp [isNameChar_iff, isUpper_iff, Char.le_def, UInt32.le_iff_toNat_le, Char.ext_iff,
    ← UInt32.toNat_inj] at capital letter
  omega

theorem takeWhile_append_of_stops
    {belongs : Char → Bool} {body rest : List Char}
    (inside : ∀ character ∈ body, belongs character = true)
    (stops : ∀ character ∈ rest.head?, belongs character = false) :
    (body ++ rest).takeWhile belongs = body := by
  rw [List.takeWhile_append_of_pos inside]
  cases rest with
  | nil => simp
  | cons character rest => simp [stops character rfl]

section

variable {name : String} {first : Char} {tail rest : List Char}

theorem piece_digits
    (allDigits : ∀ character ∈ first :: tail, character.isDigit = true)
    (stops : ∀ character ∈ rest.head?, character.isDigit = false) :
    piece first (tail ++ rest) =
      match Word.ofInt? (Numeral.value (first :: tail)) with
      | some value => .token (.number value) tail.length
      | none => .numberOutOfRange (first :: tail) := by
  obtain ⟨firstDigit, tailDigits⟩ := List.forall_mem_cons.1 allDigits
  unfold piece
  rw [takeWhile_append_of_stops tailDigits stops]
  exact if_pos firstDigit

theorem piece_identifier
    (isName : IsVariableName name) (shape : name.toList = first :: tail)
    (stops : ∀ character ∈ rest.head?, isNameChar character = false) :
    piece first (tail ++ rest) = .token (.identifier name) tail.length := by
  have letters : ∀ character ∈ first :: tail, isNameChar character = true := by
    intro character member
    rw [isNameChar_iff]
    exact isName.2 character (shape ▸ member)
  obtain ⟨firstLetter, tailLetters⟩ := List.forall_mem_cons.1 letters
  unfold piece
  rw [if_neg (Bool.eq_false_iff.1 (isDigit_eq_false_of_isNameChar firstLetter)),
    if_pos firstLetter, takeWhile_append_of_stops tailLetters stops]
  simp only [← shape, String.ofList_toList]

theorem piece_procedure
    (isName : IsProcedureName name) (shape : name.toList = first :: tail)
    (stops : ∀ character ∈ rest.head?, isProcedureChar character = false) :
    piece first (tail ++ rest) = .token (.procedure name) tail.length := by
  obtain ⟨_, _, sameShape, capital, others⟩ := isName
  obtain ⟨rfl, rfl⟩ := List.cons.inj (shape.symm.trans sameShape)
  have firstCapital : first.isUpper = true := (isUpper_iff first).2 capital
  have tailLetters : ∀ character ∈ tail, isProcedureChar character = true := by
    intro character member
    rw [isProcedureChar_iff]
    exact others character member
  unfold piece
  rw [if_neg (Bool.eq_false_iff.1 (isDigit_eq_false_of_isUpper firstCapital)),
    if_neg (Bool.eq_false_iff.1 (isNameChar_eq_false_of_isUpper firstCapital)),
    if_pos firstCapital, takeWhile_append_of_stops tailLetters stops]
  simp only [← shape, String.ofList_toList]

end

/-- The text is at its end or goes on with a blank. -/
def Separated (rest : List Char) : Prop :=
  ∀ character ∈ rest.head?, character = ' '

/-- Blanks end every run of characters that they do not belong to. -/
theorem Separated.stops
    {rest : List Char} (separated : Separated rest) {belongs : Char → Bool}
    (blank : belongs ' ' = false) : ∀ character ∈ rest.head?, belongs character = false := by
  intro character isHead
  rw [separated character isHead]
  exact blank

/-- The scanner cuts off the whole of the text as this token, where nothing or a blank follows. -/
def Cuts (token : Token) (text : List Char) : Prop :=
  ∃ first tail, text = first :: tail ∧
    ∀ rest, Separated rest → piece first (tail ++ rest) = .token token tail.length

theorem cuts_number {value : Word} (nonnegative : 0 ≤ value) :
    Cuts (.number value) value.decimal.toList := by
  obtain ⟨size, isSize⟩ := Int.eq_ofNat_of_zero_le (Int64.le_iff_toInt_le.1 nonnegative)
  have digits : value.decimal.toList = Nat.toDigits 10 size := by
    rw [Word.decimal, isSize, String.toList_ofList]
    rfl
  rw [digits]
  obtain ⟨first, tail, shape⟩ :=
    List.exists_cons_of_ne_nil (Nat.toDigits_ne_nil (n := size) (b := 10))
  have allDigits : ∀ character ∈ first :: tail, character.isDigit = true := by
    intro character member
    rw [← shape] at member
    exact Nat.isDigit_of_mem_toDigits (by decide) (by decide) member
  have isValue : Numeral.value (first :: tail) = size := by
    rw [← shape]
    exact Nat.ofDigitChars_toDigits (by decide) (by decide)
  refine ⟨first, tail, shape, fun rest separated => ?_⟩
  rw [piece_digits allDigits (separated.stops rfl)]
  simp only [isValue, ← isSize, Word.ofInt?_toInt]

theorem cuts_identifier {name : String} (isName : IsVariableName name) :
    Cuts (.identifier name) name.toList := by
  obtain ⟨first, tail, shape⟩ := List.exists_cons_of_ne_nil isName.1
  exact ⟨first, tail, shape, fun rest separated =>
    piece_identifier isName shape (separated.stops rfl)⟩

theorem cuts_procedure {name : String} (isName : IsProcedureName name) :
    Cuts (.procedure name) name.toList := by
  have ⟨first, tail, shape, _⟩ := isName
  exact ⟨first, tail, shape, fun rest separated =>
    piece_procedure isName shape (separated.stops rfl)⟩

theorem Lexical.cuts {token : Token} (lexical : token.Lexical) :
    Cuts token token.spelling.toList := by
  cases token with
  | number value => exact cuts_number lexical
  | identifier name => exact cuts_identifier lexical
  | procedure name => exact cuts_procedure lexical
  | _ =>
      refine ⟨_, _, rfl, fun rest separated => ?_⟩
      rcases rest with _ | ⟨character, rest⟩
      · rfl
      · obtain rfl := separated character rfl
        rfl

/-- The number of bytes that a text takes. -/
def width : List Char → Nat
  | [] => 0
  | character :: rest => character.utf8Size + width rest

theorem scanFrom_skip (skipped rest : List Char) (position : Nat) (done : List Token) :
    scanFrom position skipped.length done (skipped ++ rest) =
      scanFrom (position + width skipped) 0 done rest := by
  induction skipped generalizing position with
  | nil => rfl
  | cons character skipped inductionHypothesis =>
      rw [List.cons_append, List.length_cons, scanFrom, inductionHypothesis, width, Nat.add_assoc]

theorem Cuts.scanFrom_append
    {token : Token} {text rest : List Char} (cuts : Cuts token text) (separated : Separated rest)
    (position : Nat) (done : List Token) :
    scanFrom position 0 done (text ++ rest) =
      scanFrom (position + width text) 0 (token :: done) rest := by
  obtain ⟨first, tail, rfl, isPiece⟩ := cuts
  rw [List.cons_append, scanFrom, isPiece rest separated]
  simp only [scanFrom_skip, width, Nat.add_assoc]

theorem piece_blank (rest : List Char) : piece ' ' rest = .blank 0 := by
  cases rest <;> rfl

/-- The texts of tokens with single blanks between them. -/
theorem scanFrom_intercalate
    {tokens : List Token} (lexical : ∀ token ∈ tokens, token.Lexical) (position : Nat)
    (done : List Token) :
    scanFrom position 0 done ([' '].intercalate (tokens.map fun token => token.spelling.toList)) =
      .ok (done.reverse ++ tokens) := by
  induction tokens generalizing position done with
  | nil => simp [scanFrom]
  | cons token tokens inductionHypothesis =>
      obtain ⟨here, others⟩ := List.forall_mem_cons.1 lexical
      cases tokens with
      | nil =>
          have atEnd : Separated [] := fun character isHead => nomatch isHead
          have cut := here.cuts.scanFrom_append atEnd position done
          rw [List.append_nil] at cut
          rw [List.map_singleton, List.intercalate_singleton, cut]
          simp [scanFrom]
      | cons next tokens =>
          have beforeBlank (rest : List Char) : Separated (' ' :: rest) := by
            intro character isHead
            exact (Option.some.inj isHead).symm
          have further := inductionHypothesis others
          rw [List.map_cons] at further
          rw [List.map_cons, List.map_cons, List.intercalate_cons_cons, List.append_assoc,
            List.singleton_append, here.cuts.scanFrom_append (beforeBlank _), scanFrom, piece_blank]
          simp only [further, List.reverse_cons, List.append_assoc, List.singleton_append]

theorem scan_spellings
    {tokens : List Token} (lexical : ∀ token ∈ tokens, token.Lexical) :
    scan (" ".intercalate (tokens.map spelling)) = .ok tokens := by
  unfold scan
  rw [String.toList_intercalate, List.map_map]
  exact scanFrom_intercalate lexical 0 []

end Token

end Slate
