import Slate.Proofs.Token.Separation

/-!
Where and why a source has no tokens. The scanner fails at the first place where no pattern takes a
text, or where the digits make a number beyond sixty-four bits. What stands before that place has
tokens, and what stands there tells the kind of the failure. Conversely, such a text behind a source
with tokens makes the scanner fail there, and digits do so where they do not prolong a number.
-/

set_option autoImplicit false

namespace Slate

namespace ScanFailure

def position : ScanFailure → Nat
  | .unexpected position _ => position
  | .numberOutOfRange position _ => position

def text : ScanFailure → String
  | .unexpected _ text => text
  | .numberOutOfRange _ digits => digits

/-- The failure is about a number. -/
def IsOutOfRange : ScanFailure → Prop
  | .unexpected _ _ => False
  | .numberOutOfRange _ _ => True

end ScanFailure

namespace Token

/-- All digits between the two texts, where they make a number beyond sixty-four bits. -/
structure TooLarge (before digits after : List Char) : Prop where
  nonempty : digits ≠ []
  allDigits : ∀ character ∈ digits, character.isDigit = true
  noneBefore : ∀ character ∈ before.getLast?, character.isDigit = false
  noneAfter : ∀ character ∈ after.head?, character.isDigit = false
  exceeds : 9223372036854775807 < Nat.ofDigitChars 10 digits 0

section

variable {first : Char} {rest before digits after : List Char}

theorem TooLarge.piece_eq (tooLarge : TooLarge before digits after) :
    ∃ first tail, digits = first :: tail ∧
      piece first (tail ++ after) = .numberOutOfRange digits := by
  obtain ⟨first, tail, rfl⟩ := List.exists_cons_of_ne_nil tooLarge.nonempty
  have exceeds : ¬ Numeral.value (first :: tail) ≤ 9223372036854775807 :=
    Nat.not_le.2 tooLarge.exceeds
  refine ⟨first, tail, rfl, ?_⟩
  rw [piece_digits tooLarge.allDigits tooLarge.noneAfter, Word.ofInt?_natCast, if_neg exceeds]

/-- Of the texts that stand for a number only digits can exceed sixty-four bits. -/
theorem Matches.digits_of_large
    {text : List Char} {value : Nat} (isMatch : Matches text (.numeral value))
    (large : Word.ofInt? value = none) :
    (∀ character ∈ text, '0' ≤ character ∧ character ≤ '9') ∧
      value = Nat.ofDigitChars 10 text 0 := by
  cases isMatch with
  | digits _ allDigits => exact ⟨allDigits, rfl⟩
  | literal | escape =>
      rw [Word.ofInt?_toNat] at large
      cases large

theorem tooLarge_of_piece
    (isPiece : piece first rest = .numberOutOfRange digits)
    (noneBefore : first.isDigit = true → ∀ last ∈ before.getLast?, last.isDigit = false) :
    ∃ after, first :: rest = digits ++ after ∧ TooLarge before digits after := by
  have begins : Begins (first :: rest) := by
    refine begins_of_cut fun text unexpected => ?_
    cases isPiece.symm.trans unexpected
  obtain ⟨_, after, lexeme, shape, longest⟩ := exists_longest begins
  obtain ⟨_, tail, rfl, isCut⟩ := longest.cut_eq
  obtain ⟨rfl, rfl⟩ := List.cons.inj shape
  have sameCut := isPiece.symm.trans isCut
  cases lexeme with
  | token value => cases sameCut
  | blank => cases sameCut
  | numeral value =>
      cases isWord : Word.ofInt? value with
      | some word =>
          simp only [Lexeme.cut, isWord] at sameCut
          cases sameCut
      | none =>
          simp only [Lexeme.cut, isWord] at sameCut
          cases sameCut
          obtain ⟨allDigits, rfl⟩ := longest.isMatch.digits_of_large isWord
          have areDigits : ∀ character ∈ first :: tail, character.isDigit = true :=
            fun character member => (isDigit_iff character).2 (allDigits character member)
          rw [Word.ofInt?_natCast] at isWord
          simp only [ite_eq_right_iff, reduceCtorEq, imp_false, Nat.not_le] at isWord
          exact ⟨after, rfl, List.cons_ne_nil _ _, areDigits,
            noneBefore (areDigits first List.mem_cons_self), longest.digits_stop allDigits, isWord⟩

end

/-- A piece that ends with a digit is a number. -/
theorem Matches.digits_of_last
    {text : List Char} {lexeme : Lexeme} (isMatch : Matches text lexeme) {last : Char}
    (isLast : last ∈ text.getLast?) (digit : last.isDigit = true) :
    ∀ character ∈ text, '0' ≤ character ∧ character ≤ '9' := by
  have noDigit (noDigit : last.isDigit = false) :
      ∀ character ∈ text, '0' ≤ character ∧ character ≤ '9' := by
    rw [noDigit] at digit
    cases digit
  have member := List.mem_of_getLast? isLast
  cases isMatch with
  | digits _ allDigits => exact allDigits
  | @symbol token isSymbol =>
      refine noDigit ?_
      cases token with
      | number _ | identifier _ | procedure _ => cases isSymbol
      | _ =>
          cases isLast
          rfl
  | literal | escape =>
      cases isLast
      exact noDigit rfl
  | identifier isName =>
      have letter : isNameChar last = true := (isNameChar_iff last).2 (isName.2 last member)
      exact noDigit (isDigit_eq_false_of_isNameChar letter)
  | procedure isName =>
      refine noDigit ?_
      obtain ⟨first, rest, shape, capital, letters⟩ := isName
      rw [shape] at member
      rcases List.mem_cons.1 member with rfl | member
      · exact isDigit_eq_false_of_isUpper ((isUpper_iff last).2 capital)
      · rcases letters last member with capital | rfl
        · exact isDigit_eq_false_of_isUpper ((isUpper_iff last).2 capital)
        · rfl
  | comment =>
      rw [← List.cons_append, List.getLast?_concat] at isLast
      cases isLast
      exact noDigit rfl
  | blank foreign =>
      cases isLast
      exact noDigit (isSign_of_foreign foreign).noDigit

/-- A longest piece is still the longest where the text behind it is cut off. -/
theorem Longest.shorten
    {piece rest further : List Char} {lexeme : Lexeme}
    (longest : Longest piece (rest ++ further) lexeme) : Longest piece rest lexeme := by
  refine ⟨longest.isMatch, fun other meaning isMatch inside => ?_⟩
  refine longest.longest other meaning isMatch (inside.trans ?_)
  rw [← List.append_assoc]
  exact List.prefix_append _ _

/-- The scanner fails at a piece. What stands before it splits into longest pieces, and digits at
that place do not prolong a number. -/
theorem exists_failing
    {text : List Char} {position : Nat} {done : List Token} {failure : ScanFailure}
    (failed : scanFrom position 0 done text = .error failure) :
    ∃ before first rest tokens, text = before ++ first :: rest ∧ Splits before tokens ∧
      (piece first rest).failure? (position + width before) = some failure ∧
      (first.isDigit = true → ∀ last ∈ before.getLast?, last.isDigit = false) := by
  induction isLength : text.length using Nat.strong_induction_on
    generalizing text position done with
  | _ length inductionHypothesis =>
      cases text with
      | nil =>
          rw [scanFrom] at failed
          cases failed
      | cons first rest =>
          rcases failure_or_cut first rest position with
            ⟨other, fails⟩ | ⟨piece, behind, lexeme, here, shape, nonempty, longest, stands⟩
          · rw [scanFrom_of_failure fails] at failed
            cases failed
            refine ⟨[], first, rest, [], rfl, .nil, fails, fun _ last isLast => ?_⟩
            cases isLast
          · rw [shape, longest.scanFrom_eq stands] at failed
            have shorter : behind.length < length := by
              have positive := List.length_pos_iff.2 nonempty
              rw [shape, List.length_append] at isLength
              omega
            obtain ⟨before, next, further, tokens, rfl, splits, fails, noDigit⟩ :=
              inductionHypothesis _ shorter failed rfl
            refine ⟨piece ++ before, next, further, here ++ tokens, ?_, ?_, ?_, ?_⟩
            · rw [shape, List.append_assoc]
            · exact .cons nonempty longest.shorten stands splits
            · rw [width_append, ← Nat.add_assoc]
              exact fails
            · intro digit last isLast
              rw [Option.mem_def, List.getLast?_append, Option.or_eq_some_iff] at isLast
              rcases isLast with isLast | ⟨isNone, isLast⟩
              · exact noDigit digit last isLast
              · obtain rfl := List.getLast?_eq_none_iff.1 isNone
                rw [Bool.eq_false_iff]
                intro lastDigit
                have stops := longest.digits_stop (longest.isMatch.digits_of_last isLast lastDigit)
                rw [stops next rfl] at digit
                cases digit

theorem apart_half
    {sign : Char} (isHalf : sign = '&' ∨ sign = '|') (before : List Char) : Apart before sign := by
  refine ⟨fun digit => ?_, ?_, ?_, fun first isSingle => ?_⟩
  · obtain rfl | rfl := isHalf <;> cases digit
  · obtain rfl | rfl := isHalf <;> rfl
  · obtain rfl | rfl := isHalf <;> rfl
  · refine Option.eq_none_iff_forall_ne_some.2 fun token found => ?_
    unfold double? at found
    split at found <;> simp_all [single?]

section

variable {first : Char} {tail before after : List Char}

/-- What is unexpected does not prolong the text before it. -/
theorem Unexpected.apart (unexpected : Unexpected (first :: tail) after) (before : List Char) :
    Apart before first := by
  cases unexpected with
  | half isHalf alone => exact apart_half isHalf before
  | quote noLiteral => exact separates_quote.apart before
  | openComment isOpen => exact separates_backslash.apart before

theorem Unexpected.noDigit (unexpected : Unexpected (first :: tail) after) :
    first.isDigit = false := by
  cases unexpected with
  | half isHalf alone => obtain rfl | rfl := isHalf <;> rfl
  | quote noLiteral => rfl
  | openComment isOpen => rfl

theorem TooLarge.apart (tooLarge : TooLarge before (first :: tail) after) :
    Apart before first := by
  have digit := tooLarge.allDigits first List.mem_cons_self
  refine ⟨fun _ => tooLarge.noneBefore, ?_, ?_, fun sign _ => double?_eq_none ?_ sign⟩
  · rw [Bool.eq_false_iff]
    intro letter
    rw [isDigit_eq_false_of_isNameChar letter] at digit
    cases digit
  · rw [Bool.eq_false_iff, isProcedureChar, ne_eq, Bool.or_eq_true, beq_iff_eq]
    rintro (capital | rfl)
    · rw [isDigit_eq_false_of_isUpper capital] at digit
      cases digit
    · cases digit
  · have noSigns : secondSigns.all (!·.isDigit) = true := rfl
    intro isSecond
    have noDigit := List.all_eq_true.1 noSigns first isSecond
    rw [digit] at noDigit
    cases noDigit

end

/-- The text behind another one fails at its head, with this failure. -/
inductive Fails (position : Nat) (before : List Char) : List Char → ScanFailure → Prop
  | unexpected {text after : List Char} : Unexpected text after →
      Fails position before (text ++ after) (.unexpected position (String.ofList text))
  | numberOutOfRange {digits after : List Char} : TooLarge before digits after →
      Fails position before (digits ++ after) (.numberOutOfRange position (String.ofList digits))

section

variable {position : Nat} {before rest : List Char} {failure : ScanFailure}

theorem Fails.of_piece
    {first : Char} (failing : (piece first rest).failure? position = some failure)
    (noneBefore : first.isDigit = true → ∀ last ∈ before.getLast?, last.isDigit = false) :
    Fails position before (first :: rest) failure := by
  cases isPiece : piece first rest with
  | token value width =>
      rw [isPiece] at failing
      cases failing
  | blank width =>
      rw [isPiece] at failing
      cases failing
  | unexpected text =>
      rw [isPiece] at failing
      cases failing
      obtain ⟨after, split, unexpected⟩ := piece_eq_unexpected_iff.1 isPiece
      rw [split]
      exact .unexpected unexpected
  | numberOutOfRange digits =>
      rw [isPiece] at failing
      cases failing
      obtain ⟨after, split, tooLarge⟩ := tooLarge_of_piece isPiece noneBefore
      rw [split]
      exact .numberOutOfRange tooLarge

theorem Fails.failing_piece (fails : Fails position before rest failure) :
    ∃ first tail, rest = first :: tail ∧ Apart before first ∧
      (piece first tail).failure? position = some failure := by
  cases fails with
  | unexpected unexpected =>
      obtain ⟨first, tail, rfl, isPiece⟩ := unexpected.piece_eq
      exact ⟨first, _, rfl, unexpected.apart before, congrArg (Piece.failure? position) isPiece⟩
  | numberOutOfRange tooLarge =>
      obtain ⟨first, tail, rfl, isPiece⟩ := tooLarge.piece_eq
      exact ⟨first, _, rfl, tooLarge.apart, congrArg (Piece.failure? position) isPiece⟩

end

/-- The scanner fails exactly where a text with tokens is followed by one that fails at its head. -/
theorem scan_eq_error_iff_fails (source : String) (failure : ScanFailure) :
    scan source = .error failure ↔
      ∃ before rest tokens, source = before ++ rest ∧ scan before = .ok tokens ∧
        Fails before.utf8ByteSize before.toList rest.toList failure := by
  constructor
  · intro failed
    obtain ⟨before, first, rest, tokens, shape, splits, failing, noneBefore⟩ :=
      exists_failing failed
    refine ⟨String.ofList before, String.ofList (first :: rest), tokens, ?_, ?_, ?_⟩
    · rw [← String.ofList_append, ← shape, String.ofList_toList]
    · rw [scan, String.toList_ofList, splits.scanFrom_eq]
      rfl
    · rw [← width_toList, String.toList_ofList, String.toList_ofList]
      rw [Nat.zero_add] at failing
      exact .of_piece failing noneBefore
  · rintro ⟨before, rest, tokens, rfl, scanned, fails⟩
    obtain ⟨_, rfl, splits⟩ := splits_of_scanFrom scanned
    obtain ⟨first, tail, shape, apart, failing⟩ := fails.failing_piece
    rw [scan, String.toList_append, shape, splits.scanFrom_append apart]
    apply scanFrom_of_failure
    rw [Nat.zero_add, width_toList]
    exact failing

/-- Failures are exact. A source has no tokens exactly if it goes on, behind a text that has tokens,
with digits for too large a number or with something unexpected. The failure has its position in
bytes, its text, and the kind that the first character of this text tells. -/
theorem scan_eq_error_iff (source : String) (failure : ScanFailure) :
    scan source = .error failure ↔
      ∃ before after tokens,
        source = before ++ failure.text ++ after ∧
        failure.position = before.utf8ByteSize ∧
        scan before = .ok tokens ∧
        (failure.IsOutOfRange ↔
          ∃ character ∈ (failure.text ++ after).toList.head?, character.isDigit = true) ∧
        (failure.IsOutOfRange → TooLarge before.toList failure.text.toList after.toList) ∧
        (¬ failure.IsOutOfRange → Unexpected failure.text.toList after.toList) := by
  rw [scan_eq_error_iff_fails]
  constructor
  · rintro ⟨before, rest, tokens, rfl, scanned, fails⟩
    have split {text after : List Char} (isRest : text ++ after = rest.toList) :
        before ++ rest = before ++ String.ofList text ++ String.ofList after := by
      rw [String.append_assoc, ← String.ofList_append, isRest, String.ofList_toList]
    generalize isRest : rest.toList = characters at fails
    cases fails with
    | @unexpected text after unexpected =>
        refine ⟨before, String.ofList after, tokens, split isRest.symm, rfl, scanned, ?_, nofun, ?_⟩
        · obtain ⟨first, tail, rfl, _⟩ := unexpected.piece_eq
          simp [ScanFailure.IsOutOfRange, ScanFailure.text, unexpected.noDigit]
        · simpa [ScanFailure.IsOutOfRange, ScanFailure.text] using unexpected
    | @numberOutOfRange digits after tooLarge =>
        refine ⟨before, String.ofList after, tokens, split isRest.symm, rfl, scanned, ?_, ?_, ?_⟩
        · obtain ⟨first, tail, rfl, _⟩ := tooLarge.piece_eq
          simp [ScanFailure.IsOutOfRange, ScanFailure.text, tooLarge.allDigits]
        · simpa [ScanFailure.IsOutOfRange, ScanFailure.text] using tooLarge
        · exact fun inRange => absurd trivial inRange
  · rintro ⟨before, after, tokens, rfl, isPosition, scanned, _, isTooLarge, isUnexpected⟩
    refine ⟨before, failure.text ++ after, tokens, String.append_assoc, scanned, ?_⟩
    rw [String.toList_append, ← isPosition]
    cases failure with
    | unexpected position text =>
        have fails : Fails position before.toList (text.toList ++ after.toList) _ :=
          .unexpected (isUnexpected id)
        rwa [String.ofList_toList] at fails
    | numberOutOfRange position digits =>
        have fails : Fails position before.toList (digits.toList ++ after.toList) _ :=
          .numberOutOfRange (isTooLarge trivial)
        rwa [String.ofList_toList] at fails

end Token

end Slate
