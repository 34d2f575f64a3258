import Slate.Proofs.Token.LongestMatch

/-!
Texts one after the other. The scanner looks ahead only as far as a piece may still grow. A
character that no piece grows by keeps what stands before it apart from what follows, so that the
tokens of the two texts come one after the other, and a failure in the second text is the failure
that it has by itself, further on.
-/

set_option autoImplicit false

namespace Slate

/-- The same failure of a text that stands behind so many bytes. -/
def ScanFailure.later (bytes : Nat) : ScanFailure → ScanFailure
  | .unexpected position text => .unexpected (bytes + position) text
  | .numberOutOfRange position digits => .numberOutOfRange (bytes + position) digits

namespace Token

/-- No name, number or symbol goes on with this character. -/
structure Separates (character : Char) : Prop where
  noDigit : character.isDigit = false
  noName : isNameChar character = false
  noProcedure : isProcedureChar character = false
  noSymbol : ∀ first, double? first character = none

/-- The characters that end a symbol of two. -/
def secondSigns : List Char :=
  ['+', '-', '=', '&', '|']

theorem double?_eq_none {second : Char} (noSecond : second ∉ secondSigns) (first : Char) :
    double? first second = none := by
  refine Option.eq_none_iff_forall_ne_some.2 fun token found => noSecond ?_
  unfold double? at found
  split at found <;> cases found <;> decide

theorem separates_backslash : Separates '\\' :=
  ⟨rfl, rfl, rfl, double?_eq_none (by decide)⟩

theorem separates_quote : Separates '\'' :=
  ⟨rfl, rfl, rfl, double?_eq_none (by decide)⟩

theorem separates_of_foreign {character : Char} (foreign : ¬ CanStart character) :
    Separates character := by
  have isSign := isSign_of_foreign foreign
  refine ⟨isSign.noDigit, isSign.noName, ?_, double?_eq_none fun isSecond => ?_⟩
  · rw [Bool.eq_false_iff, ne_eq, isProcedureChar_iff]
    rintro (capital | underscore)
    · exact foreign (.inr (.inr (.inr (.inl capital))))
    · exact foreign (.inr (.inr (.inr (.inr underscore))))
  · have areMarks : secondSigns ⊆ marks := by decide
    exact foreign (.inl (areMarks isSecond))

/-- No piece of the text goes on with this character. A digit may follow a text that does not end
with one, and the second half of a symbol may follow if its first half is no symbol. -/
structure Apart (before : List Char) (next : Char) : Prop where
  noNumber : next.isDigit = true → ∀ last ∈ before.getLast?, last.isDigit = false
  noName : isNameChar next = false
  noProcedure : isProcedureChar next = false
  noSymbol : ∀ first, (single? first).isSome = true → double? first next = none

theorem Separates.apart {next : Char} (separates : Separates next) (before : List Char) :
    Apart before next where
  noNumber digit := absurd digit (Bool.eq_false_iff.1 separates.noDigit)
  noName := separates.noName
  noProcedure := separates.noProcedure
  noSymbol first _ := separates.noSymbol first

theorem Apart.behind {piece rest : List Char} {next : Char} (apart : Apart (piece ++ rest) next) :
    Apart rest next := by
  refine ⟨fun digit last isLast => ?_, apart.noName, apart.noProcedure, apart.noSymbol⟩
  refine apart.noNumber digit last ?_
  rw [List.getLast?_append, isLast]
  rfl

section

variable {next : Char} {first : Char} {rest further : List Char}

theorem takeWhile_append_cons
    {belongs : Char → Bool}
    (ends : (∀ character ∈ rest, belongs character = true) → belongs next = false) :
    (rest ++ next :: further).takeWhile belongs = rest.takeWhile belongs := by
  rw [List.takeWhile_append]
  split
  next all =>
    have whole : rest.takeWhile belongs = rest := (List.takeWhile_prefix belongs).eq_of_length all
    simp [ends (List.takeWhile_eq_self_iff.1 whole), whole]
  next => rfl

/-- A literal shows its own end. -/
theorem character?_append {found : Char × Nat} (isLiteral : character? rest = some found) :
    character? (rest ++ further) = some found := by
  unfold character? at isLiteral
  split at isLiteral
  next => cases isLiteral; rfl
  next => cases isLiteral; rfl
  next => cases isLiteral; rfl
  next =>
    split at isLiteral
    next => cases isLiteral
    next plain =>
      rw [List.cons_append, List.cons_append, character?, if_neg plain, isLiteral]
      all_goals
        rintro _ rfl
        exact absurd rfl plain
  next => cases isLiteral

/-- Only symbols and their halves go on as symbols, and a half by itself is unexpected. -/
theorem Apart.double?_eq_none
    (apart : Apart [first] next) (cuts : ∀ text, piece first [] ≠ .unexpected text)
    (noQuote : first ≠ '\'') (noBackslash : first ≠ '\\') : double? first next = none := by
  cases isSingle : single? first with
  | some token => exact apart.noSymbol first (Option.isSome_iff_exists.2 ⟨token, isSingle⟩)
  | none =>
      refine Option.eq_none_iff_forall_ne_some.2 fun token found => ?_
      obtain ⟨isSymbol, spelled⟩ := double?_eq_some found
      rcases half_of_mark (isSymbol.begins spelled) isSingle with half | isQuote | isBackslash
      · obtain rfl | rfl := half
        · exact cuts _ rfl
        · exact cuts _ rfl
      · exact noQuote isQuote
      · exact noBackslash isBackslash

/-- Unless something unexpected was found, a character that is kept apart and what follows it change
nothing. -/
theorem piece_append
    (apart : Apart (first :: rest) next) (cuts : ∀ text, piece first rest ≠ .unexpected text) :
    piece first (rest ++ next :: further) = piece first rest := by
  by_cases isQuote : first = '\''
  · subst isQuote
    rw [piece_quote] at cuts ⊢
    cases isLiteral : character? rest with
    | none =>
        rw [isLiteral] at cuts
        exact absurd rfl (cuts _)
    | some found => rw [character?_append isLiteral, piece_quote, isLiteral]
  by_cases isBackslash : first = '\\'
  · subst isBackslash
    rw [piece_backslash] at cuts
    split at cuts
    next => exact absurd rfl (cuts _)
    next closed =>
      have inside := (List.takeWhile_prefix (· != '\\') : rest.takeWhile _ <+: rest).length_le
      have stillClosed : (rest.takeWhile (· != '\\')).length ≠
          (rest ++ next :: further).length := by
        rw [List.length_append]
        omega
      rw [piece_backslash, piece_backslash, List.takeWhile_append, if_neg closed, if_neg closed,
        if_neg stillClosed]
  by_cases digit : first.isDigit = true
  · -- If the digits go on to the end of the text, then it ends with one.
    have sameDigits : (rest ++ next :: further).takeWhile Char.isDigit =
        rest.takeWhile Char.isDigit := by
      refine takeWhile_append_cons fun allDigits => Bool.eq_false_iff.2 fun nextDigit => ?_
      have isLast := List.getLast?_eq_some_getLast (List.cons_ne_nil first rest)
      have areDigits : ∀ character ∈ first :: rest, character.isDigit = true :=
        List.forall_mem_cons.2 ⟨digit, allDigits⟩
      have lastDigit := areDigits _ (List.mem_of_getLast? isLast)
      rw [apart.noNumber nextDigit _ isLast] at lastDigit
      cases lastDigit
    unfold piece
    rw [if_pos digit, if_pos digit, sameDigits]
  -- The second half of a symbol is in the text before the next character, or there is none.
  have sameSymbol : (rest ++ next :: further).head?.bind (double? first) =
      rest.head?.bind (double? first) := by
    cases rest with
    | nil => exact apart.double?_eq_none cuts isQuote isBackslash
    | cons second rest => rfl
  unfold piece
  rw [if_neg digit, if_neg digit, takeWhile_append_cons fun _ => apart.noName,
    takeWhile_append_cons fun _ => apart.noProcedure, if_neg isQuote, if_neg isBackslash,
    sameSymbol, if_neg isQuote, if_neg isBackslash]

end

theorem width_append (first second : List Char) :
    width (first ++ second) = width first + width second := by
  induction first with
  | nil => exact (Nat.zero_add _).symm
  | cons character first inductionHypothesis =>
      rw [List.cons_append, width, width, inductionHypothesis, Nat.add_assoc]

theorem width_toList (text : String) : width text.toList = text.utf8ByteSize := by
  obtain ⟨characters, rfl⟩ : ∃ characters, text = String.ofList characters :=
    ⟨text.toList, String.ofList_toList.symm⟩
  rw [String.toList_ofList]
  induction characters with
  | nil => rfl
  | cons character characters inductionHypothesis =>
      rw [width, inductionHypothesis, String.ofList_cons, String.utf8ByteSize_append,
        String.utf8ByteSize_singleton]

/-- The result of a text that stands behind so many bytes with these tokens. -/
def behind (bytes : Nat) (tokens : List Token) :
    Except ScanFailure (List Token) → Except ScanFailure (List Token)
  | .ok others => .ok (tokens ++ others)
  | .error failure => .error (failure.later bytes)

theorem behind_behind
    (bytes more : Nat) (tokens others : List Token) (result : Except ScanFailure (List Token)) :
    behind bytes tokens (behind more others result) =
      behind (bytes + more) (tokens ++ others) result := by
  cases result with
  | ok further => simp only [behind, List.append_assoc]
  | error failure => cases failure <;> simp only [behind, ScanFailure.later, Nat.add_assoc]

/-- Where the scanner stands and what it found before do not change what it finds. -/
theorem scanFrom_eq_behind (text : List Char) (position skip : Nat) (done : List Token) :
    scanFrom position skip done text = behind position done.reverse (scanFrom 0 skip [] text) := by
  induction text generalizing position skip done with
  | nil =>
      cases skip <;> simp [scanFrom, behind]
  | cons first rest inductionHypothesis =>
      have further (width : Nat) (here : List Token) :
          scanFrom (position + first.utf8Size) width (here ++ done) rest =
            behind position done.reverse (scanFrom (0 + first.utf8Size) width here rest) := by
        rw [inductionHypothesis, inductionHypothesis (0 + first.utf8Size), behind_behind,
          Nat.zero_add, List.reverse_append]
      cases skip with
      | succ skip => exact further skip []
      | zero =>
          rw [scanFrom, scanFrom]
          cases piece first rest with
          | token value width => exact further width [value]
          | blank width => exact further width []
          | unexpected text => rfl
          | numberOutOfRange digits => rfl

/-- The scanner comes through the first text to the next character, with the tokens of the text. -/
theorem Splits.scanFrom_append
    {text : List Char} {tokens : List Token} (splits : Splits text tokens) {next : Char}
    (apart : Apart text next) (further : List Char) (position : Nat) (done : List Token) :
    scanFrom position 0 done (text ++ next :: further) =
      scanFrom (position + width text) 0 (tokens.reverse ++ done) (next :: further) := by
  induction splits generalizing position done with
  | nil => rfl
  | @cons piece rest lexeme here others _ longest stands _ inductionHypothesis =>
      obtain ⟨first, tail, rfl, isPiece⟩ := longest.cut_eq
      have samePiece : Token.piece first (tail ++ (rest ++ next :: further)) =
          lexeme.cut (first :: tail) := by
        have apartHere : Apart (first :: (tail ++ rest)) next := apart
        have cuts : ∀ text, Token.piece first (tail ++ rest) ≠ .unexpected text := by
          rw [isPiece]
          exact lexeme.cut_ne_unexpected (first :: tail)
        rw [← List.append_assoc, piece_append apartHere cuts, isPiece]
      rw [List.append_assoc, scanFrom_of_cut samePiece stands, inductionHypothesis apart.behind,
        width_append, List.reverse_append, List.append_assoc, Nat.add_assoc]

/-- Blank characters and closed comments, one or more of them. -/
inductive Separator : List Char → Prop
  | last {piece : List Char} : Matches piece .blank → Separator piece
  | more {piece rest : List Char} :
      Matches piece .blank → Separator rest → Separator (piece ++ rest)

/-- A blank or a comment is one piece, whatever follows it. -/
theorem cut_of_blank
    {piece : List Char} (isBlank : Matches piece .blank) :
    ∃ first tail, piece = first :: tail ∧ Separates first ∧
      ∀ rest, Token.piece first (tail ++ rest) = Lexeme.blank.cut (first :: tail) := by
  cases isBlank with
  | comment closed => exact ⟨_, _, rfl, separates_backslash, fun _ => cut_comment closed⟩
  | blank foreign => exact ⟨_, _, rfl, separates_of_foreign foreign, fun _ => cut_blank foreign⟩

namespace Separator

variable {separator : List Char}

theorem begins (isSeparator : Separator separator) :
    ∃ first tail, separator = first :: tail ∧ Separates first := by
  cases isSeparator with
  | last isBlank =>
      obtain ⟨first, tail, rfl, separates, _⟩ := cut_of_blank isBlank
      exact ⟨first, tail, rfl, separates⟩
  | more isBlank _ =>
      obtain ⟨first, tail, rfl, separates, _⟩ := cut_of_blank isBlank
      exact ⟨first, tail ++ _, rfl, separates⟩

theorem scanFrom_append
    (isSeparator : Separator separator) (rest : List Char) (position : Nat) (done : List Token) :
    scanFrom position 0 done (separator ++ rest) =
      scanFrom (position + width separator) 0 done rest := by
  induction isSeparator generalizing position with
  | last isBlank =>
      obtain ⟨first, tail, rfl, _, isPiece⟩ := cut_of_blank isBlank
      exact scanFrom_of_cut (isPiece rest) rfl position done
  | @more piece others isBlank _ inductionHypothesis =>
      obtain ⟨first, tail, rfl, _, isPiece⟩ := cut_of_blank isBlank
      rw [List.append_assoc, scanFrom_of_cut (isPiece (others ++ rest)) rfl]
      exact (inductionHypothesis _).trans (by rw [width_append, Nat.add_assoc])

end Separator

/-- The scanner comes through a text and a separator behind it, with the tokens of the text. -/
theorem Splits.scanFrom_separator
    {text separator : List Char} {tokens : List Token} (splits : Splits text tokens)
    (isSeparator : Separator separator) (rest : List Char) :
    scanFrom 0 0 [] (text ++ separator ++ rest) =
      scanFrom (width (text ++ separator)) 0 tokens.reverse rest := by
  obtain ⟨next, tail, rfl, separates⟩ := isSeparator.begins
  rw [List.append_assoc, List.cons_append, splits.scanFrom_append (separates.apart text),
    ← List.cons_append, isSeparator.scanFrom_append, width_append, Nat.zero_add, List.append_nil]

/-- Texts on both sides of a blank are scanned one after the other. -/
theorem scan_append_blank
    {first second : String} {tokens others : List Token} (scanned : scan first = .ok tokens)
    (scannedToo : scan second = .ok others) :
    scan (first ++ " " ++ second) = .ok (tokens ++ others) := by
  obtain ⟨_, rfl, splits⟩ := splits_of_scanFrom scanned
  obtain ⟨_, rfl, splitsToo⟩ := splits_of_scanFrom scannedToo
  have isSeparator : Separator [' '] := .last (.blank (by decide))
  have text : (first ++ " " ++ second).toList = first.toList ++ [' '] ++ second.toList := by simp
  unfold scan
  rw [text, splits.scanFrom_separator isSeparator, splitsToo.scanFrom_eq]
  simp

/-- A source and any text behind it, with a separator between them, are scanned by themselves. The
tokens come one after the other, and if the text behind has none, it fails for the same reason as it
does alone, later by the bytes of the source and the separator. -/
theorem scan_append_separator
    {first separator : String} {tokens : List Token} (scanned : scan first = .ok tokens)
    (isSeparator : Separator separator.toList) (second : String) :
    (∀ others, scan second = .ok others →
      scan (first ++ separator ++ second) = .ok (tokens ++ others)) ∧
    ∀ failure, scan second = .error failure →
      scan (first ++ separator ++ second) =
        .error (failure.later (first ++ separator).utf8ByteSize) := by
  obtain ⟨_, rfl, splits⟩ := splits_of_scanFrom scanned
  have passed : scan (first ++ separator ++ second) =
      behind (first ++ separator).utf8ByteSize tokens (scan second) := by
    unfold scan
    rw [String.toList_append, String.toList_append, splits.scanFrom_separator isSeparator,
      scanFrom_eq_behind, List.reverse_reverse, ← String.toList_append, width_toList]
  constructor
  · intro others scannedToo
    rw [passed, scannedToo]
    rfl
  · intro failure fails
    rw [passed, fails]
    rfl

/-- The sign before the separator does not join the sign behind it, quotes and signs in the comment
are not looked at, and a failure is counted in bytes. -/
theorem scan_append_separator_signs :
    scan "a+" = .ok [.identifier "a", .plus] ∧ Separator " \\ '& \\é".toList ∧
      scan ("a+" ++ " \\ '& \\é" ++ "+b") =
        .ok [.identifier "a", .plus, .plus, .identifier "b"] ∧
      scan ("a+" ++ " \\ '& \\é" ++ "é&") = .error (.unexpected 13 "&") := by
  have scanned : scan "a+" = .ok [.identifier "a", .plus] := by decide +kernel
  have isSeparator : Separator " \\ '& \\é".toList := by
    have isComment : Matches ('\\' :: ([' ', '\'', '&', ' '] ++ ['\\'])) .blank :=
      .comment (by decide)
    have isLetter : Matches ['é'] .blank := .blank (by decide)
    exact .more (.blank (by decide)) (.more isComment (.last isLetter))
  refine ⟨scanned, isSeparator, ?_, ?_⟩
  · exact (scan_append_separator scanned isSeparator "+b").1
      [.plus, .identifier "b"] (by decide +kernel)
  · exact (scan_append_separator scanned isSeparator "é&").2
      (.unexpected 2 "&") (by decide +kernel)

end Token

end Slate
