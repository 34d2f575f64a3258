import Mathlib.Data.List.TakeWhile
import Mathlib.Data.Nat.Find
import Slate.Proofs.Token.Spelling

/-!
The scanner against the patterns of the language. A pattern says which texts are a token, a comment
or a blank, and what they stand for. The patterns overlap, and of all texts at one place that some
pattern takes the longest one counts. A source splits into such pieces in at most one way, and the
scanner finds it.

The scanner decides by the first character and never compares lengths. It is enough to follow it
along a longest piece: what it cuts off there is that piece. Where it cuts off anything, some
pattern takes a text, so there is a longest piece to follow. Where no pattern takes any, it is half
a symbol, a quote or an open comment that is in the way.

The patterns give lexical tokens only, so spelling the tokens of a source and scanning them again
changes nothing.
-/

set_option autoImplicit false

namespace Slate

namespace Word

theorem ofInt?_natCast (value : Nat) :
    ofInt? value = if value ≤ 9223372036854775807 then some (Int64.ofInt value) else none := by
  have least : Int64.minValue.toInt = -9223372036854775808 := by decide
  have greatest : Int64.maxValue.toInt = 9223372036854775807 := by decide
  unfold ofInt?
  rw [least, greatest]
  congr 1
  simp only [eq_iff_iff]
  omega

theorem ofInt?_toNat (character : Char) : ofInt? character.toNat = some (ofChar character) :=
  ofInt?_eq_some_iff.2 (toInt_ofChar character)

end Word

namespace Token

/-- Tokens without a payload. -/
def IsSymbol : Token → Prop
  | .number _ | .identifier _ | .procedure _ => False
  | _ => True

/-- Characters other than letters, digits and underscores that a token or a comment begins with. -/
def marks : List Char :=
  ['-', '+', '*', '/', '%', '<', '=', '>', '!', '(', ')', '\x7b', '\x7d', '@', '?', ':', ';', '&',
    '|', '\\', '\'']

def CanStart (character : Char) : Prop :=
  character ∈ marks ∨ ('0' ≤ character ∧ character ≤ '9') ∨
    ('a' ≤ character ∧ character ≤ 'z') ∨ ('A' ≤ character ∧ character ≤ 'Z') ∨ character = '_'

instance (character : Char) : Decidable (CanStart character) :=
  inferInstanceAs (Decidable (_ ∨ _ ∨ _ ∨ _ ∨ _))

/-- The letter behind a backslash and the character that both stand for. -/
inductive Escape : Char → Char → Prop
  | newline : Escape 'n' '\n'
  | backslash : Escape '\\' '\\'
  | quote : Escape '\'' '\''

/-- What a text stands for: a token that has only this spelling, a number, or nothing. -/
inductive Lexeme
  | token (value : Token)
  | numeral (value : Nat)
  | blank

/-- The tokens of a lexeme. A number beyond sixty-four bits has none. -/
def Lexeme.tokens? : Lexeme → Option (List Token)
  | .token value => some [value]
  | .numeral value =>
      if value ≤ 9223372036854775807 then some [.number (Int64.ofInt value)] else none
  | .blank => some []

/-- `Matches text lexeme`: a pattern takes the text, which stands for the lexeme. -/
inductive Matches : List Char → Lexeme → Prop
  | symbol {token : Token} (isSymbol : token.IsSymbol) :
      Matches token.spelling.toList (.token token)
  | digits {text : List Char} (nonempty : text ≠ [])
      (allDigits : ∀ character ∈ text, '0' ≤ character ∧ character ≤ '9') :
      Matches text (.numeral (Nat.ofDigitChars 10 text 0))
  | literal {character : Char} (plain : character ≠ '\\') :
      Matches ['\'', character, '\''] (.numeral character.toNat)
  | escape {letter character : Char} (escapes : Escape letter character) :
      Matches ['\'', '\\', letter, '\''] (.numeral character.toNat)
  | identifier {name : String} (isName : IsVariableName name) :
      Matches name.toList (.token (.identifier name))
  | procedure {name : String} (isName : IsProcedureName name) :
      Matches name.toList (.token (.procedure name))
  | comment {body : List Char} (closed : '\\' ∉ body) : Matches ('\\' :: (body ++ ['\\'])) .blank
  | blank {character : Char} (foreign : ¬ CanStart character) : Matches [character] .blank

/-- The piece stands before the rest, and no longer text at its place is taken by a pattern. -/
structure Longest (piece rest : List Char) (lexeme : Lexeme) : Prop where
  isMatch : Matches piece lexeme
  longest : ∀ other meaning, Matches other meaning → other <+: piece ++ rest →
    other.length ≤ piece.length

/-- The text splits into longest pieces, and these are their tokens. -/
inductive Splits : List Char → List Token → Prop
  | nil : Splits [] []
  | cons {piece rest : List Char} {lexeme : Lexeme} {here further : List Token} :
      piece ≠ [] → Longest piece rest lexeme → lexeme.tokens? = some here → Splits rest further →
        Splits (piece ++ rest) (here ++ further)

theorem double?_eq_some {first second : Char} {token : Token}
    (found : double? first second = some token) :
    token.IsSymbol ∧ token.spelling.toList = [first, second] := by
  unfold double? at found
  split at found <;> cases found <;> exact ⟨trivial, rfl⟩

theorem single?_eq_some {character : Char} {token : Token}
    (found : single? character = some token) :
    token.IsSymbol ∧ token.spelling.toList = [character] := by
  unfold single? at found
  split at found <;> cases found <;> exact ⟨trivial, rfl⟩

/-- A symbol is spelled with one mark or with two. -/
theorem IsSymbol.spelled {token : Token} (isSymbol : token.IsSymbol) :
    (∃ mark ∈ marks, token.spelling.toList = [mark] ∧ single? mark = some token) ∨
      ∃ mark ∈ marks, ∃ second, token.spelling.toList = [mark, second] ∧
        double? mark second = some token := by
  cases token with
  | number _ | identifier _ | procedure _ => cases isSymbol
  | increment | decrement | plusAssign | minusAssign | starAssign | slashAssign | percentAssign
  | lessEqual | greaterEqual | equal | notEqual | and | or =>
      exact .inr ⟨_, by decide, _, rfl, rfl⟩
  | _ => exact .inl ⟨_, by decide, rfl, rfl⟩

theorem IsSymbol.begins
    {token : Token} (isSymbol : token.IsSymbol) {first : Char} {tail : List Char}
    (spelled : token.spelling.toList = first :: tail) : first ∈ marks := by
  rcases isSymbol.spelled with ⟨mark, isMark, single, _⟩ | ⟨mark, isMark, second, pair, _⟩
  · rw [(List.cons.inj (spelled.symm.trans single)).1]
    exact isMark
  · rw [(List.cons.inj (spelled.symm.trans pair)).1]
    exact isMark

theorem isDigit_iff (character : Char) :
    character.isDigit = true ↔ '0' ≤ character ∧ character ≤ '9' := by
  change (decide ('0'.val ≤ character.val) && decide (character.val ≤ '9'.val)) = true ↔ _
  simp [Char.le_def]

/-- A character that opens no run of letters or digits, no literal and no comment, so that only
symbols and blanks begin with it. -/
structure IsSign (first : Char) : Prop where
  noDigit : first.isDigit = false
  noName : isNameChar first = false
  noCapital : first.isUpper = false
  noQuote : first ≠ '\''
  noBackslash : first ≠ '\\'

theorem isSign_of_mark {first : Char} (isMark : first ∈ marks) (noQuote : first ≠ '\'')
    (noBackslash : first ≠ '\\') : IsSign first := by
  have allPlain : marks.all (fun mark => !(mark.isDigit || isNameChar mark || mark.isUpper)) = true :=
    rfl
  have plain := List.all_eq_true.1 allPlain first isMark
  simp only [Bool.not_eq_true', Bool.or_eq_false_iff] at plain
  exact ⟨plain.1.1, plain.1.2, plain.2, noQuote, noBackslash⟩

theorem isSign_of_foreign {first : Char} (foreign : ¬ CanStart first) : IsSign first := by
  refine ⟨?_, ?_, ?_, ?_, ?_⟩
  · rw [Bool.eq_false_iff, ne_eq, isDigit_iff]
    exact fun digit => foreign (.inr (.inl digit))
  · rw [Bool.eq_false_iff, ne_eq, isNameChar_iff]
    rintro (letter | underscore)
    · exact foreign (.inr (.inr (.inl letter)))
    · exact foreign (.inr (.inr (.inr (.inr underscore))))
  · rw [Bool.eq_false_iff, ne_eq, isUpper_iff]
    exact fun capital => foreign (.inr (.inr (.inr (.inl capital))))
  · rintro rfl
    exact foreign (.inl (by decide))
  · rintro rfl
    exact foreign (.inl (by decide))

theorem piece_quote (rest : List Char) :
    piece '\'' rest =
      match character? rest with
      | some (character, width) => .token (.number (Word.ofChar character)) width
      | none => .unexpected ['\''] := rfl

theorem piece_backslash (rest : List Char) :
    piece '\\' rest =
      if (rest.takeWhile (· != '\\')).length = rest.length then .unexpected ('\\' :: rest)
      else .blank ((rest.takeWhile (· != '\\')).length + 1) := rfl

theorem piece_open_comment {rest : List Char} (isOpen : '\\' ∉ rest) :
    piece '\\' rest = .unexpected ('\\' :: rest) := by
  have all : rest.takeWhile (· != '\\') = rest := by
    refine List.takeWhile_eq_self_iff.2 fun character member => ?_
    rw [bne_iff_ne]
    rintro rfl
    exact isOpen member
  rw [piece_backslash, all, if_pos rfl]

/-- At a sign the next character decides between symbols. -/
theorem IsSign.piece_eq {first : Char} (isSign : IsSign first) (rest : List Char) :
    piece first rest =
      match rest.head?.bind (double? first), single? first with
      | some symbol, _ => .token symbol 1
      | none, some symbol => .token symbol 0
      | none, none => if first = '&' ∨ first = '|' then .unexpected [first] else .blank 0 := by
  unfold piece
  rw [if_neg (Bool.eq_false_iff.1 isSign.noDigit), if_neg (Bool.eq_false_iff.1 isSign.noName),
    if_neg (Bool.eq_false_iff.1 isSign.noCapital), if_neg isSign.noQuote]
  exact if_neg isSign.noBackslash

/-- What the scanner makes of a text that stands for a lexeme. -/
def Lexeme.cut (text : List Char) : Lexeme → Piece
  | .token value => .token value text.tail.length
  | .numeral value =>
      match Word.ofInt? value with
      | some word => .token (.number word) text.tail.length
      | none => .numberOutOfRange text
  | .blank => .blank text.tail.length

theorem Lexeme.cut_ne_unexpected (lexeme : Lexeme) (text other : List Char) :
    lexeme.cut text ≠ .unexpected other := by
  intro unexpected
  cases lexeme with
  | token value => cases unexpected
  | numeral value =>
      rw [cut] at unexpected
      split at unexpected <;> cases unexpected
  | blank => cases unexpected

namespace Longest

variable {piece rest : List Char} {lexeme : Lexeme}

/-- A longest piece does not go on with characters by which it would match still. -/
theorem stops
    (longest : Longest piece rest lexeme) (belongs : Char → Bool)
    (goesOn : ∀ character, belongs character = true →
      ∃ meaning, Matches (piece ++ [character]) meaning) :
    ∀ character ∈ rest.head?, belongs character = false := by
  intro character isHead
  obtain ⟨further, rfl⟩ := List.head?_eq_some_iff.1 isHead
  rw [Bool.eq_false_iff]
  intro belongsToo
  obtain ⟨meaning, isMatch⟩ := goesOn character belongsToo
  have bound := longest.longest _ meaning isMatch
    ((List.prefix_append_right_inj piece).2 (List.prefix_append [character] further))
  rw [List.length_append, List.length_singleton] at bound
  omega

theorem digits_stop
    (longest : Longest piece rest lexeme)
    (allDigits : ∀ character ∈ piece, '0' ≤ character ∧ character ≤ '9') :
    ∀ character ∈ rest.head?, character.isDigit = false := by
  refine longest.stops _ fun character digit => ⟨_, .digits (by simp) fun other member => ?_⟩
  rcases List.mem_append.1 member with before | isLast
  · exact allDigits other before
  · rw [List.mem_singleton.1 isLast, ← isDigit_iff]
    exact digit

end Longest

variable {first : Char} {tail rest : List Char}

theorem cut_symbol
    {token : Token} (isSymbol : token.IsSymbol) (spelled : token.spelling.toList = first :: tail)
    (longest : Longest (first :: tail) rest (.token token)) :
    piece first (tail ++ rest) = .token token tail.length := by
  rcases isSymbol.spelled with ⟨mark, isMark, single, found⟩ | ⟨mark, isMark, second, pair, found⟩
  · obtain ⟨rfl, rfl⟩ := List.cons.inj (spelled.symm.trans single)
    -- A second character that makes a longer symbol would have made the piece longer.
    have stops := longest.stops (fun second => (double? first second).isSome) fun second more => by
      obtain ⟨other, isDouble⟩ := Option.isSome_iff_exists.1 more
      obtain ⟨otherSymbol, otherSpelled⟩ := double?_eq_some isDouble
      exact ⟨_, otherSpelled ▸ Matches.symbol otherSymbol⟩
    have noDouble : rest.head?.bind (double? first) = none := by
      cases rest with
      | nil => rfl
      | cons second rest => simpa using stops second rfl
    have isSign : IsSign first := by
      refine isSign_of_mark isMark ?_ ?_ <;> rintro rfl <;> cases found
    rw [List.nil_append, isSign.piece_eq, noDouble, found]
    rfl
  · obtain ⟨rfl, rfl⟩ := List.cons.inj (spelled.symm.trans pair)
    have isSign : IsSign first := by
      refine isSign_of_mark isMark ?_ ?_ <;> rintro rfl <;> cases found
    have isDouble : ([second] ++ rest).head?.bind (double? first) = some token := found
    rw [isSign.piece_eq, isDouble]
    rfl

theorem cut_digits
    (allDigits : ∀ character ∈ first :: tail, '0' ≤ character ∧ character ≤ '9')
    (longest : Longest (first :: tail) rest (.numeral (Nat.ofDigitChars 10 (first :: tail) 0))) :
    piece first (tail ++ rest) =
      (Lexeme.numeral (Nat.ofDigitChars 10 (first :: tail) 0)).cut (first :: tail) := by
  refine piece_digits ?_ (longest.digits_stop allDigits)
  exact fun character member => (isDigit_iff character).2 (allDigits _ member)

theorem cut_identifier
    {name : String} (isName : IsVariableName name) (shape : name.toList = first :: tail)
    (longest : Longest (first :: tail) rest (.token (.identifier name))) :
    piece first (tail ++ rest) = .token (.identifier name) tail.length := by
  refine piece_identifier isName shape (longest.stops _ fun character letter => ?_)
  have isLonger : IsVariableName (String.ofList (first :: tail ++ [character])) := by
    refine ⟨by simp, fun other member => ?_⟩
    rw [String.toList_ofList, ← shape] at member
    rcases List.mem_append.1 member with before | isLast
    · exact isName.2 other before
    · rw [List.mem_singleton.1 isLast, ← isNameChar_iff]
      exact letter
  have isMatch := Matches.identifier isLonger
  rw [String.toList_ofList] at isMatch
  exact ⟨_, isMatch⟩

theorem cut_procedure
    {name : String} (isName : IsProcedureName name) (shape : name.toList = first :: tail)
    (longest : Longest (first :: tail) rest (.token (.procedure name))) :
    piece first (tail ++ rest) = .token (.procedure name) tail.length := by
  refine piece_procedure isName shape (longest.stops _ fun character letter => ?_)
  obtain ⟨_, _, sameShape, capital, others⟩ := isName
  obtain ⟨rfl, rfl⟩ := List.cons.inj (shape.symm.trans sameShape)
  have isLonger : IsProcedureName (String.ofList (first :: (tail ++ [character]))) := by
    refine ⟨first, tail ++ [character], String.toList_ofList, capital, fun other member => ?_⟩
    rcases List.mem_append.1 member with before | isLast
    · exact others other before
    · rw [List.mem_singleton.1 isLast, ← isProcedureChar_iff]
      exact letter
  have isMatch := Matches.procedure isLonger
  rw [String.toList_ofList] at isMatch
  exact ⟨_, isMatch⟩

theorem cut_character
    {character : Char} (isLiteral : character? (tail ++ rest) = some (character, tail.length)) :
    piece '\'' (tail ++ rest) = (Lexeme.numeral character.toNat).cut ('\'' :: tail) := by
  rw [piece_quote, isLiteral, Lexeme.cut, Word.ofInt?_toNat]
  rfl

theorem cut_literal {character : Char} (plain : character ≠ '\\') :
    piece '\'' ([character, '\''] ++ rest) =
      (Lexeme.numeral character.toNat).cut ['\'', character, '\''] := by
  refine cut_character ?_
  change character? (character :: '\'' :: rest) = _
  rw [character?, if_neg plain]
  · rfl
  all_goals
    rintro _ rfl
    exact absurd rfl plain

theorem cut_escape {letter character : Char} (escapes : Escape letter character) :
    piece '\'' (['\\', letter, '\''] ++ rest) =
      (Lexeme.numeral character.toNat).cut ['\'', '\\', letter, '\''] := by
  refine cut_character ?_
  cases escapes <;> rfl

theorem cut_comment {body : List Char} (closed : '\\' ∉ body) :
    piece '\\' (body ++ ['\\'] ++ rest) = Lexeme.blank.cut ('\\' :: (body ++ ['\\'])) := by
  have run : (body ++ ['\\'] ++ rest).takeWhile (· != '\\') = body := by
    rw [List.append_assoc]
    apply takeWhile_append_of_stops
    · intro character member
      rw [bne_iff_ne]
      rintro rfl
      exact closed member
    · intro character isHead
      cases isHead
      rfl
  rw [piece_backslash, run, if_neg (by simp)]
  simp [Lexeme.cut]

theorem cut_blank (foreign : ¬ CanStart first) : piece first rest = .blank 0 := by
  have noSingle : single? first = none := by
    refine Option.eq_none_iff_forall_ne_some.2 fun token found => ?_
    obtain ⟨isSymbol, spelled⟩ := single?_eq_some found
    exact foreign (.inl (isSymbol.begins spelled))
  have noDouble : rest.head?.bind (double? first) = none := by
    refine Option.eq_none_iff_forall_ne_some.2 fun token found => ?_
    obtain ⟨second, _, isDouble⟩ := Option.bind_eq_some_iff.1 found
    obtain ⟨isSymbol, spelled⟩ := double?_eq_some isDouble
    exact foreign (.inl (isSymbol.begins spelled))
  have noHalf : ¬ (first = '&' ∨ first = '|') := by
    rintro (rfl | rfl) <;> exact foreign (.inl (by decide))
  rw [(isSign_of_foreign foreign).piece_eq, noDouble, noSingle]
  exact if_neg noHalf

/-- Along a longest piece the scanner cuts off this piece. -/
theorem Longest.cut_eq
    {piece : List Char} {lexeme : Lexeme} (longest : Longest piece rest lexeme) :
    ∃ first tail, piece = first :: tail ∧
      Token.piece first (tail ++ rest) = lexeme.cut (first :: tail) := by
  cases longest.isMatch with
  | @symbol token isSymbol =>
      obtain ⟨first, tail, spelled⟩ : ∃ first tail, token.spelling.toList = first :: tail := by
        rcases isSymbol.spelled with ⟨_, _, single, _⟩ | ⟨_, _, _, pair, _⟩
        · exact ⟨_, _, single⟩
        · exact ⟨_, _, pair⟩
      rw [spelled] at longest
      exact ⟨first, tail, spelled, cut_symbol isSymbol spelled longest⟩
  | digits nonempty allDigits =>
      obtain ⟨first, tail, rfl⟩ := List.exists_cons_of_ne_nil nonempty
      exact ⟨first, tail, rfl, cut_digits allDigits longest⟩
  | literal plain => exact ⟨_, _, rfl, cut_literal plain⟩
  | escape escapes => exact ⟨_, _, rfl, cut_escape escapes⟩
  | @identifier name isName =>
      obtain ⟨first, tail, shape⟩ := List.exists_cons_of_ne_nil isName.1
      rw [shape] at longest
      exact ⟨first, tail, shape, cut_identifier isName shape longest⟩
  | @procedure name isName =>
      have ⟨first, tail, shape, _⟩ := isName
      rw [shape] at longest
      exact ⟨first, tail, shape, cut_procedure isName shape longest⟩
  | comment closed => exact ⟨_, _, rfl, cut_comment closed⟩
  | blank foreign => exact ⟨_, _, rfl, cut_blank foreign⟩

/-- Some pattern takes a text at the head. -/
def Begins (text : List Char) : Prop :=
  ∃ taken meaning, Matches taken meaning ∧ taken <+: text

theorem exists_longest {text : List Char} (begins : Begins text) :
    ∃ piece rest lexeme, text = piece ++ rest ∧ Longest piece rest lexeme := by
  classical
  -- Lengths of texts at the head that match are bounded, so one of them is the greatest.
  let reaches (length : Nat) : Prop := ∃ meaning, Matches (text.take length) meaning
  have taken_eq {taken : List Char} (inside : taken <+: text) : text.take taken.length = taken :=
    (List.prefix_iff_eq_take.1 inside).symm
  obtain ⟨taken, meaning, isMatch, inside⟩ := begins
  have reached : reaches taken.length := ⟨meaning, (taken_eq inside).symm ▸ isMatch⟩
  obtain ⟨lexeme, greatest⟩ := Nat.findGreatest_spec inside.length_le reached
  refine ⟨text.take _, text.drop _, lexeme, (List.take_append_drop _ text).symm, greatest, ?_⟩
  intro other otherMeaning otherMatch otherInside
  rw [List.take_append_drop] at otherInside
  have bound := Nat.le_findGreatest (P := reaches) otherInside.length_le
    ⟨otherMeaning, (taken_eq otherInside).symm ▸ otherMatch⟩
  rw [List.length_take]
  exact Nat.le_min.2 ⟨bound, otherInside.length_le⟩

theorem Matches.begins {meaning : Lexeme} (isMatch : Matches tail meaning) :
    Begins (tail ++ rest) :=
  ⟨_, _, isMatch, List.prefix_append _ _⟩

/-- Texts of character literals. -/
inductive IsLiteral : List Char → Prop
  | plain {character : Char} : character ≠ '\\' → IsLiteral ['\'', character, '\'']
  | escaped {letter character : Char} :
      Escape letter character → IsLiteral ['\'', '\\', letter, '\'']

theorem IsLiteral.begins {literal : List Char} (isLiteral : IsLiteral literal) :
    Begins (literal ++ rest) := by
  cases isLiteral with
  | plain isPlain => exact (Matches.literal isPlain).begins
  | escaped escapes => exact (Matches.escape escapes).begins

theorem exists_literal {found : Char × Nat} (isCharacter : character? rest = some found) :
    ∃ literal further, IsLiteral literal ∧ '\'' :: rest = literal ++ further := by
  unfold character? at isCharacter
  split at isCharacter
  next => exact ⟨_, _, .escaped .newline, rfl⟩
  next => exact ⟨_, _, .escaped .backslash, rfl⟩
  next => exact ⟨_, _, .escaped .quote, rfl⟩
  next =>
    split at isCharacter
    next => cases isCharacter
    next isPlain => exact ⟨_, _, .plain isPlain, rfl⟩
  next => cases isCharacter

theorem begins_of_comment (closed : '\\' ∈ rest) : Begins ('\\' :: rest) := by
  obtain ⟨body, further, rfl, inside⟩ := List.eq_append_cons_of_mem closed
  have begins : Begins (('\\' :: (body ++ ['\\'])) ++ further) := (Matches.comment inside).begins
  rwa [List.cons_append, List.append_assoc, List.singleton_append] at begins

/-- A mark that is no symbol is half of one, or it opens a literal or a comment. -/
theorem half_of_mark (isMark : first ∈ marks) (noSingle : single? first = none) :
    (first = '&' ∨ first = '|') ∨ first = '\'' ∨ first = '\\' := by
  have others : marks.all (fun mark =>
      (single? mark).isSome || ['&', '|', '\'', '\\'].contains mark) = true := rfl
  have isHalf := List.all_eq_true.1 others first isMark
  simpa [noSingle, or_assoc] using isHalf

theorem begins_of_name (letter : ('a' ≤ first ∧ first ≤ 'z') ∨ first = '_') :
    Begins (first :: rest) := by
  have isName : IsVariableName (String.ofList [first]) := by
    refine isVariableName_of_all (by simp) ?_
    rw [String.toList_ofList, List.all_cons, (isNameChar_iff first).2 letter]
    rfl
  have isMatch := Matches.identifier isName
  rw [String.toList_ofList] at isMatch
  exact isMatch.begins

theorem begins_of_capital (capital : 'A' ≤ first ∧ first ≤ 'Z') : Begins (first :: rest) := by
  have isName : IsProcedureName (String.ofList [first]) :=
    ⟨first, [], String.toList_ofList, capital, List.forall_mem_nil _⟩
  have isMatch := Matches.procedure isName
  rw [String.toList_ofList] at isMatch
  exact isMatch.begins

/-- The first text begins no piece where the second one follows it: half a symbol, a quote before
anything that is no literal, or a comment that is not closed. -/
inductive Unexpected : List Char → List Char → Prop
  | half {sign : Char} {after : List Char} :
      sign = '&' ∨ sign = '|' → after.head? ≠ some sign → Unexpected [sign] after
  | quote {after : List Char} :
      (∀ literal, IsLiteral literal → ¬ literal <+: '\'' :: after) → Unexpected ['\''] after
  | openComment {body : List Char} : '\\' ∉ body → Unexpected ('\\' :: body) []

theorem exists_unexpected (stuck : ¬ Begins (first :: rest)) :
    ∃ text after, first :: rest = text ++ after ∧ Unexpected text after := by
  have starts : CanStart first := by
    by_contra foreign
    exact stuck (Matches.blank foreign).begins
  rcases starts with isMark | digit | letter | capital | underscore
  · have noSingle : single? first = none := by
      refine Option.eq_none_iff_forall_ne_some.2 fun token found => stuck ?_
      obtain ⟨isSymbol, spelled⟩ := single?_eq_some found
      exact (spelled ▸ Matches.symbol isSymbol).begins
    rcases half_of_mark isMark noSingle with isHalf | rfl | rfl
    · refine ⟨[first], rest, rfl, .half isHalf fun isHead => stuck ?_⟩
      obtain ⟨further, rfl⟩ := List.head?_eq_some_iff.1 isHead
      obtain ⟨token, isDouble⟩ : ∃ token, double? first first = some token := by
        obtain rfl | rfl := isHalf
        · exact ⟨.and, rfl⟩
        · exact ⟨.or, rfl⟩
      obtain ⟨isSymbol, spelled⟩ := double?_eq_some isDouble
      exact (spelled ▸ Matches.symbol isSymbol).begins
    · refine ⟨['\''], rest, rfl, .quote fun literal isLiteral inside => stuck ?_⟩
      obtain ⟨further, shape⟩ := inside
      exact shape ▸ isLiteral.begins
    · refine ⟨'\\' :: rest, [], (List.append_nil _).symm, .openComment fun closed => stuck ?_⟩
      exact begins_of_comment closed
  · have isNumber : ∀ character ∈ [first], '0' ≤ character ∧ character ≤ '9' :=
      List.forall_mem_singleton.2 digit
    exact absurd (Matches.digits (List.cons_ne_nil _ _) isNumber).begins stuck
  · exact absurd (begins_of_name (.inl letter)) stuck
  · exact absurd (begins_of_capital capital) stuck
  · exact absurd (begins_of_name (.inr underscore)) stuck

theorem piece_half
    {sign : Char} (isHalf : sign = '&' ∨ sign = '|') (alone : rest.head? ≠ some sign) :
    piece sign rest = .unexpected [sign] := by
  have isMark : sign ∈ marks ∧ sign ≠ '\'' ∧ sign ≠ '\\' ∧ single? sign = none := by
    obtain rfl | rfl := isHalf <;> decide
  have noDouble : rest.head?.bind (double? sign) = none := by
    refine Option.eq_none_iff_forall_ne_some.2 fun token found => ?_
    obtain ⟨second, isHead, isDouble⟩ := Option.bind_eq_some_iff.1 found
    unfold double? at isDouble
    split at isDouble <;> simp_all
  obtain ⟨isMark, noQuote, noBackslash, noSingle⟩ := isMark
  rw [(isSign_of_mark isMark noQuote noBackslash).piece_eq, noDouble, noSingle]
  exact if_pos isHalf

theorem Unexpected.piece_eq {text after : List Char} (unexpected : Unexpected text after) :
    ∃ first tail, text = first :: tail ∧ piece first (tail ++ after) = .unexpected text := by
  cases unexpected with
  | half isHalf alone => exact ⟨_, [], rfl, piece_half isHalf alone⟩
  | quote noLiteral =>
      refine ⟨'\'', [], rfl, ?_⟩
      rw [List.nil_append, piece_quote]
      cases isCharacter : character? after with
      | none => rfl
      | some found =>
          obtain ⟨literal, further, isLiteral, shape⟩ := exists_literal isCharacter
          exact absurd ⟨further, shape.symm⟩ (noLiteral literal isLiteral)
  | @openComment body isOpen =>
      refine ⟨'\\', body, rfl, ?_⟩
      rw [List.append_nil]
      exact piece_open_comment isOpen

/-- The scanner reports what is unexpected, and only where no text matches. -/
theorem piece_eq_unexpected_iff {text : List Char} :
    piece first rest = .unexpected text ↔
      ∃ after, first :: rest = text ++ after ∧ Unexpected text after := by
  constructor
  · intro isPiece
    have stuck : ¬ Begins (first :: rest) := by
      intro begins
      obtain ⟨_, further, lexeme, shape, longest⟩ := exists_longest begins
      obtain ⟨_, tail, rfl, isCut⟩ := longest.cut_eq
      obtain ⟨rfl, rfl⟩ := List.cons.inj shape
      exact lexeme.cut_ne_unexpected _ text (isCut.symm.trans isPiece)
    obtain ⟨other, after, shape, unexpected⟩ := exists_unexpected stuck
    obtain ⟨_, tail, rfl, isOther⟩ := unexpected.piece_eq
    obtain ⟨rfl, rfl⟩ := List.cons.inj shape
    cases isPiece.symm.trans isOther
    exact ⟨after, rfl, unexpected⟩
  · rintro ⟨after, shape, unexpected⟩
    obtain ⟨_, tail, rfl, isPiece⟩ := unexpected.piece_eq
    obtain ⟨rfl, rfl⟩ := List.cons.inj shape
    exact isPiece

/-- Unless the scanner reports something unexpected, it has seen a text that matches. -/
theorem begins_of_cut (cuts : ∀ text, piece first rest ≠ .unexpected text) :
    Begins (first :: rest) := by
  by_contra stuck
  obtain ⟨text, after, shape, unexpected⟩ := exists_unexpected stuck
  exact cuts text (piece_eq_unexpected_iff.2 ⟨after, shape, unexpected⟩)

section

variable {piece : List Char} {lexeme : Lexeme} {here tokens : List Token}

/-- Where the scanner cuts off a text, it goes on with the tokens of the text behind it. -/
theorem scanFrom_of_cut
    (isPiece : Token.piece first (tail ++ rest) = lexeme.cut (first :: tail))
    (stands : lexeme.tokens? = some here) (position : Nat) (done : List Token) :
    scanFrom position 0 done (first :: tail ++ rest) =
      scanFrom (position + width (first :: tail)) 0 (here.reverse ++ done) rest := by
  rw [List.cons_append, scanFrom, isPiece]
  cases lexeme with
  | token value =>
      cases stands
      simp only [Lexeme.cut, List.tail_cons, scanFrom_skip, width, Nat.add_assoc]
      rfl
  | numeral value =>
      simp only [Lexeme.tokens?, Option.ite_none_right_eq_some, Option.some.injEq] at stands
      obtain ⟨small, rfl⟩ := stands
      simp only [Lexeme.cut, Word.ofInt?_natCast, if_pos small, List.tail_cons, scanFrom_skip,
        width, Nat.add_assoc]
      rfl
  | blank =>
      cases stands
      simp only [Lexeme.cut, List.tail_cons, scanFrom_skip, width, Nat.add_assoc]
      rfl

theorem Longest.scanFrom_eq
    (longest : Longest piece rest lexeme) (stands : lexeme.tokens? = some here) (position : Nat)
    (done : List Token) :
    scanFrom position 0 done (piece ++ rest) =
      scanFrom (position + width piece) 0 (here.reverse ++ done) rest := by
  obtain ⟨first, tail, rfl, isPiece⟩ := longest.cut_eq
  exact scanFrom_of_cut isPiece stands position done

/-- The failure with which a piece at this position ends the scan. -/
def Piece.failure? (position : Nat) : Piece → Option ScanFailure
  | .token _ _ | .blank _ => none
  | .unexpected text => some (.unexpected position (String.ofList text))
  | .numberOutOfRange digits => some (.numberOutOfRange position (String.ofList digits))

theorem scanFrom_of_failure
    {position : Nat} {failure : ScanFailure}
    (fails : (Token.piece first rest).failure? position = some failure) (done : List Token) :
    scanFrom position 0 done (first :: rest) = .error failure := by
  rw [scanFrom]
  cases isPiece : Token.piece first rest <;> rw [isPiece] at fails <;> cases fails <;> rfl

/-- At every place the scan fails or cuts off a longest piece. A number without a token fails. -/
theorem failure_or_cut (first : Char) (rest : List Char) (position : Nat) :
    (∃ failure, (Token.piece first rest).failure? position = some failure) ∨
      ∃ piece further lexeme here, first :: rest = piece ++ further ∧ piece ≠ [] ∧
        Longest piece further lexeme ∧ lexeme.tokens? = some here := by
  by_cases unexpected : ∃ text, Token.piece first rest = .unexpected text
  · obtain ⟨text, isPiece⟩ := unexpected
    exact .inl ⟨_, congrArg (Piece.failure? position) isPiece⟩
  · obtain ⟨piece, further, lexeme, shape, longest⟩ :=
      exists_longest (begins_of_cut fun text isPiece => unexpected ⟨text, isPiece⟩)
    obtain ⟨_, tail, rfl, isPiece⟩ := longest.cut_eq
    obtain ⟨rfl, rfl⟩ := List.cons.inj shape
    cases stands : lexeme.tokens? with
    | some here => exact .inr ⟨_, further, lexeme, here, rfl, List.cons_ne_nil _ _, longest, stands⟩
    | none =>
        cases lexeme with
        | token value => cases stands
        | numeral value =>
            simp only [Lexeme.tokens?, ite_eq_right_iff, reduceCtorEq, imp_false] at stands
            simp only [Lexeme.cut, Word.ofInt?_natCast, if_neg stands] at isPiece
            exact .inl ⟨_, congrArg (Piece.failure? position) isPiece⟩
        | blank => cases stands

theorem Splits.scanFrom_eq {text : List Char} (splits : Splits text tokens) (position : Nat)
    (done : List Token) : scanFrom position 0 done text = .ok (done.reverse ++ tokens) := by
  induction splits generalizing position done with
  | nil => rw [scanFrom, List.append_nil]
  | cons _ longest stands _ inductionHypothesis =>
      rw [longest.scanFrom_eq stands, inductionHypothesis]
      simp

theorem splits_of_scanFrom
    {text : List Char} {position : Nat} {done : List Token}
    (scanned : scanFrom position 0 done text = .ok tokens) :
    ∃ further, tokens = done.reverse ++ further ∧ Splits text further := by
  induction isLength : text.length using Nat.strong_induction_on
    generalizing text position done with
  | _ length inductionHypothesis =>
      cases text with
      | nil =>
          rw [scanFrom] at scanned
          cases scanned
          exact ⟨[], (List.append_nil _).symm, .nil⟩
      | cons first rest =>
          rcases failure_or_cut first rest position with
            ⟨failure, fails⟩ | ⟨piece, rest, lexeme, here, shape, nonempty, longest, stands⟩
          · rw [scanFrom_of_failure fails] at scanned
            cases scanned
          · rw [shape, longest.scanFrom_eq stands] at scanned
            have shorter : rest.length < length := by
              have positive := List.length_pos_iff.2 nonempty
              rw [shape, List.length_append] at isLength
              omega
            obtain ⟨further, rfl, splits⟩ := inductionHypothesis _ shorter scanned rfl
            rw [shape]
            refine ⟨here ++ further, ?_, .cons nonempty longest stands splits⟩
            simp

end

/-- The scanner is the longest match. A source has tokens exactly if it splits into pieces, each of
them the longest text at its place that a pattern takes, with all numbers within sixty-four bits,
and its tokens are those that the pieces stand for. -/
theorem scan_eq_ok_iff_splits (source : String) (tokens : List Token) :
    scan source = .ok tokens ↔ Splits source.toList tokens := by
  constructor
  · intro scanned
    obtain ⟨further, rfl, splits⟩ := splits_of_scanFrom scanned
    exact splits
  · intro splits
    exact splits.scanFrom_eq 0 []

theorem IsSymbol.lexical {token : Token} (isSymbol : token.IsSymbol) : token.Lexical := by
  cases token with
  | number _ | identifier _ | procedure _ => cases isSymbol
  | _ => exact trivial

theorem Matches.lexical
    {text : List Char} {lexeme : Lexeme} (isMatch : Matches text lexeme) {here : List Token}
    (stands : lexeme.tokens? = some here) : ∀ token ∈ here, token.Lexical := by
  have numeral {value : Nat} (stands : (Lexeme.numeral value).tokens? = some here) :
      ∀ token ∈ here, token.Lexical := by
    simp only [Lexeme.tokens?, Option.ite_none_right_eq_some, Option.some.injEq] at stands
    obtain ⟨small, rfl⟩ := stands
    refine List.forall_mem_singleton.2 ?_
    rw [Lexical, Int64.le_iff_toInt_le, Int64.toInt_ofInt_of_le (by omega) (by omega)]
    exact Int.natCast_nonneg value
  cases isMatch with
  | symbol isSymbol =>
      cases stands
      exact List.forall_mem_singleton.2 isSymbol.lexical
  | digits | literal | escape => exact numeral stands
  | identifier isName =>
      cases stands
      exact List.forall_mem_singleton.2 isName
  | procedure isName =>
      cases stands
      exact List.forall_mem_singleton.2 isName
  | comment | blank =>
      cases stands
      exact List.forall_mem_nil _

theorem Splits.lexical
    {text : List Char} {tokens : List Token} (splits : Splits text tokens) :
    ∀ token ∈ tokens, token.Lexical := by
  induction splits with
  | nil => exact List.forall_mem_nil _
  | cons _ longest stands _ inductionHypothesis =>
      exact List.forall_mem_append.2 ⟨longest.isMatch.lexical stands, inductionHypothesis⟩

theorem lexical_of_scan
    {source : String} {tokens : List Token} (scanned : scan source = .ok tokens) :
    ∀ token ∈ tokens, token.Lexical := by
  obtain ⟨further, rfl, splits⟩ := splits_of_scanFrom scanned
  exact splits.lexical

/-- Spelling and scanning are inverse. Sources have lexical tokens only, and of all lists of tokens
the lexical ones are those that are scanned back from their spellings with single blanks between
them. So the tokens of a source, once spelled, are found again. -/
theorem scan_inverse_to_spelling (tokens : List Token) :
    (∀ source, scan source = .ok tokens → ∀ token ∈ tokens, token.Lexical) ∧
    ((∀ token ∈ tokens, token.Lexical) ↔
      scan (" ".intercalate (tokens.map spelling)) = .ok tokens) ∧
    ∀ source, scan source = .ok tokens →
      scan (" ".intercalate (tokens.map spelling)) = .ok tokens := by
  refine ⟨fun source => lexical_of_scan, ⟨scan_spellings, lexical_of_scan⟩, ?_⟩
  intro source scanned
  exact scan_spellings (lexical_of_scan scanned)

/-- A number with zeros before it, a literal and signs that touch one another are spelled in another
way than the source has them. -/
theorem scan_inverse_to_spelling_touching :
    scan "x+++0042'\\''<=\\ + \\=IF_if" =
      .ok [.identifier "x", .increment, .plus, .number 42, .number 39, .lessEqual, .assign,
        .procedure "IF_", .identifier "if"] ∧
    scan "x ++ + 42 39 <= = IF_ if" =
      .ok [.identifier "x", .increment, .plus, .number 42, .number 39, .lessEqual, .assign,
        .procedure "IF_", .identifier "if"] := by
  have scanned : scan "x+++0042'\\''<=\\ + \\=IF_if" =
      .ok [.identifier "x", .increment, .plus, .number 42, .number 39, .lessEqual, .assign,
        .procedure "IF_", .identifier "if"] := by decide +kernel
  exact ⟨scanned, (scan_inverse_to_spelling _).2.2 _ scanned⟩

end Token

end Slate
