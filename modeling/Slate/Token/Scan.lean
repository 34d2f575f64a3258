import Slate.Failure

/-!
Cutting a source text into tokens. At each place the longest piece that is a token, a comment or a
blank character is cut off. A comment runs from one backslash to the next, and every character
that can start neither a token nor a comment counts as blank.
-/

set_option autoImplicit false

namespace Slate.Token

/-- Letters of variable names. -/
def isNameChar (character : Char) : Bool :=
  character.isLower || character == '_'

/-- Characters of procedure names after the first, which is a capital letter. -/
def isProcedureChar (character : Char) : Bool :=
  character.isUpper || character == '_'

/-- Symbols of one character. -/
def single? : Char → Option Token
  | '+' => some .plus
  | '-' => some .minus
  | '*' => some .star
  | '/' => some .slash
  | '%' => some .percent
  | '<' => some .less
  | '>' => some .greater
  | '=' => some .assign
  | '!' => some .bang
  | '(' => some .leftParen
  | ')' => some .rightParen
  | '\x7b' => some .leftBrace
  | '\x7d' => some .rightBrace
  | '@' => some .at
  | '?' => some .question
  | ':' => some .colon
  | ';' => some .semicolon
  | _ => none

/-- Symbols of two characters. -/
def double? : Char → Char → Option Token
  | '+', '+' => some .increment
  | '-', '-' => some .decrement
  | '+', '=' => some .plusAssign
  | '-', '=' => some .minusAssign
  | '*', '=' => some .starAssign
  | '/', '=' => some .slashAssign
  | '%', '=' => some .percentAssign
  | '<', '=' => some .lessEqual
  | '>', '=' => some .greaterEqual
  | '=', '=' => some .equal
  | '!', '=' => some .notEqual
  | '&', '&' => some .and
  | '|', '|' => some .or
  | _, _ => none

/-- The character between quotes and the number of characters after the opening quote that the
literal takes. A backslash must start one of three escapes; any other character stands for
itself, a quote and a line break included. -/
def character? : List Char → Option (Char × Nat)
  | '\\' :: 'n' :: '\'' :: _ => some ('\n', 3)
  | '\\' :: '\\' :: '\'' :: _ => some ('\\', 3)
  | '\\' :: '\'' :: '\'' :: _ => some ('\'', 3)
  | character :: '\'' :: _ => if character = '\\' then none else some (character, 2)
  | _ => none

/-- What stands at one place of the text. The width of a piece is its number of characters beyond
the first. -/
inductive Piece
  | token (value : Token) (width : Nat)
  | blank (width : Nat)
  | unexpected (text : List Char)
  | numberOutOfRange (digits : List Char)

/-- The longest piece at the place where `first` stands before `rest`. -/
def piece (first : Char) (rest : List Char) : Piece :=
  if first.isDigit then
    let digits := rest.takeWhile Char.isDigit
    match Word.ofInt? (Numeral.value (first :: digits)) with
    | some value => .token (.number value) digits.length
    | none => .numberOutOfRange (first :: digits)
  else if isNameChar first then
    let letters := rest.takeWhile isNameChar
    .token (.identifier (String.ofList (first :: letters))) letters.length
  else if first.isUpper then
    let letters := rest.takeWhile isProcedureChar
    .token (.procedure (String.ofList (first :: letters))) letters.length
  else if first = '\'' then
    match character? rest with
    | some (character, width) => .token (.number (Word.ofChar character)) width
    | none => .unexpected ['\'']
  else if first = '\\' then
    let comment := rest.takeWhile (· != '\\')
    if comment.length = rest.length then .unexpected (first :: rest) else .blank (comment.length + 1)
  else
    match rest.head?.bind (double? first), single? first with
    | some symbol, _ => .token symbol 1
    | none, some symbol => .token symbol 0
    | none, none => if first = '&' ∨ first = '|' then .unexpected [first] else .blank 0

/-- Cuts the text that is left once `skip` more characters of the last piece have passed, at the
given position and after the tokens `done`, which are listed last first. -/
def scanFrom (position skip : Nat) (done : List Token) : List Char → Except ScanFailure (List Token)
  | [] => .ok done.reverse
  | first :: rest =>
      match skip with
      | skip + 1 => scanFrom (position + first.utf8Size) skip done rest
      | 0 =>
          match piece first rest with
          | .token value width => scanFrom (position + first.utf8Size) width (value :: done) rest
          | .blank width => scanFrom (position + first.utf8Size) width done rest
          | .unexpected text => .error (.unexpected position (String.ofList text))
          | .numberOutOfRange digits => .error (.numberOutOfRange position (String.ofList digits))

/-- The tokens of a source text. -/
def scan (source : String) : Except ScanFailure (List Token) :=
  scanFrom 0 0 [] source.toList

end Slate.Token
