import Slate.Token

/-!
Tokens listed as JSON. A symbol is its kind as a string, and a token with a payload is an object
with its kind as the only key. Names of scanned tokens are letters and underscores, which JSON
strings hold as they are.
-/

set_option autoImplicit false

namespace Slate.Token

def kind : Token → String
  | .increment => "Increment"
  | .decrement => "Decrement"
  | .number _ => "Number"
  | .identifier _ => "Identifier"
  | .procedure _ => "Procedure"
  | .plus => "Plus"
  | .minus => "Minus"
  | .star => "Star"
  | .slash => "Slash"
  | .percent => "Percent"
  | .less => "Less"
  | .greater => "Greater"
  | .assign => "Assign"
  | .bang => "Bang"
  | .plusAssign => "PlusAssign"
  | .minusAssign => "MinusAssign"
  | .starAssign => "StarAssign"
  | .slashAssign => "SlashAssign"
  | .percentAssign => "PercentAssign"
  | .lessEqual => "LessEqual"
  | .greaterEqual => "GreaterEqual"
  | .equal => "Equal"
  | .notEqual => "NotEqual"
  | .and => "And"
  | .or => "Or"
  | .leftParen => "LeftParen"
  | .rightParen => "RightParen"
  | .leftBrace => "LeftBrace"
  | .rightBrace => "RightBrace"
  | .at => "At"
  | .question => "Question"
  | .colon => "Colon"
  | .semicolon => "Semicolon"

def payload? : Token → Option String
  | .number value => some value.decimal
  | .identifier name => some ("\"" ++ name ++ "\"")
  | .procedure name => some ("\"" ++ name ++ "\"")
  | _ => none

/-- One entry, with the blanks that the layout puts after the opening brace, after the colon and
before the closing brace. -/
def entry (opening separator closing : String) (token : Token) : String :=
  let key := "\"" ++ token.kind ++ "\""
  match token.payload? with
  | some payload => "\x7b" ++ opening ++ key ++ ":" ++ separator ++ payload ++ closing ++ "\x7d"
  | none => key

/-- The listing on one line without blanks. -/
def compactListing (tokens : List Token) : String :=
  "[" ++ ",".intercalate (tokens.map (entry "" "" "")) ++ "]"

/-- The listing with one entry per line, indented by two blanks a level. -/
def indentedListing (tokens : List Token) : String :=
  match tokens with
  | [] => "[]"
  | _ => "[\n  " ++ ",\n  ".intercalate (tokens.map (entry "\n    " " " "\n  ")) ++ "\n]"

end Slate.Token
