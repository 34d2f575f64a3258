import Slate.Numeral

/-!
Tokens of the source text. Three kinds carry a payload: a number its value, and variables and
procedures their name. All others are fixed symbols.
-/

set_option autoImplicit false

namespace Slate

inductive Token
  | increment
  | decrement
  | number (value : Word)
  | identifier (name : String)
  | procedure (name : String)
  | plus
  | minus
  | star
  | slash
  | percent
  | less
  | greater
  | assign
  | bang
  | plusAssign
  | minusAssign
  | starAssign
  | slashAssign
  | percentAssign
  | lessEqual
  | greaterEqual
  | equal
  | notEqual
  | and
  | or
  | leftParen
  | rightParen
  | leftBrace
  | rightBrace
  | at
  | question
  | colon
  | semicolon
deriving DecidableEq

namespace Token

/-- The text of a token. A number has its decimal text, however the source wrote it. -/
def spelling : Token → String
  | .increment => "++"
  | .decrement => "--"
  | .number value => value.decimal
  | .identifier name => name
  | .procedure name => name
  | .plus => "+"
  | .minus => "-"
  | .star => "*"
  | .slash => "/"
  | .percent => "%"
  | .less => "<"
  | .greater => ">"
  | .assign => "="
  | .bang => "!"
  | .plusAssign => "+="
  | .minusAssign => "-="
  | .starAssign => "*="
  | .slashAssign => "/="
  | .percentAssign => "%="
  | .lessEqual => "<="
  | .greaterEqual => ">="
  | .equal => "=="
  | .notEqual => "!="
  | .and => "&&"
  | .or => "||"
  | .leftParen => "("
  | .rightParen => ")"
  | .leftBrace => "\x7b"
  | .rightBrace => "\x7d"
  | .at => "@"
  | .question => "?"
  | .colon => ":"
  | .semicolon => ";"

end Token

end Slate
