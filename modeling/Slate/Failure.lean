import Slate.Fault
import Slate.Token

/-!
Everything that can go wrong between a source text and the end of its run, with the wording of the
messages. The three classes follow the stage that fails: cutting the text into tokens, arranging
the tokens as a program, and running the program.
-/

set_option autoImplicit false

namespace Slate

/-- Why a text has no tokens. Positions count bytes of the UTF-8 form. -/
inductive ScanFailure
  | unexpected (position : Nat) (text : String)
  | numberOutOfRange (position : Nat) (digits : String)
deriving DecidableEq

def ScanFailure.message : ScanFailure → String
  | .unexpected position text =>
      "unexpected input " ++ Text.quoted text ++ " at byte " ++ Numeral.ofNat position
  | .numberOutOfRange position digits =>
      "number literal " ++ digits ++ " at byte " ++ Numeral.ofNat position
        ++ " does not fit in 64 bits"

/-- What the grammar asks for at a place where it finds something else. -/
inductive Expected
  | statement
  | variableName
  | assignmentOperator
  | semicolon
  | semicolonAfterCall
  | leftParen
  | rightParen
  | colon
deriving DecidableEq

def Expected.description : Expected → String
  | .statement => "a statement"
  | .variableName => "a variable name"
  | .assignmentOperator => "an assignment operator"
  | .semicolon => "`;`"
  | .semicolonAfterCall => "`;` after a procedure call"
  | .leftParen => "`(`"
  | .rightParen => "`)`"
  | .colon => "`:`"

/-- Why tokens make no program. -/
inductive ParseFailure
  | unexpectedToken (expected : Expected) (found : Token)
  | unexpectedEnd (expected : Expected)
  | undefinedProcedure (name : String)
  | notAssignment (found : Token)
  | tooDeep (limit : Nat)
deriving DecidableEq

def ParseFailure.message : ParseFailure → String
  | .unexpectedToken expected found =>
      "expected " ++ expected.description ++ ", found `" ++ found.spelling ++ "`"
  | .unexpectedEnd expected => "expected " ++ expected.description ++ ", found end of input"
  | .undefinedProcedure name => "procedure " ++ name ++ " is not defined at this point"
  | .notAssignment found => "`" ++ found.spelling ++ "` cannot follow an assignment target"
  | .tooDeep limit => "nesting exceeds the limit of " ++ Numeral.ofNat limit

inductive Failure
  | scan (cause : ScanFailure)
  | parse (cause : ParseFailure)
  | runtime (cause : Fault)
deriving DecidableEq

namespace Failure

/-- The name of the class, by the stage that failed. -/
def className : Failure → String
  | .scan _ => "LexFailure"
  | .parse _ => "ParseFailure"
  | .runtime _ => "RuntimeFailure"

def detail : Failure → String
  | .scan cause => cause.message
  | .parse cause => cause.message
  | .runtime cause => cause.message

def message (failure : Failure) : String :=
  failure.className ++ ": " ++ failure.detail

end Failure

end Slate
