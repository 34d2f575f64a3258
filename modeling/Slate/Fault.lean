import Slate.Numeral
import Slate.Text.Quoted

/-!
What can stop a running program.
-/

set_option autoImplicit false

namespace Slate

/-- Trouble with the devices at either end: a line of input that is not text, an output that takes
no more bytes, an output that will not be flushed. -/
inductive Trouble
  | notText
  | sinkFull
  | flushRefused
deriving DecidableEq

def Trouble.message : Trouble → String
  | .notText => "stream did not contain valid UTF-8"
  | .sinkFull => "failed to write whole buffer"
  | .flushRefused => "flush refused"

inductive Fault
  | malformedInput (pending : String)
  | divisionByZero
  | invalidCharacter (code : Word)
  | tooDeep (limit : Nat)
  | device (trouble : Trouble)
deriving DecidableEq

def Fault.message : Fault → String
  | .malformedInput pending => "cannot read an integer from " ++ Text.quoted pending
  | .divisionByZero => "division by zero"
  | .invalidCharacter code => code.decimal ++ " is not a valid character code"
  | .tooDeep limit => "execution nesting exceeds the limit of " ++ Numeral.ofNat limit
  | .device trouble => "i/o error: " ++ trouble.message

end Slate
