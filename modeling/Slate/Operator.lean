import Slate.Fault

/-!
Operators and their results on words. Comparisons and logical operators answer with 0 or 1.
Operands are words, never unevaluated trees: nothing here can skip one of them.
-/

set_option autoImplicit false

namespace Slate

inductive UnaryOp
  | negate
  | not
deriving DecidableEq

inductive BinaryOp
  | add
  | subtract
  | multiply
  | divide
  | modulo
  | less
  | greater
  | equal
  | notEqual
  | lessEqual
  | greaterEqual
  | and
  | or
deriving DecidableEq

def UnaryOp.spelling : UnaryOp → String
  | .negate => "neg"
  | .not => "!"

def BinaryOp.spelling : BinaryOp → String
  | .add => "+"
  | .subtract => "-"
  | .multiply => "*"
  | .divide => "/"
  | .modulo => "%"
  | .less => "<"
  | .greater => ">"
  | .equal => "=="
  | .notEqual => "!="
  | .lessEqual => "<="
  | .greaterEqual => ">="
  | .and => "&&"
  | .or => "||"

def UnaryOp.apply : UnaryOp → Word → Word
  | .negate, operand => -operand
  | .not, operand => Word.ofBool (!operand.isTrue)

/-- Only division and remainder can fail, and only by a zero divisor. -/
def BinaryOp.apply (op : BinaryOp) (left right : Word) : Except Fault Word :=
  match op with
  | .add => .ok (left + right)
  | .subtract => .ok (left - right)
  | .multiply => .ok (left * right)
  | .divide => if right = 0 then .error .divisionByZero else .ok (left.floorDiv right)
  | .modulo => if right = 0 then .error .divisionByZero else .ok (left.floorMod right)
  | .less => .ok (Word.ofBool (left < right))
  | .greater => .ok (Word.ofBool (left > right))
  | .equal => .ok (Word.ofBool (left = right))
  | .notEqual => .ok (Word.ofBool (left ≠ right))
  | .lessEqual => .ok (Word.ofBool (left ≤ right))
  | .greaterEqual => .ok (Word.ofBool (left ≥ right))
  | .and => .ok (Word.ofBool (left.isTrue && right.isTrue))
  | .or => .ok (Word.ofBool (left.isTrue || right.isTrue))

/-- Picks one of two words that are both computed already. -/
def Word.select (condition accepted rejected : Word) : Word :=
  if condition.isTrue then accepted else rejected

end Slate
