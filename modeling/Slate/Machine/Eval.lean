import Slate.Input
import Slate.Store
import Slate.Tree

/-!
The value of an expression and the slot that a reference names. Both read the store and take from
the input, and change nothing else. All operands are evaluated, from left to right, before they
are combined.
-/

set_option autoImplicit false

namespace Slate

/-- The variable that reads as the next integer of the input. -/
def readName : String :=
  "read"

/-- The variable that reads as the next character of the input. -/
def getName : String :=
  "get"

/-- The name of a slot inside another one. -/
def slotAt (base : String) (index : Word) : String :=
  base ++ "." ++ index.decimal

mutual

def Expr.eval (store : Store) : Expr → EStateM Fault Input Word
  | .literal value => pure value
  | .unary op operand => do
      let operand ← operand.eval store
      return op.apply operand
  | .binary op left right => do
      let left ← left.eval store
      let right ← right.eval store
      MonadExcept.ofExcept (op.apply left right)
  | .select condition accepted rejected => do
      let condition ← condition.eval store
      let accepted ← accepted.eval store
      let rejected ← rejected.eval store
      return condition.select accepted rejected
  | .reference (.plain name) =>
      if name = readName then
        Input.readInteger
      else if name = getName then
        Input.readCharacter
      else
        pure (store.get name)
  | .reference (.indexed base index) => do
      let base ← base.slot store
      let index ← index.eval store
      return store.get (slotAt base index)

/-- The slot of an indexed reference adds the index to the slot of its base. A variable names its
own slot here, also one that would take input if it were read. -/
def Ref.slot (store : Store) : Ref → EStateM Fault Input String
  | .plain name => pure name
  | .indexed base index => do
      let base ← base.slot store
      let index ← index.eval store
      return slotAt base index

end

end Slate
