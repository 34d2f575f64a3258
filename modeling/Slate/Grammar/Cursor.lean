import Slate.Failure

/-!
Reading tokens one after the other. A cursor holds the tokens that are left and the nesting depth.
The depth goes up by one for every construct inside another one and for every further link of a
chain, must stay within a limit, and comes down again when the construct or the chain is complete.
A parser that fails keeps the cursor where it stood.
-/

set_option autoImplicit false

namespace Slate.Grammar

structure Cursor where
  rest : List Token
  depth : Nat

abbrev Parser := EStateM ParseFailure Cursor

/-- The next token, which stays where it is. -/
def peek : Parser (Option Token) := do
  return (← get).rest.head?

def advance : Parser Unit :=
  modify fun cursor => { cursor with rest := cursor.rest.tail }

/-- Fails by what the grammar asks for and what stands there. -/
def unexpected {α : Type} (expected : Expected) : Parser α := do
  match ← peek with
  | some found => throw (.unexpectedToken expected found)
  | none => throw (.unexpectedEnd expected)

/-- Passes one given token. -/
def expect (token : Token) (expected : Expected) : Parser Unit := do
  if (← peek) = some token then advance else unexpected expected

def tooDeep {α : Type} (limit : Nat) : Parser α :=
  throw (.tooDeep limit)

/-- Goes one level further in, which the limit may forbid. -/
def descend (limit : Nat) : Parser Unit := do
  if limit ≤ (← get).depth then
    tooDeep limit
  else
    modify fun cursor => { cursor with depth := cursor.depth + 1 }

def ascend (levels : Nat) : Parser Unit :=
  modify fun cursor => { cursor with depth := cursor.depth - levels }

/-- Runs a parser one level further in and comes back, whether or not the parser succeeds. -/
def nested {α : Type} (limit : Nat) (parser : Parser α) : Parser α := fun cursor =>
  if limit ≤ cursor.depth then
    .error (.tooDeep limit) cursor
  else
    match parser { cursor with depth := cursor.depth + 1 } with
    | .ok value after => .ok value { after with depth := after.depth - 1 }
    | .error failure after => .error failure { after with depth := after.depth - 1 }

end Slate.Grammar
