import Slate.Grammar.Cursor
import Slate.Tree

/-!
The grammar of expressions, from the loosest to the tightest binding:

* choice: a disjunction, or `condition ? expression : expression`;
* disjunction: conjunctions joined by `||`, grouped to the right;
* conjunction: negations joined by `&&`, grouped to the right;
* negation: a comparison behind any number of `!`;
* comparison: a sum, or two sums with one comparison sign between them;
* sum and product: chains grouped to the left;
* primary: a number, an expression in parentheses, or a reference;
* reference: a variable and a chain of indices, each a number, an expression in parentheses or a
  variable.

Only four of these levels occur inside themselves. Each is written with the parsers of these four,
one nesting level further in, as a parameter, and the recursion is tied once, at the end.
-/

set_option autoImplicit false

namespace Slate.Grammar

/-- The levels of the grammar that occur one nesting level further in. -/
inductive Rank
  | choice
  | disjunction
  | conjunction
  | negation

def comparisonOp? : Token → Option BinaryOp
  | .less => some .less
  | .greater => some .greater
  | .lessEqual => some .lessEqual
  | .greaterEqual => some .greaterEqual
  | .equal => some .equal
  | .notEqual => some .notEqual
  | _ => none

def sumOp? : Token → Option BinaryOp
  | .plus => some .add
  | .minus => some .subtract
  | _ => none

def productOp? : Token → Option BinaryOp
  | .star => some .multiply
  | .slash => some .divide
  | .percent => some .modulo
  | _ => none

/-- Further links of a chain that groups to the left. `link?` recognises the token before a link
and says how the link extends what stands to its left. Every link takes a level, and all `links`
taken are given back at the end of the chain. Since the limit allows no more links than there are
levels left, `fuel` does not run out before the limit is met. -/
def chain {α β : Type} (limit : Nat) (link? : Token → Option (α → β → α)) (operand : Parser β) :
    (fuel links : Nat) → α → Parser α
  | 0, _, _ => tooDeep limit
  | fuel + 1, links, left => do
      match (← peek).bind link? with
      | none =>
          ascend links
          return left
      | some extend =>
          advance
          descend limit
          let right ← operand
          chain limit link? operand fuel (links + 1) (extend left right)

/-- A chain that may have as many links as the limit allows. -/
def leftChain {α β : Type} (limit : Nat) (link? : Token → Option (α → β → α)) (operand : Parser β)
    (first : α) : Parser α := do
  chain limit link? operand (limit - (← get).depth + 1) 0 first

def plainVariable : Parser Ref := do
  match ← peek with
  | some (.identifier name) =>
      advance
      return .plain name
  | _ => unexpected .variableName

section

variable (limit : Nat) (inner : Rank → Parser Expr)

def parenthesized : Parser Expr := do
  expect .leftParen .leftParen
  let expression ← inner .choice
  expect .rightParen .rightParen
  return expression

/-- An index is a single atom, so that a further index applies to the whole reference before it. -/
def index : Parser Expr := do
  match ← peek with
  | some (.number value) =>
      advance
      return .literal value
  | some .leftParen => parenthesized inner
  | _ => return .reference (← plainVariable)

def reference : Parser Ref := do
  leftChain limit (fun token => if token = .at then some .indexed else none) (index inner)
    (← plainVariable)

def primary : Parser Expr := do
  match ← peek with
  | some (.number value) =>
      advance
      return .literal value
  | some .leftParen => parenthesized inner
  | _ => return .reference (← reference limit inner)

def product : Parser Expr := do
  leftChain limit (fun token => (productOp? token).map .binary) (primary limit inner)
    (← primary limit inner)

def sum : Parser Expr := do
  leftChain limit (fun token => (sumOp? token).map .binary) (product limit inner)
    (← product limit inner)

/-- At most one comparison sign: a second one is left for what follows to refuse. -/
def comparison : Parser Expr := do
  let left ← sum limit inner
  match (← peek).bind comparisonOp? with
  | none => return left
  | some op =>
      advance
      return .binary op left (← sum limit inner)

def negation : Parser Expr := do
  if (← peek) = some .bang then
    advance
    return .unary .not (← inner .negation)
  else
    comparison limit inner

def conjunction : Parser Expr := do
  let left ← negation limit inner
  if (← peek) = some .and then
    advance
    return .binary .and left (← inner .conjunction)
  else
    return left

def disjunction : Parser Expr := do
  let left ← conjunction limit inner
  if (← peek) = some .or then
    advance
    return .binary .or left (← inner .disjunction)
  else
    return left

def choice : Parser Expr := do
  let condition ← disjunction limit inner
  if (← peek) = some .question then
    advance
    let accepted ← inner .choice
    expect .colon .colon
    return .select condition accepted (← inner .choice)
  else
    return condition

def ranked : Rank → Parser Expr
  | .choice => choice limit inner
  | .disjunction => disjunction limit inner
  | .conjunction => conjunction limit inner
  | .negation => negation limit inner

end

/-- An expression of some rank, one nesting level further in, with at most `levels` levels below
the current depth. With as many levels as there are up to the limit, the limit alone decides. -/
def within (limit : Nat) : (levels : Nat) → Rank → Parser Expr
  | 0, _ => tooDeep limit
  | levels + 1, rank => nested limit (ranked limit (within limit levels) rank)

/-- The grammar of a rank, with all the levels up to the limit. -/
def ofRank (limit : Nat) (rank : Rank) : Parser Expr := do
  within limit (limit - (← get).depth) rank

def expression (limit : Nat) : Parser Expr :=
  ofRank limit .choice

end Slate.Grammar
