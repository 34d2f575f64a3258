import Slate.Grammar.Expr
import Slate.Program

/-!
The grammar of statements. A statement is a procedure call, a block in braces, an `if` with an
optional `else`, a `while`, or an assignment. A compound assignment reads its target again on the
right-hand side.

What the parsers put together is left to an assembly. In the assembly of a program a call `NAME;`
is replaced at once by the body that the procedure has at this point.
-/

set_option autoImplicit false

namespace Slate.Grammar

/-- How statements are put together from their parts. A call has only its name, for which there may
be no statement. -/
structure Assembly (σ : Type) where
  block : List σ → σ
  assign : Ref → Expr → σ
  branch : Expr → σ → σ → σ
  loop : Expr → σ → σ
  call? : String → Option σ

/-- Trees in which the bodies of the procedures stand in the place of calls. -/
def Assembly.ofProgram (program : Program) : Assembly Stmt where
  block := .block
  assign := .assign
  branch := .branch
  loop := .loop
  call? := program.find?

/-- What the right-hand side of a compound assignment does to the target. -/
def compoundOp? : Token → Option BinaryOp
  | .plusAssign => some .add
  | .minusAssign => some .subtract
  | .starAssign => some .multiply
  | .slashAssign => some .divide
  | .percentAssign => some .modulo
  | _ => none

section

variable (limit : Nat)

/-- The value that an assignment gives to `target`, by the operator behind the target. -/
def assignedValue (target : Ref) : Parser Expr := do
  match ← peek with
  | some .assign =>
      advance
      expression limit
  | some .increment =>
      advance
      return .binary .add (.reference target) (.literal 1)
  | some .decrement =>
      advance
      return .binary .subtract (.reference target) (.literal 1)
  | some token =>
      match compoundOp? token with
      | some op =>
          advance
          return .binary op (.reference target) (← expression limit)
      | none => throw (.notAssignment token)
  | none => unexpected .assignmentOperator

def condition : Parser Expr :=
  parenthesized (ofRank limit)

variable {σ : Type} (assembly : Assembly σ)

def assignment : Parser σ := do
  let target ← reference limit (ofRank limit)
  let value ← assignedValue limit target
  expect .semicolon .semicolon
  return assembly.assign target value

def call (name : String) : Parser σ := do
  expect .semicolon .semicolonAfterCall
  match assembly.call? name with
  | some body => return body
  | none => throw (.undefinedProcedure name)

variable (inner : Parser σ)

/-- Statements up to a closing brace, which is passed, or up to the end of the tokens. The fuel
bounds their number: no statement is empty, so the tokens run out first. -/
def statements : (fuel : Nat) → (done : List σ) → Parser (List σ)
  | 0, done => return done.reverse
  | fuel + 1, done => do
      match ← peek with
      | none => return done.reverse
      | some .rightBrace =>
          advance
          return done.reverse
      | some _ =>
          let statement ← inner
          statements fuel (statement :: done)

/-- The block behind an opening brace, or a main program. -/
def block : Parser σ := do
  return assembly.block (← statements inner (← get).rest.length [])

/-- The parts of an `if` behind its keyword. A missing `else` is an empty block. -/
def branch : Parser σ := do
  let condition ← condition limit
  let accepted ← inner
  if (← peek) = some (.identifier "else") then
    advance
    return assembly.branch condition accepted (← inner)
  else
    return assembly.branch condition accepted (assembly.block [])

/-- The parts of a `while` behind its keyword. -/
def loop : Parser σ := do
  let condition ← condition limit
  return assembly.loop condition (← inner)

/-- A statement at the current level. Statements inside it are read by `inner`. -/
def statementHere : Parser σ := do
  match ← peek with
  | some (.procedure name) =>
      advance
      call assembly name
  | some .leftBrace =>
      advance
      block assembly inner
  | some (.identifier "if") =>
      advance
      branch limit assembly inner
  | some (.identifier "while") =>
      advance
      loop limit assembly inner
  | some (.identifier _) => assignment limit assembly
  | _ => unexpected .statement

end

section

variable {σ : Type} (limit : Nat) (assembly : Assembly σ)

/-- A statement one nesting level further in, with at most `levels` levels below the current
depth. -/
def statementWithin : (levels : Nat) → Parser σ
  | 0 => tooDeep limit
  | levels + 1 => nested limit (statementHere limit assembly (statementWithin levels))

/-- A statement, with all the levels up to the limit. -/
def statement : Parser σ := do
  statementWithin limit assembly (limit - (← get).depth)

end

end Slate.Grammar
