import Slate.Grammar.Program

/-!
Programs before their calls are resolved. The same grammar, with an assembly that keeps a call by
its name, turns tokens into a list of items: names with bodies in which calls stand unresolved. The
table of procedures arises from the items in order, where each body is expanded by the table of the
items before it.
-/

set_option autoImplicit false

namespace Slate

/-- Statements in which calls stand by name. -/
inductive RawStmt
  | call (name : String)
  | block (body : List RawStmt)
  | assign (target : Ref) (value : Expr)
  | branch (condition : Expr) (accepted rejected : RawStmt)
  | loop (condition : Expr) (body : RawStmt)

namespace RawStmt

mutual

/-- The names that are called, in the order of the tokens. -/
def calls : RawStmt → List String
  | .call name => [name]
  | .block body => callsAll body
  | .assign _ _ => []
  | .branch _ accepted rejected => accepted.calls ++ rejected.calls
  | .loop _ body => body.calls

def callsAll : List RawStmt → List String
  | [] => []
  | statement :: rest => statement.calls ++ callsAll rest

end

mutual

/-- Every call is replaced by what the program has under its name. -/
def expand (program : Program) : RawStmt → Stmt
  | .call name => (program.find? name).getD (.block [])
  | .block body => .block (expandAll program body)
  | .assign target value => .assign target value
  | .branch condition accepted rejected =>
      .branch condition (accepted.expand program) (rejected.expand program)
  | .loop condition body => .loop condition (body.expand program)

def expandAll (program : Program) : List RawStmt → List Stmt
  | [] => []
  | statement :: rest => statement.expand program :: expandAll program rest

end

end RawStmt

/-- Calls are kept by name, whether or not the name has a meaning. -/
def Grammar.Assembly.symbolic : Grammar.Assembly RawStmt where
  block := .block
  assign := .assign
  branch := .branch
  loop := .loop
  call? := fun name => some (.call name)

/-- The items of a program in order: definitions, and main programs under their reserved name. -/
abbrev RawProgram := List (String × RawStmt)

namespace RawProgram

def ofTokens (limit : Nat) (tokens : List Token) : Except ParseFailure RawProgram :=
  match Grammar.items limit (fun _ => .symbolic) (fun items name body => items ++ [(name, body)])
      tokens.length [] ⟨tokens, 0⟩ with
  | .ok items _ => .ok items
  | .error failure _ => .error failure

/-- Enters one item into the table, its calls replaced by what the table has so far. -/
def enter (program : Program) (item : String × RawStmt) : Program :=
  program.define item.1 (item.2.expand program)

/-- The table of all items, entered in order. -/
def table (items : RawProgram) : Program :=
  items.foldl enter .empty

def names (items : RawProgram) : List String :=
  items.map Prod.fst

/-- Every call names a procedure that a strictly earlier item defines. -/
def CallsResolved (items : RawProgram) : Prop :=
  ∀ before name body after, items = before ++ (name, body) :: after →
    ∀ called ∈ body.calls, called ∈ names before

/-- The first call, in the order of the tokens, that names no procedure of an earlier item. -/
def FirstUnresolved (items : RawProgram) (called : String) : Prop :=
  ∃ before name body after earlier later,
    items = before ++ (name, body) :: after ∧ body.calls = earlier ++ called :: later ∧
      CallsResolved before ∧ (∀ other ∈ earlier, other ∈ names before) ∧ called ∉ names before

end RawProgram

end Slate
