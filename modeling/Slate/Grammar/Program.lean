import Slate.Grammar.Stmt
import Slate.Token.Scan

/-!
The grammar of programs: definitions `NAME: statement` and main programs. A main program goes to
the end or to a closing brace that nothing opens, and what follows such a brace starts anew, so
that a later main program replaces an earlier one.
-/

set_option autoImplicit false

namespace Slate

namespace Grammar

/-- One item at the head of the tokens: the name it defines and its body. -/
def item {σ : Type} (limit : Nat) (assembly : Assembly σ) : Parser (String × σ) := do
  match (← get).rest with
  | .procedure name :: .colon :: _ =>
      advance
      advance
      return (name, ← statement limit assembly)
  | _ => return (Program.mainName, ← block assembly (statement limit assembly))

/-- Items up to the end of the tokens. Each is put together by the table of the items before it and
then entered into the table. The fuel bounds their number: no item is empty, so the tokens run out
first. -/
def items {σ τ : Type} (limit : Nat) (assembly : τ → Assembly σ) (enter : τ → String → σ → τ) :
    (fuel : Nat) → (table : τ) → Parser τ
  | 0, table => return table
  | fuel + 1, table => do
      if (← peek).isNone then
        return table
      else
        let (name, body) ← item limit (assembly table)
        items limit assembly enter fuel (enter table name body)

end Grammar

namespace Program

/-- How deep constructs may nest where nothing else is asked for. -/
def defaultLimit : Nat :=
  512

def ofTokens (limit : Nat) (tokens : List Token) : Except ParseFailure Program :=
  match Grammar.items limit .ofProgram define tokens.length empty ⟨tokens, 0⟩ with
  | .ok program _ => .ok program
  | .error failure _ => .error failure

def ofSource (limit : Nat) (source : String) : Except Failure Program := do
  let tokens ← (Token.scan source).mapError .scan
  (ofTokens limit tokens).mapError .parse

end Program

end Slate
