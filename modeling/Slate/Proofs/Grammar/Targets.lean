import Slate.Proofs.Grammar.Statement
import Slate.Proofs.Printing.Print
import Slate.Proofs.Token.LongestMatch

/-!
Targets of assignments. The variable that a target begins with stands among the tokens that the
target is read from, so that in the programs of a source it is spelled as the scanner spells
variables. That a body stands in the place of a call makes no difference, since the body comes from
the same source.
-/

set_option autoImplicit false

namespace Slate

namespace Stmt

mutual

/-- The targets of all assignments of the tree. -/
def targets : Stmt → List Ref
  | .block body => targetsAll body
  | .assign target _ => [target]
  | .branch _ accepted rejected => accepted.targets ++ rejected.targets
  | .loop _ body => body.targets

def targetsAll : List Stmt → List Ref
  | [] => []
  | statement :: rest => statement.targets ++ targetsAll rest

end

/-- Every target begins with a variable that a source can have. -/
def TargetsSpelled (statement : Stmt) : Prop :=
  ∀ target ∈ statement.targets, Token.IsVariableName target.base

theorem targetsSpelled_block
    {body : List Stmt} (each : ∀ part ∈ body, part.TargetsSpelled) :
    (Stmt.block body).TargetsSpelled := by
  rw [TargetsSpelled, targets]
  induction body with
  | nil => exact List.forall_mem_nil _
  | cons statement rest inductionHypothesis =>
      obtain ⟨spelled, restSpelled⟩ := List.forall_mem_cons.1 each
      rw [targetsAll]
      exact List.forall_mem_append.2 ⟨spelled, inductionHypothesis restSpelled⟩

end Stmt

namespace Grammar

theorem Derivation.base_mem
    {word : List Token} {target : Ref} :
    Derivation .reference word (.reference target) → .identifier target.base ∈ word
  | .plain name => List.mem_singleton_self _
  | .indexed base _ => List.mem_append_left _ base.base_mem

end Grammar

namespace Program

open Grammar

/-- Every target of every body begins with a variable that a source can have. -/
def TargetsSpelled (program : Program) : Prop :=
  ∀ name body, program.find? name = some body → body.TargetsSpelled

theorem targetsSpelled_empty : empty.TargetsSpelled := by
  intro name body found
  simp at found

theorem preserves_targetsSpelled
    (limit : Nat) {program : Program} (kept : program.TargetsSpelled) :
    (Assembly.ofProgram program).PreservesAmong Token.Lexical limit
      (fun _ statement => statement.TargetsSpelled) where
  block parts := Stmt.targetsSpelled_block fun part member => (parts part member).2
  assign := by
    rintro depth word target value admitted ⟨derivation, _⟩ _
    exact List.forall_mem_singleton.2 (admitted _ derivation.base_mem)
  branch _ accepted rejected := List.forall_mem_append.2 ⟨accepted.2, rejected.2⟩
  loop _ body := body.2
  call found := kept _ _ found

theorem enter_targetsSpelled
    (limit : Nat) (program : Program) (name : String) (body : Stmt) (depth : Nat)
    (kept : program.TargetsSpelled)
    (spelled : Inside limit (fun _ statement => statement.TargetsSpelled) depth body ∨
      ∃ parts, body = (Assembly.ofProgram program).block parts ∧
        ∀ part ∈ parts, Inside limit (fun _ statement => statement.TargetsSpelled) depth part) :
    (program.define name body).TargetsSpelled := by
  refine forall_find?_define name ?_ kept
  rcases spelled with inside | ⟨parts, rfl, each⟩
  · exact inside.2
  · exact Stmt.targetsSpelled_block fun part member => (each part member).2

theorem ofTokens_targetsSpelled
    {limit : Nat} {tokens : List Token} (lexical : ∀ token ∈ tokens, token.Lexical)
    {program : Program} (run : ofTokens limit tokens = .ok program) :
    program.TargetsSpelled := by
  unfold ofTokens at run
  split at run
  next result after itemsRun =>
    cases run
    exact items_reads_among (fun _ => preserves_targetsSpelled limit) (enter_targetsSpelled limit)
      tokens.length targetsSpelled_empty _ _ _ itemsRun lexical
  next => cases run

theorem ofSource_eq_ok
    {limit : Nat} {source : String} {program : Program}
    (parsed : ofSource limit source = .ok program) :
    ∃ tokens, Token.scan source = .ok tokens ∧ ofTokens limit tokens = .ok program := by
  unfold ofSource at parsed
  cases scanned : Token.scan source with
  | error failure =>
      rw [scanned] at parsed
      cases parsed
  | ok tokens =>
      rw [scanned] at parsed
      change Except.mapError Failure.parse (ofTokens limit tokens) = .ok program at parsed
      cases run : ofTokens limit tokens with
      | error failure =>
          rw [run] at parsed
          cases parsed
      | ok result =>
          rw [run] at parsed
          cases parsed
          exact ⟨tokens, rfl, run⟩

/-- The scanner finds only variables of small letters and underscores, and every target of the
program begins with one of them. -/
theorem ofSource_targetsSpelled
    {limit : Nat} {source : String} {program : Program}
    (parsed : ofSource limit source = .ok program) : program.TargetsSpelled := by
  obtain ⟨tokens, scanned, run⟩ := ofSource_eq_ok parsed
  exact ofTokens_targetsSpelled (Token.lexical_of_scan scanned) run

end Program

end Slate
