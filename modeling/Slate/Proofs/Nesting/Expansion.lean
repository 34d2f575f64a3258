import Slate.Proofs.Calls.Resolution
import Slate.Proofs.Execution.Limit
import Slate.Proofs.Grammar.Braces

/-!
From the limit of the grammar to the limit of a machine. With calls kept by name, no item is taller
than the limit and the block of a main program around it. A call is replaced by a body from the
table, so every item adds at most the limit to the height of the bodies before it. A machine whose
limit is beyond the sum over all items never meets it.
-/

set_option autoImplicit false

namespace Slate

open Grammar

namespace RawStmt

mutual

/-- The most statements on a path from the root to a leaf, where a call counts as one. -/
def nesting : RawStmt → Nat
  | .call _ => 1
  | .block body => nestingAll body + 1
  | .assign _ _ => 1
  | .branch _ accepted rejected => max accepted.nesting rejected.nesting + 1
  | .loop _ body => body.nesting + 1

def nestingAll : List RawStmt → Nat
  | [] => 0
  | statement :: rest => max statement.nesting (nestingAll rest)

end

theorem nestingAll_le
    {body : List RawStmt} {bound : Nat} (each : ∀ part ∈ body, part.nesting ≤ bound) :
    nestingAll body ≤ bound := by
  induction body with
  | nil => exact Nat.zero_le _
  | cons part rest inductionHypothesis =>
      obtain ⟨first, others⟩ := List.forall_mem_cons.1 each
      exact Nat.max_le.2 ⟨first, inductionHypothesis others⟩

/-- From the depth where it stands, the statement does not reach beyond the limit. -/
def Within (limit depth : Nat) (statement : RawStmt) : Prop :=
  depth ≤ limit → depth + statement.nesting ≤ limit + 1

theorem nesting_le_of_inside
    {limit depth : Nat} {statement : RawStmt}
    (inside : Inside limit (Within limit) depth statement) :
    statement.nesting ≤ limit - depth := by
  have within := inside.2 inside.1
  omega

theorem nesting_block_le
    {limit depth : Nat} {body : List RawStmt}
    (each : ∀ part ∈ body, Inside limit (Within limit) depth part) :
    (block body).nesting ≤ limit - depth + 1 :=
  Nat.succ_le_succ (nestingAll_le fun part member => nesting_le_of_inside (each part member))

theorem preserves_within (limit : Nat) : Assembly.symbolic.Preserves limit (Within limit) where
  block each below := by
    have bound := nesting_block_le each
    simp only [Assembly.symbolic]
    omega
  assign _ _ below := Nat.succ_le_succ below
  branch _ accepted rejected below := by
    have acceptedBound := nesting_le_of_inside accepted
    have rejectedBound := nesting_le_of_inside rejected
    simp only [Assembly.symbolic, nesting]
    omega
  loop _ body below := by
    have bound := nesting_le_of_inside body
    simp only [Assembly.symbolic, nesting]
    omega
  call found below := by
    cases found
    exact Nat.succ_le_succ below

end RawStmt

namespace RawProgram

/-- No item is taller than the bound, calls counted as one. -/
def NestingAtMost (items : RawProgram) (bound : Nat) : Prop :=
  ∀ item ∈ items, item.2.nesting ≤ bound

/-- A definition is a statement one level in, and a main program has one block around such
statements. -/
theorem NestingAtMost.concat
    (limit : Nat) (items : RawProgram) (name : String) (body : RawStmt) (depth : Nat)
    (kept : items.NestingAtMost (limit + 1))
    (within : Inside limit (RawStmt.Within limit) depth body ∨
      ∃ parts, body = Assembly.symbolic.block parts ∧
        ∀ part ∈ parts, Inside limit (RawStmt.Within limit) depth part) :
    NestingAtMost (items ++ [(name, body)]) (limit + 1) := by
  refine List.forall_mem_append.2 ⟨kept, List.forall_mem_singleton.2 ?_⟩
  rcases within with inside | ⟨parts, rfl, each⟩
  · have bound := RawStmt.nesting_le_of_inside inside
    simp only
    omega
  · have bound := RawStmt.nesting_block_le each
    simp only [Assembly.symbolic]
    omega

theorem ofTokens_nestingAtMost
    {limit : Nat} {tokens : List Token} {items : RawProgram}
    (run : ofTokens limit tokens = .ok items) : items.NestingAtMost (limit + 1) := by
  unfold ofTokens at run
  split at run
  next result after itemsRun =>
    cases run
    exact items_reads (fun _ _ => RawStmt.preserves_within limit) (NestingAtMost.concat limit)
      tokens.length (List.forall_mem_nil _) itemsRun
  next => cases run

end RawProgram

/-- No body of the program is taller than the bound. -/
def Program.NestingAtMost (program : Program) (bound : Nat) : Prop :=
  ∀ name body, program.find? name = some body → body.nesting ≤ bound

variable {program : Program} {bound limit : Nat}

mutual

/-- At the end of a path there may be a body in the place of a call. -/
theorem RawStmt.nesting_expand (kept : program.NestingAtMost bound) (positive : 1 ≤ bound) :
    (statement : RawStmt) →
      (statement.expand program).nesting + 1 ≤ statement.nesting + bound
  | .call name => by
      rw [RawStmt.nesting, Nat.add_comm 1]
      refine Nat.succ_le_succ ?_
      cases found : program.find? name with
      | none => simpa [expand, found, Stmt.nesting, Stmt.nestingAll] using positive
      | some body => simpa [expand, found] using kept name body found
  | .block body => by
      have inside := nestingAll_expand kept positive body
      simp only [expand, nesting, Stmt.nesting]
      omega
  | .assign _ _ => Nat.add_le_add_left positive 1
  | .branch _ accepted rejected => by
      have acceptedInside := nesting_expand kept positive accepted
      have rejectedInside := nesting_expand kept positive rejected
      simp only [expand, nesting, Stmt.nesting]
      omega
  | .loop _ body => by
      have inside := nesting_expand kept positive body
      simp only [expand, nesting, Stmt.nesting]
      omega

theorem RawStmt.nestingAll_expand (kept : program.NestingAtMost bound) (positive : 1 ≤ bound) :
    (body : List RawStmt) →
      Stmt.nestingAll (expandAll program body) + 1 ≤ nestingAll body + bound
  | [] => Nat.add_le_add_left positive 0
  | statement :: rest => by
      have first := nesting_expand kept positive statement
      have others := nestingAll_expand kept positive rest
      simp only [expandAll, nestingAll, Stmt.nestingAll]
      omega

end

/-- Entering one item adds at most the limit. -/
theorem RawProgram.enter_nestingAtMost
    (kept : program.NestingAtMost bound) (positive : 1 ≤ bound) {item : String × RawStmt}
    (low : item.2.nesting ≤ limit + 1) :
    (enter program item).NestingAtMost (bound + limit) := by
  have expanded := RawStmt.nesting_expand kept positive item.2
  refine Program.forall_find?_define item.1 ?_ fun name body found => ?_
  · omega
  · exact Nat.le_add_right_of_le (kept name body found)

theorem RawProgram.foldl_enter_nestingAtMost
    (kept : program.NestingAtMost bound) (positive : 1 ≤ bound) {items : RawProgram}
    (low : items.NestingAtMost (limit + 1)) :
    (items.foldl enter program).NestingAtMost (bound + items.length * limit) := by
  induction items generalizing program bound with
  | nil => simpa using kept
  | cons item rest inductionHypothesis =>
      obtain ⟨first, others⟩ := List.forall_mem_cons.1 low
      have entered := enter_nestingAtMost kept positive first
      have further := inductionHypothesis entered (Nat.le_add_right_of_le positive) others
      have total : bound + (item :: rest).length * limit = bound + limit + rest.length * limit := by
        rw [List.length_cons, Nat.succ_mul]
        omega
      rw [total]
      exact further

theorem RawProgram.table_nestingAtMost
    {items : RawProgram} (low : items.NestingAtMost (limit + 1)) :
    items.table.NestingAtMost (items.length * limit + 1) := by
  have empty : Program.empty.NestingAtMost 1 := by
    intro name body found
    simp at found
  rw [Nat.add_comm]
  exact foldl_enter_nestingAtMost empty (Nat.le_refl 1) low

/-- The program is the table of its items. -/
theorem RawProgram.table_of_ofTokens
    {tokens : List Token} (parsed : Program.ofTokens limit tokens = .ok program) :
    ∃ items, ofTokens limit tokens = .ok items ∧ program = items.table := by
  obtain ⟨items, run⟩ := ofTokens_of_ok parsed
  rw [Program.ofTokens_eq run] at parsed
  split at parsed
  next => exact ⟨items, run, (Except.ok.inj parsed).symm⟩
  next => cases parsed

theorem RawProgram.length_le_one
    {tokens : List Token} {items : RawProgram}
    (noDefinition : ∀ name, ¬ [.procedure name, .colon] <+: tokens)
    (matched : bracesMatch 0 tokens) (run : ofTokens limit tokens = .ok items) :
    items.length ≤ 1 := by
  unfold ofTokens at run
  split at run
  next result after itemsRun =>
    cases run
    rcases items_main_single noDefinition matched itemsRun with rfl | ⟨name, body, rfl⟩
    · exact Nat.zero_le 1
    · exact Nat.le_refl 1
  next => cases run

namespace Machine

/-- A refused flush is a failure of another kind. -/
theorem flushing_ne_tooDeep
    {action : Action Unit} {machine : Machine} {reached : Nat}
    (unmet : ∀ stopped, action machine ≠ .error (.failure (.runtime (.tooDeep reached))) stopped)
    (after : Machine) :
    flushing action machine ≠ .error (.failure (.runtime (.tooDeep reached))) after := by
  unfold flushing
  split
  next stopped run => exact sinking_ne_tooDeep _ stopped after reached
  next => nofun
  next cause stopped run =>
    split
    next =>
      rintro ⟨⟩
      exact unmet stopped run
    next => exact sinking_ne_tooDeep _ stopped after reached

theorem runProgram_ne_tooDeep
    (kept : program.NestingAtMost bound) {machine : Machine} (outermost : machine.depth = 0)
    (enough : bound ≤ machine.limit) (laps reached : Nat) (after : Machine) :
    runProgram laps program machine ≠ .error (.failure (.runtime (.tooDeep reached))) after := by
  unfold runProgram
  cases found : program.main? with
  | none => nofun
  | some main =>
      refine flushing_ne_tooDeep (fun stopped => (execute_fits laps main).unmet ?_) after
      rw [outermost, Nat.zero_add]
      exact Nat.le_trans (kept _ _ found) enough

/-- A program that was read under a limit does not meet the limit of a machine if this is beyond
the limit of the program times the number of its items, repetitions included. Tokens without
definitions and without a closing brace that nothing opens are one item. -/
theorem runProgram_within_items
    {tokens : List Token} (parsed : Program.ofTokens limit tokens = .ok program) :
    ∃ items, RawProgram.ofTokens limit tokens = .ok items ∧
      (∀ machine, machine.depth = 0 → items.length * limit + 1 ≤ machine.limit →
        ∀ laps reached after, runProgram laps program machine ≠
          .error (.failure (.runtime (.tooDeep reached))) after) ∧
      ((∀ name, ¬ [.procedure name, .colon] <:+: tokens) → bracesMatch 0 tokens →
        ∀ machine, machine.depth = 0 → limit + 1 ≤ machine.limit →
          ∀ laps reached after, runProgram laps program machine ≠
            .error (.failure (.runtime (.tooDeep reached))) after) := by
  obtain ⟨items, run, rfl⟩ := RawProgram.table_of_ofTokens parsed
  have kept := RawProgram.table_nestingAtMost (RawProgram.ofTokens_nestingAtMost run)
  refine ⟨items, run, ?_, ?_⟩
  · intro machine outermost enough laps reached after
    exact runProgram_ne_tooDeep kept outermost enough laps reached after
  · intro noDefinition matched machine outermost enough laps reached after
    have single := RawProgram.length_le_one
      (fun name begins => noDefinition name begins.isInfix) matched run
    have fewer : items.length * limit ≤ limit := by
      simpa using Nat.mul_le_mul_right limit single
    exact runProgram_ne_tooDeep kept outermost (Nat.le_trans (Nat.succ_le_succ fewer) enough)
      laps reached after

/-- A main program that is replaced by a call of itself. -/
def restarted : List Token :=
  [.identifier "x", .increment, .semicolon, .rightBrace, .procedure "MAIN", .semicolon]

/-- Two items with one level each take three levels on a machine, and two levels are not enough.
For the first item alone they are. -/
theorem runProgram_within_items_restarted :
    (∃ program, Program.ofTokens 1 restarted = .ok program ∧
      (∃ after, runProgram 1 program (start 2 ⟨[], []⟩ .unlimited) =
        .error (.failure (.runtime (.tooDeep 2))) after) ∧
      ∀ laps reached after, runProgram laps program (start 3 ⟨[], []⟩ .unlimited) ≠
        .error (.failure (.runtime (.tooDeep reached))) after) ∧
    ∃ program, Program.ofTokens 1 (restarted.take 3) = .ok program ∧
      ∀ laps reached after, runProgram laps program (start 2 ⟨[], []⟩ .unlimited) ≠
        .error (.failure (.runtime (.tooDeep reached))) after := by
  have parsed : Program.ofTokens 1 restarted = .ok _ := rfl
  have parsedFirst : Program.ofTokens 1 (restarted.take 3) = .ok _ := rfl
  refine ⟨⟨_, parsed, ⟨_, rfl⟩, ?_⟩, ⟨_, parsedFirst, ?_⟩⟩
  · obtain ⟨items, run, unmet, _⟩ := runProgram_within_items parsed
    cases run
    exact unmet _ rfl (Nat.le_refl 3)
  · obtain ⟨_, _, _, unmet⟩ := runProgram_within_items parsedFirst
    refine unmet (fun name => ?_) rfl _ rfl (Nat.le_refl 2)
    simp [restarted, List.infix_cons_iff]

end Machine

end Slate
