import Slate.Proofs.Grammar.Prolongation
import Slate.Proofs.Grammar.Recursion

/-!
The depth of the cursor is a balance. Levels are opened one at a time, by a construct or by a link
of a chain, and given back one at a time or all together at the end of a chain. A chain that breaks
off gives nothing back, while the constructs around it still take off a level each. As no parser
leaves less than it found, there is always as much to take off as is asked for, and what is read
next begins where the part before it began.
-/

set_option autoImplicit false

namespace Slate.Grammar

variable {α β σ : Type} {limit : Nat}

/-- A success ends at the depth of the start, and a failure does not end below it. -/
structure KeepsDepth (parser : Parser α) : Prop where
  value {cursor after : Cursor} {result : α} :
    parser cursor = .ok result after → after.depth = cursor.depth
  failure {cursor stopped : Cursor} {cause : ParseFailure} :
    parser cursor = .error cause stopped → cursor.depth ≤ stopped.depth

theorem EndsOrderly.keepsDepth {parser : Parser α} (orderly : EndsOrderly parser) :
    KeepsDepth parser where
  value {cursor after result} run := by
    have ended := orderly cursor
    rw [run] at ended
    cases ended with
    | value sameDepth => exact sameDepth
  failure {cursor stopped cause} run := by
    have ended := orderly cursor
    rw [run] at ended
    cases ended with
    | failure noHigher => exact noHigher

/-- What follows a success begins with the depth of the start. -/
theorem KeepsDepth.bind_eq
    {parser : Parser α} (keeps : KeepsDepth parser) (next : α → Parser β) {cursor after : Cursor}
    {result : α} (run : parser cursor = .ok result after) :
    (parser >>= next) cursor = next result ⟨after.rest, cursor.depth⟩ := by
  rw [bind_of_ok run, ← keeps.value run]

section

variable (underflow : Parser Unit)

/-- Gives back so many levels if the depth has as many. What happens otherwise is left open. -/
def ascendOr (levels : Nat) : Parser Unit := do
  if levels ≤ (← get).depth then ascend levels else underflow

/-- A parser one level further in. The level is given back, with a check, after a failure too. -/
def nestedOr (limit : Nat) (parser : Parser α) : Parser α := fun cursor =>
  if limit ≤ cursor.depth then
    .error (.tooDeep limit) cursor
  else
    match parser { cursor with depth := cursor.depth + 1 } with
    | .ok value after => (do ascendOr underflow 1; return value : Parser α) after
    | .error failure after => (do ascendOr underflow 1; throw failure : Parser α) after

/-- A chain whose levels are given back with a check. -/
def chainOr (limit : Nat) (link? : Token → Option (α → β → α)) (operand : Parser β) :
    (fuel links : Nat) → α → Parser α
  | 0, _, _ => tooDeep limit
  | fuel + 1, links, left => do
      match (← peek).bind link? with
      | none =>
          ascendOr underflow links
          return left
      | some extend =>
          advance
          descend limit
          let right ← operand
          chainOr limit link? operand fuel (links + 1) (extend left right)

def leftChainOr (limit : Nat) (link? : Token → Option (α → β → α)) (operand : Parser β)
    (first : α) : Parser α := do
  chainOr underflow limit link? operand (limit - (← get).depth + 1) 0 first

theorem ascendOr_bind
    {levels : Nat} {cursor : Cursor} (next : Unit → Parser β) (enough : levels ≤ cursor.depth) :
    (ascendOr underflow levels >>= next) cursor = next () ⟨cursor.rest, cursor.depth - levels⟩ := by
  have run : ascendOr underflow levels cursor = .ok () ⟨cursor.rest, cursor.depth - levels⟩ := by
    unfold ascendOr
    rw [get_bind, if_pos enough]
    rfl
  exact bind_of_ok run

/-- Inside, the depth is one at least, whether the parser succeeds or fails. -/
theorem nestedOr_eq {parser : Parser α} (keeps : KeepsDepth parser) :
    nestedOr underflow limit parser = nested limit parser := by
  funext cursor
  unfold nestedOr nested
  split
  next => rfl
  next =>
    cases run : parser ⟨cursor.rest, cursor.depth + 1⟩ with
    | ok value after =>
        have sameDepth := keeps.value run
        exact ascendOr_bind underflow _ (by simp only at sameDepth; omega)
    | error failure stopped =>
        have noHigher := keeps.failure run
        exact ascendOr_bind underflow _ (by simp only at noHigher; omega)

section

variable {link? : Token → Option (α → β → α)} {operand : Parser β} (keeps : KeepsDepth operand)

include keeps

/-- The depth has all the links so far in it. -/
theorem chainOr_run
    (fuel links : Nat) (left : α) {cursor : Cursor} (charged : links ≤ cursor.depth) :
    chainOr underflow limit link? operand fuel links left cursor =
      chain limit link? operand fuel links left cursor := by
  induction fuel generalizing links left cursor with
  | zero => rfl
  | succ fuel inductionHypothesis =>
      unfold chainOr chain
      rw [peek_bind, peek_bind]
      cases found : cursor.rest.head?.bind link? with
      | none => exact ascendOr_bind underflow _ charged
      | some extend =>
          simp only [advance_bind]
          cases descended : descend limit ⟨cursor.rest.tail, cursor.depth⟩ with
          | error failure stopped => rw [bind_of_error descended, bind_of_error descended]
          | ok _ below =>
              obtain ⟨_, rfl⟩ := descend_eq_ok descended
              rw [bind_of_ok descended, bind_of_ok descended]
              cases run : operand ⟨cursor.rest.tail, cursor.depth + 1⟩ with
              | error failure stopped => rw [bind_of_error run, bind_of_error run]
              | ok right middle =>
                  have sameDepth := keeps.value run
                  rw [bind_of_ok run, bind_of_ok run]
                  apply inductionHypothesis
                  rw [sameDepth]
                  exact Nat.succ_le_succ charged

theorem leftChainOr_eq (first : α) :
    leftChainOr underflow limit link? operand first = leftChain limit link? operand first := by
  funext cursor
  unfold leftChainOr leftChain
  rw [get_bind, get_bind]
  exact chainOr_run underflow keeps _ 0 first (Nat.zero_le _)

end

/-- The equations of the grammar with a check before each subtraction from the depth: one level for
a statement or a rank, and the links of a chain. -/
structure Checked (limit : Nat) (assembly : Assembly σ) : Prop where
  statement : Grammar.statement limit assembly =
    nestedOr underflow limit (statementHere limit assembly (Grammar.statement limit assembly))
  rank (rank : Rank) : ofRank limit rank =
    nestedOr underflow limit (ranked limit (ofRank limit) rank)
  sum : Grammar.sum limit (ofRank limit) = do
    leftChainOr underflow limit (fun token => (sumOp? token).map .binary)
      (Grammar.product limit (ofRank limit)) (← Grammar.product limit (ofRank limit))
  product : Grammar.product limit (ofRank limit) = do
    leftChainOr underflow limit (fun token => (productOp? token).map .binary)
      (primary limit (ofRank limit)) (← primary limit (ofRank limit))
  reference : Grammar.reference limit (ofRank limit) = do
    leftChainOr underflow limit (fun token => if token = .at then some .indexed else none)
      (index (ofRank limit)) (← plainVariable)

theorem checked (limit : Nat) (assembly : Assembly σ) : Checked underflow limit assembly where
  statement := by
    have here := (statementHere_orderly assembly limit).keepsDepth
    rw [nestedOr_eq underflow here]
    exact statement_eq_nested assembly limit
  rank rank := by
    have here := (ranked_orderly limit rank).keepsDepth
    rw [nestedOr_eq underflow here]
    exact ofRank_eq_nested limit rank
  sum := by
    have operand := (Part.product.orderly limit assembly).keepsDepth
    exact bind_congr fun first => (leftChainOr_eq underflow operand first).symm
  product := by
    have operand := (Part.primary.orderly limit assembly).keepsDepth
    exact bind_congr fun first => (leftChainOr_eq underflow operand first).symm
  reference := by
    have operand := (Part.index.orderly limit assembly).keepsDepth
    exact bind_congr fun first => (leftChainOr_eq underflow operand first).symm

end

/-- Every part that succeeds ends at the depth where it began, and none that fails ends below it.
So no subtraction from the depth has too little to take from, whatever would happen then; what
stands behind a part has as many levels up to the limit as the part had; and the next item has the
same limit, the same depth and the same table, in which the item before it is entered. That no part
changes the limit or the table needs no proof: both are arguments of every parser, which returns
neither. -/
theorem depth_balanced (limit : Nat) (assembly : Assembly σ) :
    (∀ {α : Type} (part : Part σ α), KeepsDepth (part.parser limit assembly)) ∧
    (∀ underflow, Checked underflow limit assembly) ∧
    (∀ {α β : Type} (part : Part σ α) (next : α → Parser β) {cursor after : Cursor} {result : α},
      part.parser limit assembly cursor = .ok result after →
        (part.parser limit assembly >>= next) cursor = next result ⟨after.rest, cursor.depth⟩) ∧
    ∀ {τ : Type} (tables : τ → Assembly σ) (enter : τ → String → σ → τ) (fuel : Nat) (table : τ)
      {cursor after : Cursor} {name : String} {body : σ}, cursor.rest ≠ [] →
      item limit (tables table) cursor = .ok (name, body) after →
        items limit tables enter (fuel + 1) table cursor =
          items limit tables enter fuel (enter table name body) ⟨after.rest, cursor.depth⟩ := by
  refine ⟨fun part => (part.orderly limit assembly).keepsDepth, fun underflow => ?_, ?_, ?_⟩
  · exact checked underflow limit assembly
  · intro α β part next cursor after result run
    exact (part.orderly limit assembly).keepsDepth.bind_eq next run
  · intro τ tables enter fuel table cursor after name body ahead run
    have sameDepth := (item_reads (preserves_trivial limit (tables table)).among _ _ _ run).1
    rw [items_run, if_neg ahead, bind_of_ok run, ← sameDepth]

/-- A statement that takes the last level leaves it to the next statement, while a chain that breaks
off stays charged. -/
theorem depth_balanced_lastLevel :
    statement 4 (.ofProgram .empty)
        ⟨[.identifier "x", .assign, .number 1, .plus, .number 2, .semicolon,
          .identifier "y", .assign, .number 3, .plus, .number 4, .semicolon], 1⟩ =
      .ok (.assign (.plain "x") (.binary .add (.literal 1) (.literal 2)))
        ⟨[.identifier "y", .assign, .number 3, .plus, .number 4, .semicolon], 1⟩ ∧
    (statement 4 (.ofProgram .empty) >>= fun _ => statement 4 (.ofProgram .empty))
        ⟨[.identifier "x", .assign, .number 1, .plus, .number 2, .semicolon,
          .identifier "y", .assign, .number 3, .plus, .number 4, .semicolon], 1⟩ =
      statement 4 (.ofProgram .empty)
        ⟨[.identifier "y", .assign, .number 3, .plus, .number 4, .semicolon], 1⟩ ∧
    sum 4 (ofRank 4) ⟨[.number 1, .plus, .number 2, .plus], 1⟩ =
      .error (.unexpectedEnd .variableName) ⟨[], 3⟩ ∧
    1 ≤ 3 := by
  obtain ⟨keeps, _, goesOn, _⟩ := depth_balanced 4 (.ofProgram .empty)
  have first : statement 4 (.ofProgram .empty)
      ⟨[.identifier "x", .assign, .number 1, .plus, .number 2, .semicolon,
        .identifier "y", .assign, .number 3, .plus, .number 4, .semicolon], 1⟩ =
    .ok (.assign (.plain "x") (.binary .add (.literal 1) (.literal 2)))
      ⟨[.identifier "y", .assign, .number 3, .plus, .number 4, .semicolon], 1⟩ := rfl
  have breaksOff : sum 4 (ofRank 4) ⟨[.number 1, .plus, .number 2, .plus], 1⟩ =
    .error (.unexpectedEnd .variableName) ⟨[], 3⟩ := rfl
  exact ⟨first, goesOn .statement _ first, breaksOff, (keeps .sum).failure breaksOff⟩

end Slate.Grammar
