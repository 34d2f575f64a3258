import Slate.Proofs.Grammar.Progress
import Slate.Proofs.Grammar.Recursion

/-!
The loops of the parsers, without a bound. A block goes on with statements, a chain with links and a
program with items, until a pass finds nothing that goes on. Whatever goes on has taken a token. So
a loop ends, after no more passes than there are tokens ahead and under every limit, and the fuel
that a parser has for its loop lasts until then.
-/

set_option autoImplicit false

namespace Slate.Grammar

variable {α β γ σ τ : Type} {limit : Nat}

/-- The loop of a pass, from a state and a cursor, comes to an outcome. A pass goes round with a new
state, or it leaves the loop with a value or a failure. The passes with a token ahead are counted,
and a pass without one leaves. -/
inductive Loops (pass : γ → Parser (γ ⊕ α)) :
    (passes : Nat) → γ → Cursor → EStateM.Result ParseFailure Cursor α → Prop
  | atEnd {state : γ} {cursor after : Cursor} {value : α} (nothing : cursor.rest = [])
      (run : pass state cursor = .ok (.inr value) after) :
      Loops pass 0 state cursor (.ok value after)
  | leaves {state : γ} {cursor after : Cursor} {value : α} (ahead : cursor.rest ≠ [])
      (run : pass state cursor = .ok (.inr value) after) :
      Loops pass 1 state cursor (.ok value after)
  | fails {state : γ} {cursor stopped : Cursor} {failure : ParseFailure}
      (ahead : cursor.rest ≠ []) (run : pass state cursor = .error failure stopped) :
      Loops pass 1 state cursor (.error failure stopped)
  | again {passes : Nat} {state next : γ} {cursor middle : Cursor}
      {outcome : EStateM.Result ParseFailure Cursor α} (ahead : cursor.rest ≠ [])
      (run : pass state cursor = .ok (.inl next) middle)
      (further : Loops pass passes next middle outcome) :
      Loops pass (passes + 1) state cursor outcome

/-- The loop ends with the outcome, after no more passes than there are tokens ahead. -/
def Terminates (pass : γ → Parser (γ ⊕ α)) (state : γ) (cursor : Cursor)
    (outcome : EStateM.Result ParseFailure Cursor α) : Prop :=
  ∃ passes ≤ cursor.rest.length, Loops pass passes state cursor outcome

/-- A pass leaves the loop where no token is left, and takes a token before it goes round. -/
structure Advances (pass : γ → Parser (γ ⊕ α)) : Prop where
  atEnd (state : γ) {cursor : Cursor} :
    cursor.rest = [] → ∃ value after, pass state cursor = .ok (.inr value) after
  shorter {state next : γ} {cursor middle : Cursor} :
    pass state cursor = .ok (.inl next) middle → middle.rest.length < cursor.rest.length

section

variable {pass : γ → Parser (γ ⊕ α)} (advances : Advances pass)

include advances

theorem Advances.exists_terminates (state : γ) (cursor : Cursor) :
    ∃ outcome, Terminates pass state cursor outcome := by
  induction length : cursor.rest.length using Nat.strongRecOn generalizing state cursor with
  | ind length inductionHypothesis =>
      subst length
      by_cases nothing : cursor.rest = []
      · obtain ⟨value, after, run⟩ := advances.atEnd state nothing
        exact ⟨_, 0, Nat.zero_le _, .atEnd nothing run⟩
      have positive : 1 ≤ cursor.rest.length := List.length_pos_iff.2 nothing
      cases run : pass state cursor with
      | error failure stopped => exact ⟨_, 1, positive, .fails nothing run⟩
      | ok result after =>
          cases result with
          | inr value => exact ⟨_, 1, positive, .leaves nothing run⟩
          | inl next =>
              -- This pass is counted, and it has taken a token to be counted for.
              have shorter := advances.shorter run
              obtain ⟨outcome, passes, bound, loops⟩ :=
                inductionHypothesis _ shorter next after rfl
              exact ⟨outcome, passes + 1, Nat.lt_of_le_of_lt bound shorter,
                .again nothing run loops⟩

end

/-- A function with fuel that makes one pass for each unit of it. The fuel that `lasts` from some
cursor on is not gone there, and what is left of it lasts from the next cursor on. -/
structure Drives (pass : γ → Parser (γ ⊕ α)) (run : Nat → γ → Parser α)
    (lasts : Nat → Cursor → Prop) : Prop where
  unfolds (fuel : Nat) (state : γ) : run (fuel + 1) state = pass state >>= Sum.elim (run fuel) pure
  positive {fuel : Nat} {cursor : Cursor} : lasts fuel cursor → fuel ≠ 0
  kept {fuel : Nat} {state next : γ} {cursor middle : Cursor} : lasts (fuel + 1) cursor →
    pass state cursor = .ok (.inl next) middle → lasts fuel middle

section

variable {pass : γ → Parser (γ ⊕ α)} {run : Nat → γ → Parser α} {lasts : Nat → Cursor → Prop}
  (drives : Drives pass run lasts)

include drives

theorem Drives.run_eq
    {passes : Nat} {state : γ} {cursor : Cursor} {outcome : EStateM.Result ParseFailure Cursor α}
    (loops : Loops pass passes state cursor outcome) {fuel : Nat} (enough : lasts fuel cursor) :
    run fuel state cursor = outcome := by
  induction loops generalizing fuel with
  | atEnd _ leaves =>
      obtain ⟨fuel, rfl⟩ := Nat.exists_eq_succ_of_ne_zero (drives.positive enough)
      rw [drives.unfolds, bind_of_ok leaves, Sum.elim_inr, pure_run]
  | leaves _ leaves =>
      obtain ⟨fuel, rfl⟩ := Nat.exists_eq_succ_of_ne_zero (drives.positive enough)
      rw [drives.unfolds, bind_of_ok leaves, Sum.elim_inr, pure_run]
  | fails _ fails =>
      obtain ⟨fuel, rfl⟩ := Nat.exists_eq_succ_of_ne_zero (drives.positive enough)
      rw [drives.unfolds, bind_of_error fails]
  | again _ goesRound _ inductionHypothesis =>
      obtain ⟨fuel, rfl⟩ := Nat.exists_eq_succ_of_ne_zero (drives.positive enough)
      rw [drives.unfolds, bind_of_ok goesRound, Sum.elim_inl]
      exact inductionHypothesis (drives.kept enough goesRound)

theorem Drives.terminates
    (advances : Advances pass) {fuel : Nat} {cursor : Cursor} (enough : lasts fuel cursor)
    (state : γ) : Terminates pass state cursor (run fuel state cursor) := by
  obtain ⟨outcome, passes, bound, loops⟩ := advances.exists_terminates state cursor
  rw [drives.run_eq loops enough]
  exact ⟨passes, bound, loops⟩

end

section

variable (inner : Parser σ)

/-- One pass of a block: its end, or one more statement. -/
def statementsPass (done : List σ) : Parser (List σ ⊕ List σ) := do
  match ← peek with
  | none => return .inr done.reverse
  | some .rightBrace =>
      advance
      return .inr done.reverse
  | some _ => return .inl ((← inner) :: done)

theorem statementsPass_run (done : List σ) (cursor : Cursor) :
    statementsPass inner done cursor =
      match cursor.rest with
      | [] => .ok (.inr done.reverse) cursor
      | .rightBrace :: rest => .ok (.inr done.reverse) ⟨rest, cursor.depth⟩
      | _ :: _ => (do return .inl ((← inner) :: done) : Parser (List σ ⊕ List σ)) cursor := by
  rcases cursor with ⟨_ | ⟨token, rest⟩, depth⟩
  · rfl
  · cases token <;> rfl

variable {inner} (leaves : Leaves 1 inner)

include leaves

theorem statementsPass_shorter
    {done next : List σ} {cursor middle : Cursor}
    (run : statementsPass inner done cursor = .ok (.inl next) middle) :
    middle.rest.length < cursor.rest.length := by
  rw [statementsPass_run] at run
  split at run
  next => cases run
  next => cases run
  next =>
    obtain ⟨statement, _, innerRun, returned⟩ := bind_eq_ok_iff.1 run
    cases returned
    exact (leaves _ _ _ innerRun).shorter

theorem statementsPass_advances : Advances (statementsPass inner) where
  atEnd done {cursor} nothing := by
    refine ⟨done.reverse, cursor, ?_⟩
    rw [statementsPass_run, nothing]
  shorter := statementsPass_shorter leaves

theorem statements_drives :
    Drives (statementsPass inner) (statements inner) fun fuel cursor =>
      cursor.rest.length < fuel where
  unfolds fuel done := by
    unfold statementsPass
    rw [statements, bind_assoc]
    refine bind_congr fun next => ?_
    split <;> simp only [bind_assoc, pure_bind, Sum.elim_inl, Sum.elim_inr]
  positive := Nat.ne_zero_of_lt
  kept enough run :=
    Nat.lt_of_lt_of_le (statementsPass_shorter leaves run) (Nat.le_of_lt_succ enough)

end

/-- The loop of a block, as far as it has come with the statements done. -/
theorem statements_terminates
    (limit : Nat) (assembly : Assembly σ) (done : List σ) (cursor : Cursor) :
    Terminates (statementsPass (statement limit assembly)) done cursor
      (statements (statement limit assembly) cursor.rest.length done cursor) := by
  have leaves := statement_leaves limit assembly
  rw [statements_fuel leaves cursor.rest.length done cursor (Nat.le_refl _) (Nat.le_succ _)]
  exact (statements_drives leaves).terminates (statementsPass_advances leaves)
    (Nat.lt_succ_self _) done

section

variable (limit) (link? : Token → Option (α → β → α)) (operand : Parser β)

/-- One pass of a chain, by the links so far and their value: its end, or one more link. -/
def chainPass (state : Nat × α) : Parser ((Nat × α) ⊕ α) := do
  match (← peek).bind link? with
  | none =>
      ascend state.1
      return .inr state.2
  | some extend =>
      advance
      descend limit
      return .inl (state.1 + 1, extend state.2 (← operand))

variable {limit link? operand} (orderly : EndsOrderly operand)

include orderly

/-- A link takes its sign and a level, which its operand leaves charged. -/
theorem chainPass_link
    {state next : Nat × α} {cursor middle : Cursor}
    (run : chainPass limit link? operand state cursor = .ok (.inl next) middle) :
    middle.rest.length < cursor.rest.length ∧ cursor.depth < limit ∧
      middle.depth = cursor.depth + 1 := by
  unfold chainPass at run
  rw [peek_bind] at run
  cases found : cursor.rest.head?.bind link? with
  | none => simp [found] at run
  | some extend =>
      obtain ⟨token, headToken, _⟩ := Option.bind_eq_some_iff.1 found
      obtain ⟨rest, shape⟩ := List.head?_eq_some_iff.1 headToken
      simp only [found, advance_bind] at run
      rw [shape, List.tail_cons] at run
      obtain ⟨_, _, descended, linkRun⟩ := bind_eq_ok_iff.1 run
      obtain ⟨below, rfl⟩ := descend_eq_ok descended
      obtain ⟨right, _, operandRun, returned⟩ := bind_eq_ok_iff.1 linkRun
      cases returned
      have ended := orderly ⟨rest, cursor.depth + 1⟩
      rw [operandRun] at ended
      cases ended with
      | value sameDepth suffix =>
          refine ⟨?_, below, sameDepth⟩
          rw [shape, List.length_cons]
          exact Nat.lt_succ_of_le suffix.length_le

theorem chainPass_advances : Advances (chainPass limit link? operand) where
  atEnd state {cursor} nothing := by
    obtain ⟨rest, depth⟩ := cursor
    obtain rfl : rest = [] := nothing
    exact ⟨state.2, ⟨[], depth - state.1⟩, rfl⟩
  shorter run := (chainPass_link orderly run).1

/-- The fuel lasts as long as there are levels for links, whatever the number of tokens. -/
theorem chain_drives :
    Drives (chainPass limit link? operand)
      (fun fuel state => chain limit link? operand fuel state.1 state.2)
      fun fuel cursor => fuel ≠ 0 ∧ limit < fuel + cursor.depth where
  unfolds fuel state := by
    unfold chainPass
    rw [chain, bind_assoc]
    refine bind_congr fun next => ?_
    cases next.bind link? with
    | none => simp only [bind_assoc, pure_bind, Sum.elim_inr]
    | some extend => simp only [bind_assoc, pure_bind, Sum.elim_inl]
  positive enough := enough.1
  kept enough run := by
    -- A link uses up one unit of fuel and one level, so both run out together.
    obtain ⟨_, below, charged⟩ := chainPass_link orderly run
    omega

theorem leftChain_terminates (first : α) (cursor : Cursor) :
    Terminates (chainPass limit link? operand) (0, first) cursor
      (leftChain limit link? operand first cursor) := by
  have enough : limit - cursor.depth + 1 ≠ 0 ∧ limit < limit - cursor.depth + 1 + cursor.depth := by
    omega
  exact (chain_drives orderly).terminates (chainPass_advances orderly) enough (0, first)

end

section

variable (limit) (tables : τ → Assembly σ) (enter : τ → String → σ → τ)

/-- One pass of a program: its end, or one more item in the table. -/
def itemsPass (table : τ) : Parser (τ ⊕ τ) := do
  if (← peek).isNone then
    return .inr table
  else
    let (name, body) ← item limit (tables table)
    return .inl (enter table name body)

theorem itemsPass_run (table : τ) (cursor : Cursor) :
    itemsPass limit tables enter table cursor =
      if cursor.rest = [] then .ok (.inr table) cursor
      else
        (do
          let (name, body) ← item limit (tables table)
          return .inl (enter table name body) : Parser (τ ⊕ τ)) cursor := by
  rcases cursor with ⟨_ | ⟨token, rest⟩, depth⟩ <;> rfl

variable {limit tables enter}

theorem itemsPass_shorter
    {table next : τ} {cursor middle : Cursor}
    (run : itemsPass limit tables enter table cursor = .ok (.inl next) middle) :
    middle.rest.length < cursor.rest.length := by
  rw [itemsPass_run] at run
  split at run
  next => cases run
  next ahead =>
    obtain ⟨defined, _, itemRun, returned⟩ := bind_eq_ok_iff.1 run
    cases returned
    exact item_shorter ahead itemRun

theorem itemsPass_advances : Advances (itemsPass limit tables enter) where
  atEnd table {cursor} nothing := by
    refine ⟨table, cursor, ?_⟩
    rw [itemsPass_run, if_pos nothing]
  shorter := itemsPass_shorter

theorem items_drives :
    Drives (itemsPass limit tables enter) (items limit tables enter) fun fuel cursor =>
      cursor.rest.length < fuel where
  unfolds fuel table := by
    unfold itemsPass
    rw [items, bind_assoc]
    refine bind_congr fun next => ?_
    split <;> simp only [bind_assoc, pure_bind, Sum.elim_inl, Sum.elim_inr]
  positive := Nat.ne_zero_of_lt
  kept enough run := Nat.lt_of_lt_of_le (itemsPass_shorter run) (Nat.le_of_lt_succ enough)

theorem items_terminates (table : τ) (cursor : Cursor) :
    Terminates (itemsPass limit tables enter) table cursor
      (items limit tables enter cursor.rest.length table cursor) := by
  rw [items_fuel cursor.rest.length table cursor (Nat.le_refl _) (Nat.le_succ _)]
  exact items_drives.terminates itemsPass_advances (Nat.lt_succ_self _) table

end

/-- Every part but a block takes a token, by the phrase that it reads. -/
theorem Part.leaves
    (limit : Nat) (assembly : Assembly σ) (part : Part σ α) (takes : 0 < part.fewest) :
    Leaves 1 (part.parser limit assembly) := by
  have ranks := ofRank_reads limit
  have inner := statement_leaves limit assembly
  cases part with
  | block => exact absurd takes (Nat.lt_irrefl 0)
  | statement => exact inner
  | branch => exact branch_leaves inner
  | loop => exact loop_leaves inner
  | assignment => exact assignment_leaves assembly limit
  | condition => exact condition_leaves limit
  | expression => exact expression_leaves limit
  | choice => exact .ofFits (choice_reads ranks)
  | disjunction => exact .ofFits (disjunction_reads ranks)
  | conjunction => exact .ofFits (conjunction_reads ranks)
  | negation => exact .ofFits (negation_reads ranks)
  | comparison => exact .ofFits (comparison_reads ranks)
  | sum => exact .ofFits (sum_reads ranks)
  | product => exact .ofFits (product_reads ranks)
  | primary => exact .ofFits (primary_reads ranks)
  | parenthesized => exact condition_leaves limit
  | index => exact .ofFits (index_reads ranks)
  | reference => exact reference_leaves limit

/-- Only a block can do without a token of its own, and it takes one where there is one. -/
theorem Part.shorter
    {assembly : Assembly σ} (part : Part σ α) {cursor after : Cursor} {value : α}
    (run : part.parser limit assembly cursor = .ok value after)
    (ahead : 0 < part.fewest ∨ cursor.rest ≠ []) : after.rest.length < cursor.rest.length := by
  by_cases takes : 0 < part.fewest
  · exact (part.leaves limit assembly takes _ _ _ run).shorter
  · cases part with
    | block =>
        have nonempty := ahead.resolve_left takes
        exact block_shorter (statement_leaves limit assembly) nonempty run
    | _ => exact absurd Nat.one_pos takes

theorem Part.properSuffix
    {assembly : Assembly σ} (part : Part σ α) {cursor after : Cursor} {value : α}
    (run : part.parser limit assembly cursor = .ok value after)
    (ahead : 0 < part.fewest ∨ cursor.rest ≠ []) :
    after.rest <:+ cursor.rest ∧ after.rest ≠ cursor.rest := by
  have shorter := part.shorter run ahead
  have ended := part.orderly limit assembly cursor
  rw [run] at ended
  cases ended with
  | value _ suffix =>
      refine ⟨suffix, fun same => ?_⟩
      rw [same] at shorter
      exact absurd shorter (Nat.lt_irrefl _)

/-- The loop of such a chain ends from everywhere, as the chain does. -/
def ChainEnds (limit : Nat) (link? : Token → Option (α → β → α)) (operand : Parser β) : Prop :=
  ∀ first cursor, Terminates (chainPass limit link? operand) (0, first) cursor
    (leftChain limit link? operand first cursor)

/-- Every part that succeeds leaves a proper suffix of the tokens, the empty block apart. So the
loops of a block, of sums, products and indices and of a program end under every limit, after no
more passes than there are tokens, and the recursion goes at most one level deeper than their
number. -/
theorem parsers_progress (limit : Nat) (assembly : Assembly σ) :
    (∀ {α : Type} (part : Part σ α) {cursor after : Cursor} {value : α},
      part.parser limit assembly cursor = .ok value after →
      0 < part.fewest ∨ cursor.rest ≠ [] →
        after.rest <:+ cursor.rest ∧ after.rest ≠ cursor.rest) ∧
    (∀ cursor, Terminates (statementsPass (statement limit assembly)) [] cursor
      (statements (statement limit assembly) cursor.rest.length [] cursor)) ∧
    ChainEnds limit (fun token => (sumOp? token).map Expr.binary) (product limit (ofRank limit)) ∧
    ChainEnds limit (fun token => (productOp? token).map Expr.binary)
      (primary limit (ofRank limit)) ∧
    ChainEnds limit (fun token => if token = .at then some Ref.indexed else none)
      (index (ofRank limit)) ∧
    (∀ tokens, ∃ outcome,
      Terminates (itemsPass limit .ofProgram Program.define) .empty ⟨tokens, 0⟩ outcome ∧
        match outcome with
        | .ok program _ => Program.ofTokens limit tokens = .ok program
        | .error failure _ => Program.ofTokens limit tokens = .error failure) ∧
    (∀ rank cursor,
      ofRank limit rank cursor = within limit (cursor.rest.length + 1) rank cursor) ∧
    ∀ cursor, statement limit assembly cursor =
      statementWithin limit assembly (cursor.rest.length + 1) cursor := by
  refine ⟨Part.properSuffix, statements_terminates limit assembly [], ?_, ?_, ?_,
    fun tokens => ?_, ofRank_run limit, statement_run assembly limit⟩
  · exact leftChain_terminates (Part.product.orderly limit assembly)
  · exact leftChain_terminates (Part.primary.orderly limit assembly)
  · exact leftChain_terminates (Part.index.orderly limit assembly)
  · refine ⟨_, items_terminates Program.empty ⟨tokens, 0⟩, ?_⟩
    unfold Program.ofTokens
    cases items limit .ofProgram Program.define tokens.length .empty ⟨tokens, 0⟩ <;> rfl

/-- A block passes the brace that closes it and leaves what stands behind. -/
theorem parsers_progress_closing :
    block (.ofProgram .empty) (statement 2 (.ofProgram .empty))
        ⟨[.identifier "x", .increment, .semicolon, .rightBrace, .identifier "y"], 1⟩ =
      .ok (.block [.assign (.plain "x") (.binary .add (.reference (.plain "x")) (.literal 1))])
        ⟨[.identifier "y"], 1⟩ ∧
    [Token.identifier "y"] <:+
      [.identifier "x", .increment, .semicolon, .rightBrace, .identifier "y"] ∧
    [Token.identifier "y"] ≠
      [.identifier "x", .increment, .semicolon, .rightBrace, .identifier "y"] := by
  have run : block (.ofProgram .empty) (statement 2 (.ofProgram .empty))
      ⟨[.identifier "x", .increment, .semicolon, .rightBrace, .identifier "y"], 1⟩ =
    .ok (.block [.assign (.plain "x") (.binary .add (.reference (.plain "x")) (.literal 1))])
      ⟨[.identifier "y"], 1⟩ := rfl
  exact ⟨run, (parsers_progress 2 (.ofProgram .empty)).1 .block run (.inr (by simp))⟩

end Slate.Grammar
