import Slate.Grammar.Program
import Slate.Proofs.Grammar.Soundness

/-!
Statements and programs. The first part writes out on the cursor how the parsers branch on the
tokens ahead. The second part says what can be said of everything they put together: a property of
assembled statements that each way of assembly preserves holds of whatever the parsers return.
-/

set_option autoImplicit false

namespace Slate.Grammar

section

variable {σ : Type} (limit : Nat) (assembly : Assembly σ) (inner : Parser σ)

theorem call_run (name : String) :
    call assembly name =
      expect .semicolon .semicolonAfterCall >>= fun _ cursor =>
        match assembly.call? name with
        | some body => .ok body cursor
        | none => .error (.undefinedProcedure name) cursor := by
  unfold call
  cases assembly.call? name <;> rfl

theorem statements_run (fuel : Nat) (done : List σ) (cursor : Cursor) :
    statements inner (fuel + 1) done cursor =
      match cursor.rest with
      | [] => .ok done.reverse cursor
      | .rightBrace :: rest => .ok done.reverse ⟨rest, cursor.depth⟩
      | _ :: _ => (inner >>= fun statement => statements inner fuel (statement :: done)) cursor := by
  rcases cursor with ⟨_ | ⟨token, rest⟩, depth⟩
  · rfl
  · cases token <;> rfl

theorem statementHere_run (cursor : Cursor) :
    statementHere limit assembly inner cursor =
      match cursor.rest with
      | .procedure name :: rest => call assembly name ⟨rest, cursor.depth⟩
      | .leftBrace :: rest => block assembly inner ⟨rest, cursor.depth⟩
      | .identifier name :: rest =>
          if name = "if" then branch limit assembly inner ⟨rest, cursor.depth⟩
          else if name = "while" then loop limit assembly inner ⟨rest, cursor.depth⟩
          else assignment limit assembly cursor
      | _ => unexpected .statement cursor := by
  rcases cursor with ⟨_ | ⟨token, rest⟩, depth⟩
  · rfl
  cases token with
  | identifier name =>
      by_cases isIf : name = "if"
      · subst isIf
        rfl
      by_cases isWhile : name = "while"
      · subst isWhile
        rfl
      unfold statementHere
      rw [peek_bind]
      simp [isIf, isWhile]
  | _ => rfl

theorem item_run (cursor : Cursor) :
    item limit assembly cursor =
      match cursor.rest with
      | .procedure name :: .colon :: rest =>
          (do return (name, ← statement limit assembly) : Parser _) ⟨rest, cursor.depth⟩
      | _ =>
          (do return (Program.mainName, ← block assembly (statement limit assembly)) : Parser _)
            cursor := by
  unfold item
  rw [get_bind]
  rcases cursor with ⟨_ | ⟨token, _ | ⟨next, rest⟩⟩, depth⟩
  · rfl
  · cases token <;> rfl
  · cases token with
    | procedure name => cases next <;> rfl
    | _ => rfl

theorem item_run_of_main
    {cursor : Cursor} (noDefinition : ∀ name, ¬ [.procedure name, .colon] <+: cursor.rest) :
    item limit assembly cursor =
      (do return (Program.mainName, ← block assembly (statement limit assembly)) : Parser _)
        cursor := by
  rw [item_run]
  split
  next name rest shape => exact absurd ⟨rest, shape.symm⟩ (noDefinition name)
  next => rfl

/-- Tokens behind others make a definition of them only where the name of one stands alone. -/
theorem definition_of_append
    {tokens more : List Token} {name : String}
    (begins : [.procedure name, .colon] <+: tokens ++ more) :
    tokens = [] ∨ tokens = [.procedure name] ∨ [.procedure name, .colon] <+: tokens := by
  rcases tokens with _ | ⟨token, _ | ⟨next, rest⟩⟩
  · exact .inl rfl
  · obtain ⟨rfl, _⟩ := List.cons_prefix_cons.1 begins
    exact .inr (.inl rfl)
  · simp only [List.cons_append, List.cons_prefix_cons] at begins ⊢
    exact .inr (.inr ⟨begins.1, begins.2.1, List.nil_prefix⟩)

theorem items_run
    {τ : Type} (assembly : τ → Assembly σ) (enter : τ → String → σ → τ) (fuel : Nat) (table : τ)
    (cursor : Cursor) :
    items limit assembly enter (fuel + 1) table cursor =
      if cursor.rest = [] then .ok table cursor
      else
        (item limit (assembly table) >>= fun defined =>
          items limit assembly enter fuel (enter table defined.1 defined.2)) cursor := by
  rcases cursor with ⟨_ | ⟨token, rest⟩, depth⟩ <;> rfl

theorem assignedValue_run (target : Ref) (cursor : Cursor) :
    assignedValue limit target cursor =
      match cursor.rest with
      | .assign :: rest => expression limit ⟨rest, cursor.depth⟩
      | .increment :: rest =>
          .ok (.binary .add (.reference target) (.literal 1)) ⟨rest, cursor.depth⟩
      | .decrement :: rest =>
          .ok (.binary .subtract (.reference target) (.literal 1)) ⟨rest, cursor.depth⟩
      | token :: rest =>
          match compoundOp? token with
          | some op =>
              (do return Expr.binary op (.reference target) (← expression limit) : Parser Expr)
                ⟨rest, cursor.depth⟩
          | none => .error (.notAssignment token) cursor
      | [] => unexpected .assignmentOperator cursor := by
  rcases cursor with ⟨_ | ⟨token, rest⟩, depth⟩
  · rfl
  · cases token <;> rfl

end

section

variable {limit : Nat}

/-- What an assignment at the given depth may give to its target. -/
inductive Assigned (limit depth : Nat) (target : Ref) : Expr → Prop
  | set {word : List Token} {value : Expr} :
      FitsInside limit .choice depth word value → Assigned limit depth target value
  | step (op : BinaryOp) : Assigned limit depth target (.binary op (.reference target) (.literal 1))
  | compound {word : List Token} {value : Expr} (op : BinaryOp) :
      FitsInside limit .choice depth word value →
        Assigned limit depth target (.binary op (.reference target) value)

theorem assignedValue_reads (target : Ref) :
    Reads (assignedValue limit target)
      (fun depth _ value => Assigned limit depth target value) := by
  intro cursor value after run
  rw [assignedValue_run] at run
  split at run
  next rest shape =>
    rcases (expression_reads limit).behind shape run with ⟨sameDepth, word, restShape, fits⟩
    exact ⟨sameDepth, .assign :: word, restShape, .set fits⟩
  next rest shape =>
    cases run
    exact ⟨rfl, [.increment], shape, .step .add⟩
  next rest shape =>
    cases run
    exact ⟨rfl, [.decrement], shape, .step .subtract⟩
  next token rest _ _ _ shape =>
    split at run
    next op _ =>
      have reads := (expression_reads limit).map (Expr.binary op (.reference target))
      rcases reads.behind shape run with ⟨sameDepth, word, restShape, operand, fits, rfl⟩
      exact ⟨sameDepth, token :: word, restShape, .compound op fits⟩
    next => cases run
  next => simp [unexpected_run] at run

theorem condition_reads :
    Reads (condition limit) (fun depth _ value =>
      ∃ word, FitsInside limit .choice depth word value) := by
  refine (parenthesized_reads (ofRank_reads limit)).weaken ?_
  rintro depth _ value ⟨inside, _, fits⟩
  exact ⟨inside, fits⟩

variable {σ : Type}

/-- Holds one level further in. -/
def Inside (limit : Nat) (holds : Nat → σ → Prop) (depth : Nat) (value : σ) : Prop :=
  depth < limit ∧ holds (depth + 1) value

/-- Every way of assembly but assignment, at every depth, preserves the property, which may depend
on the depth. The parts of a statement stand one level further in. -/
structure Assembly.PreservesParts (limit : Nat) (assembly : Assembly σ) (holds : Nat → σ → Prop) :
    Prop where
  block {depth : Nat} {body : List σ} :
    (∀ part ∈ body, Inside limit holds depth part) → holds depth (assembly.block body)
  branch {depth : Nat} {word : List Token} {condition : Expr} {accepted rejected : σ} :
    FitsInside limit .choice depth word condition → Inside limit holds depth accepted →
      Inside limit holds depth rejected → holds depth (assembly.branch condition accepted rejected)
  loop {depth : Nat} {word : List Token} {condition : Expr} {body : σ} :
    FitsInside limit .choice depth word condition → Inside limit holds depth body →
      holds depth (assembly.loop condition body)
  call {depth : Nat} {name : String} {body : σ} :
    assembly.call? name = some body → holds depth body

/-- Assignment preserves the property as well. -/
structure Assembly.Preserves (limit : Nat) (assembly : Assembly σ) (holds : Nat → σ → Prop) : Prop
    extends assembly.PreservesParts limit holds where
  assign {depth : Nat} {word : List Token} {target : Ref} {value : Expr} :
    Fits limit .reference depth word (.reference target) → Assigned limit depth target value →
      holds depth (assembly.assign target value)

/-- Assignment preserves the property if the target is read from admitted tokens. -/
structure Assembly.PreservesAmong (admits : Token → Prop) (limit : Nat) (assembly : Assembly σ)
    (holds : Nat → σ → Prop) : Prop extends assembly.PreservesParts limit holds where
  assign {depth : Nat} {word : List Token} {target : Ref} {value : Expr} :
    (∀ token ∈ word, admits token) → Fits limit .reference depth word (.reference target) →
      Assigned limit depth target value → holds depth (assembly.assign target value)

theorem Assembly.Preserves.among
    {assembly : Assembly σ} {holds : Nat → σ → Prop} (preserves : assembly.Preserves limit holds) :
    assembly.PreservesAmong (fun _ => True) limit holds where
  toPreservesParts := preserves.toPreservesParts
  assign _ := preserves.assign

/-- Holds of what is read from admitted tokens. -/
def Among {α : Type} (admits : Token → Prop) (holds : Nat → α → Prop) (depth : Nat)
    (word : List Token) (value : α) : Prop :=
  (∀ token ∈ word, admits token) → holds depth value

variable {admits : Token → Prop} {assembly : Assembly σ} {inner : Parser σ}
  {holds : Nat → σ → Prop}

theorem statements_reads
    (innerReads : Reads inner (Among admits (Inside limit holds))) (fuel : Nat) (done : List σ) :
    Reads (statements inner fuel done) (Among admits fun depth values =>
      (∀ part ∈ done, Inside limit holds depth part) →
        ∀ part ∈ values, Inside limit holds depth part) := by
  induction fuel generalizing done with
  | zero =>
      refine (Reads.pure done.reverse).weaken ?_
      rintro depth _ _ ⟨rfl, rfl⟩ _ doneHolds part member
      exact doneHolds part (List.mem_reverse.1 member)
  | succ fuel inductionHypothesis =>
      intro cursor values after run
      rw [statements_run] at run
      split at run
      next =>
        cases run
        exact ⟨rfl, [], rfl, fun _ doneHolds part member =>
          doneHolds part (List.mem_reverse.1 member)⟩
      next rest shape =>
        cases run
        exact ⟨rfl, [.rightBrace], shape, fun _ doneHolds part member =>
          doneHolds part (List.mem_reverse.1 member)⟩
      next =>
        have reads := innerReads.bind fun statement => inductionHypothesis (statement :: done)
        rcases reads cursor values after run with
          ⟨sameDepth, _, shape, statement, first, second, rfl, statementHolds, follow⟩
        refine ⟨sameDepth, _, shape, fun admitted doneHolds => ?_⟩
        obtain ⟨firstAdmitted, secondAdmitted⟩ := List.forall_mem_append.1 admitted
        exact follow secondAdmitted
          (List.forall_mem_cons.2 ⟨statementHolds firstAdmitted, doneHolds⟩)

theorem block_reads (innerReads : Reads inner (Among admits (Inside limit holds))) :
    Reads (block assembly inner) (Among admits fun depth value =>
      ∃ body, value = assembly.block body ∧ ∀ part ∈ body, Inside limit holds depth part) := by
  intro cursor value after run
  unfold block at run
  rw [get_bind] at run
  rcases (statements_reads innerReads _ []).map assembly.block _ _ _ run with
    ⟨sameDepth, word, shape, body, bodyHolds, rfl⟩
  exact ⟨sameDepth, word, shape, fun admitted =>
    ⟨body, rfl, bodyHolds admitted (List.forall_mem_nil _)⟩⟩

section

variable (preserves : assembly.PreservesAmong admits limit holds)

include preserves

theorem assignment_reads : Reads (assignment limit assembly) (Among admits holds) := by
  unfold assignment
  refine ((reference_reads (ofRank_reads limit)).bind fun target =>
    (assignedValue_reads target).bind fun value =>
      (Reads.expect .semicolon .semicolon).bind fun _ =>
        Reads.pure (assembly.assign target value)).weaken ?_
  rintro depth _ _
    ⟨target, _, _, rfl, fits, value, _, _, _, assigned, _, _, _, _, _, _, rfl⟩ admitted
  exact preserves.assign (List.forall_mem_append.1 admitted).1 fits assigned

theorem call_reads (name : String) : Reads (call assembly name) (Among admits holds) := by
  unfold call
  cases found : assembly.call? name with
  | none =>
      intro cursor value after run
      rcases bind_eq_ok_iff.1 run with ⟨_, _, _, fails⟩
      cases fails
  | some body =>
      refine ((Reads.expect .semicolon .semicolonAfterCall).bind fun _ =>
        Reads.pure body).weaken ?_
      rintro depth _ _ ⟨_, _, _, _, _, _, rfl⟩ _
      exact preserves.call found

variable (innerReads : Reads inner (Among admits (Inside limit holds)))

include innerReads

theorem branch_reads : Reads (branch limit assembly inner) (Among admits holds) := by
  unfold branch
  refine (condition_reads.bind fun condition => innerReads.bind fun accepted =>
    Reads.ifNext _ (innerReads.map (assembly.branch condition accepted))
      (Reads.pure (assembly.branch condition accepted (assembly.block [])))).weaken ?_
  rintro depth _ _ ⟨condition, _, _, rfl, ⟨word, fits⟩, accepted, _, _, rfl, acceptedReads, rest⟩
    admitted
  obtain ⟨acceptedAdmitted, restAdmitted⟩ :=
    List.forall_mem_append.1 (List.forall_mem_append.1 admitted).2
  have acceptedHolds := acceptedReads acceptedAdmitted
  rcases rest with ⟨_, rfl, rejected, rejectedReads, rfl⟩ | ⟨_, rfl⟩
  · exact preserves.branch fits acceptedHolds
      (rejectedReads (List.forall_mem_cons.1 restAdmitted).2)
  · have nothing : Inside limit holds depth (assembly.block []) :=
      ⟨acceptedHolds.1, preserves.block (List.forall_mem_nil _)⟩
    exact preserves.branch fits acceptedHolds nothing

theorem loop_reads : Reads (loop limit assembly inner) (Among admits holds) := by
  unfold loop
  refine (condition_reads.bind fun condition => innerReads.map (assembly.loop condition)).weaken ?_
  rintro depth _ _ ⟨condition, _, _, rfl, ⟨word, fits⟩, body, bodyReads, rfl⟩ admitted
  exact preserves.loop fits (bodyReads (List.forall_mem_append.1 admitted).2)

theorem statementHere_reads :
    Reads (statementHere limit assembly inner) (Among admits holds) := by
  intro cursor value after run
  rw [statementHere_run] at run
  split at run
  next name rest shape =>
    rcases (call_reads preserves name).behind shape run with ⟨sameDepth, word, restShape, kept⟩
    exact ⟨sameDepth, _, restShape, fun admitted => kept (List.forall_mem_cons.1 admitted).2⟩
  next rest shape =>
    rcases (block_reads innerReads).behind shape run with ⟨sameDepth, word, restShape, blockReads⟩
    refine ⟨sameDepth, _, restShape, fun admitted => ?_⟩
    obtain ⟨body, rfl, bodyHolds⟩ := blockReads (List.forall_mem_cons.1 admitted).2
    exact preserves.block bodyHolds
  next name rest shape =>
    split at run
    next =>
      rcases (branch_reads preserves innerReads).behind shape run with
        ⟨sameDepth, word, restShape, kept⟩
      exact ⟨sameDepth, _, restShape, fun admitted => kept (List.forall_mem_cons.1 admitted).2⟩
    next =>
      split at run
      next =>
        rcases (loop_reads preserves innerReads).behind shape run with
          ⟨sameDepth, word, restShape, kept⟩
        exact ⟨sameDepth, _, restShape, fun admitted => kept (List.forall_mem_cons.1 admitted).2⟩
      next => exact assignment_reads preserves cursor value after run
  next => simp [unexpected_run] at run

end

section

variable (preserves : assembly.PreservesAmong admits limit holds)

include preserves

theorem statementWithin_reads (levels : Nat) :
    Reads (statementWithin limit assembly levels) (Among admits (Inside limit holds)) := by
  induction levels with
  | zero =>
      intro cursor value after run
      cases run
  | succ levels inductionHypothesis =>
      refine ((statementHere_reads preserves inductionHypothesis).nested limit).weaken ?_
      rintro depth word value ⟨below, reads⟩ admitted
      exact ⟨below, reads admitted⟩

theorem statement_reads :
    Reads (statement limit assembly) (Among admits (Inside limit holds)) := by
  intro cursor value after run
  exact statementWithin_reads preserves _ cursor value after run

/-- An item is a statement one level in, or a block of such statements. -/
theorem item_reads :
    Reads (item limit assembly) (Among admits fun depth defined =>
      Inside limit holds depth defined.2 ∨
        ∃ body, defined.2 = assembly.block body ∧
          ∀ part ∈ body, Inside limit holds depth part) := by
  intro cursor defined after run
  rw [item_run] at run
  split at run
  next name rest shape =>
    rcases (statement_reads preserves).map (Prod.mk name) _ _ _ run with
      ⟨sameDepth, word, restShape, body, bodyReads, rfl⟩
    simp only at restShape
    refine ⟨sameDepth, .procedure name :: .colon :: word, by rw [shape, restShape]; rfl, ?_⟩
    exact fun admitted =>
      .inl (bodyReads (List.forall_mem_cons.1 (List.forall_mem_cons.1 admitted).2).2)
  next =>
    rcases (block_reads (statement_reads preserves)).map (Prod.mk Program.mainName) _ _ _ run with
      ⟨sameDepth, word, shape, _, blockReads, rfl⟩
    exact ⟨sameDepth, word, shape, fun admitted => .inr (blockReads admitted)⟩

end

/-- What entering one item preserves, all items together preserve, if their tokens are admitted. -/
theorem items_reads_among
    {τ : Type} {assembly : τ → Assembly σ} {enter : τ → String → σ → τ} {kept : τ → Prop}
    (preserves : ∀ table, kept table → (assembly table).PreservesAmong admits limit holds)
    (step : ∀ table name body depth, kept table →
      (Inside limit holds depth body ∨ ∃ parts, body = (assembly table).block parts ∧
        ∀ part ∈ parts, Inside limit holds depth part) →
      kept (enter table name body))
    (fuel : Nat) {table : τ} (tableKept : kept table) :
    ∀ cursor result after, items limit assembly enter fuel table cursor = .ok result after →
      (∀ token ∈ cursor.rest, admits token) → kept result := by
  induction fuel generalizing table with
  | zero =>
      intro cursor result after run _
      cases run
      exact tableKept
  | succ fuel inductionHypothesis =>
      intro cursor result after run admitted
      rw [items_run] at run
      split at run
      next =>
        cases run
        exact tableKept
      next =>
        rcases bind_eq_ok_iff.1 run with ⟨defined, middle, itemRun, itemsRun⟩
        rcases item_reads (preserves table tableKept) _ _ _ itemRun with
          ⟨_, first, shape, itemReads⟩
        rw [shape] at admitted
        obtain ⟨firstAdmitted, restAdmitted⟩ := List.forall_mem_append.1 admitted
        have entered := step table defined.1 defined.2 _ tableKept (itemReads firstAdmitted)
        exact inductionHypothesis entered _ _ _ itemsRun restAdmitted

/-- Nothing need be known of the tokens for a property that every assignment has. -/
theorem items_reads
    {τ : Type} {assembly : τ → Assembly σ} {enter : τ → String → σ → τ} {kept : τ → Prop}
    (preserves : ∀ table, kept table → (assembly table).Preserves limit holds)
    (step : ∀ table name body depth, kept table →
      (Inside limit holds depth body ∨ ∃ parts, body = (assembly table).block parts ∧
        ∀ part ∈ parts, Inside limit holds depth part) →
      kept (enter table name body))
    (fuel : Nat) {table : τ} (tableKept : kept table) {cursor after : Cursor} {result : τ}
    (run : items limit assembly enter fuel table cursor = .ok result after) : kept result :=
  items_reads_among (fun table tableKept => (preserves table tableKept).among) step fuel tableKept
    _ _ _ run fun _ _ => trivial

end

end Slate.Grammar
