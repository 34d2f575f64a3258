import Slate.Proofs.Grammar.Passing

/-!
Assignments that change their target, and the long form that writes the target out again. The short
form puts its tree together by itself, while the long form is read through all levels of the
grammar. With enough levels left both are the same statement.

What is read up to the end of its tokens has a derivation, and a derivation says nothing about the
depth where it is read or about what follows it. So the target and the operand are taken apart from
the runs that read them, and each form is put together from their derivations.
-/

set_option autoImplicit false

namespace Slate.Grammar

variable {α σ : Type}

/-- `Combines combined sign op`: the combined sign assigns what the sign of the operator makes of
the target and an operand. -/
inductive Combines : Token → Token → BinaryOp → Prop
  | add : Combines .plusAssign .plus .add
  | subtract : Combines .minusAssign .minus .subtract
  | multiply : Combines .starAssign .star .multiply
  | divide : Combines .slashAssign .slash .divide
  | modulo : Combines .percentAssign .percent .modulo

/-- With enough levels left both words are read as the statement, whatever follows them. -/
def BothPass (first second : List Token) (tree : Stmt) : Prop :=
  ∃ room, ∀ (program : Program) (limit depth : Nat), depth + room ≤ limit →
    Passes (statement limit (.ofProgram program)) depth first tree ∧
      Passes (statement limit (.ofProgram program)) depth second tree

/-- A parser that stops at the end of the tokens has passed them all. -/
theorem Reads.whole
    {parser : Parser α} {phrase : Nat → List Token → α → Prop} (reads : Reads parser phrase)
    {word : List Token} {value : α} {depth after : Nat}
    (run : parser ⟨word, depth⟩ = .ok value ⟨[], after⟩) : phrase depth word value := by
  obtain ⟨_, passed, shape, holds⟩ := reads _ _ _ run
  simp only [List.append_nil] at shape
  rw [shape]
  exact holds

theorem nonempty_derivation_reference
    {limit depth after : Nat} {word : List Token} {target : Ref}
    (run : reference limit (ofRank limit) ⟨word, depth⟩ = .ok target ⟨[], after⟩) :
    Nonempty (Derivation .reference word (.reference target)) := by
  obtain ⟨derivation, _⟩ := (reference_reads (ofRank_reads limit)).whole run
  exact ⟨derivation⟩

theorem nonempty_derivation_expression
    {limit depth after : Nat} {word : List Token} {value : Expr}
    (run : expression limit ⟨word, depth⟩ = .ok value ⟨[], after⟩) :
    Nonempty (Derivation .choice word value) := by
  obtain ⟨derivation, _⟩ := ((expression_reads limit).whole run).derivation
  exact ⟨derivation⟩

theorem nonempty_derivation_arithmetic
    {op : BinaryOp} (arithmetic : op.category = .sum ∨ op.category = .product)
    {first second : List Token} {left right : Expr}
    (leftPart : Derivation .primary first left) (rightPart : Derivation .primary second right) :
    Nonempty (Derivation .choice (first ++ op.sign :: second) (.binary op left right)) := by
  suffices Nonempty (Derivation .sum (first ++ op.sign :: second) (.binary op left right)) by
    obtain ⟨part⟩ := this
    exact ⟨.ofDisjunction (.ofConjunction (.ofNegation (.ofComparison (.ofSum part))))⟩
  rcases arithmetic with adds | multiplies
  · exact ⟨.add op adds (.ofProduct (.ofPrimary leftPart)) (.ofPrimary rightPart)⟩
  · exact ⟨.ofProduct (.multiply op multiplies (.ofPrimary leftPart) rightPart)⟩

theorem Combines.compoundOp?_eq
    {combined sign : Token} {op : BinaryOp} (combines : Combines combined sign op) :
    compoundOp? combined = some op := by
  cases combines <;> rfl

theorem Combines.sign_eq
    {combined sign : Token} {op : BinaryOp} (combines : Combines combined sign op) :
    op.sign = sign := by
  cases combines <;> rfl

theorem Combines.arithmetic
    {combined sign : Token} {op : BinaryOp} (combines : Combines combined sign op) :
    op.category = .sum ∨ op.category = .product := by
  cases combines <;> decide

section

variable {word : List Token} {target : Ref}
  (derivation : Derivation .reference word (.reference target))
  (notIf : word.head? ≠ some (.identifier "if"))
  (notWhile : word.head? ≠ some (.identifier "while"))

include derivation notIf notWhile

/-- A statement that begins with a target is an assignment, one level further in. -/
theorem statement_assignment_passes
    {limit depth : Nat} {assembly : Assembly σ} {more : List Token} {tree : σ}
    (below : depth < limit)
    (passes : Passes (assignment limit assembly) (depth + 1) (word ++ more) tree) :
    Passes (statement limit assembly) depth (word ++ more) tree := by
  obtain ⟨token, further, rfl, opens⟩ := derivation.begins
  cases token with
  | identifier name =>
      apply statement_passes below
      apply statementHere_assignment_passes _ _ passes
      · simpa using notIf
      · simpa using notWhile
  | _ => cases opens

/-- The long form stands for every short form that gives the target the same value, once there are
levels enough for both. -/
theorem bothPass_of_short
    {op : BinaryOp} (arithmetic : op.category = .sum ∨ op.category = .product)
    {operandWord short : List Token} {operand : Expr}
    (operandPart : Derivation .primary operandWord operand) (shortRoom : Nat)
    (shortPasses : ∀ {limit depth : Nat} (assembly : Assembly Stmt), depth + shortRoom ≤ limit →
      Passes (assignment limit assembly) depth (word ++ short)
        (assembly.assign target (.binary op (.reference target) operand))) :
    BothPass (word ++ short)
      (word ++ .assign :: (word ++ op.sign :: operandWord ++ [.semicolon]))
      (.assign target (.binary op (.reference target) operand)) := by
  obtain ⟨value⟩ := nonempty_derivation_arithmetic arithmetic (.ofReference derivation) operandPart
  have targetNeed := derivation.need_le_length
  -- The statement itself takes one level and its right-hand side another.
  refine ⟨word.length + value.need + shortRoom + 2, ?_⟩
  intro program limit depth room
  have below : depth < limit := by omega
  constructor
  · apply statement_assignment_passes derivation notIf notWhile below
    exact shortPasses (.ofProgram program) (by omega)
  · apply statement_assignment_passes derivation notIf notWhile below
    exact assignment_set_passes derivation (by omega) value (by omega)

/-- A sign that takes no operand stands for an operator and the operand 1. -/
theorem bothPass_step
    {op : BinaryOp} (arithmetic : op.category = .sum ∨ op.category = .product) {sign : Token}
    (foreign : sign ≠ .at)
    (assigned : ∀ (limit depth : Nat) (rest : List Token),
      assignedValue limit target ⟨sign :: rest, depth⟩ =
        .ok (.binary op (.reference target) (.literal 1)) ⟨rest, depth⟩) :
    BothPass (word ++ [sign, .semicolon])
      (word ++ .assign :: (word ++ [op.sign, .number 1, .semicolon]))
      (.assign target (.binary op (.reference target) (.literal 1))) := by
  have targetNeed := derivation.need_le_length
  have shortPasses {limit depth : Nat} (assembly : Assembly Stmt)
      (room : depth + word.length ≤ limit) :
      Passes (assignment limit assembly) depth (word ++ sign :: ([] ++ [.semicolon]))
        (assembly.assign target (.binary op (.reference target) (.literal 1))) := by
    apply assignment_passes derivation (by omega) foreign
    intro rest
    exact assigned limit depth (.semicolon :: rest)
  simpa using bothPass_of_short derivation notIf notWhile arithmetic (.number 1) word.length
    shortPasses

end

/-- A target behind which an operator and `=` are written as one sign is read as if the target were
written out again, with the operand in parentheses. A target behind `++` or `--` is read as if one
were added to it or subtracted from it. -/
theorem statement_long_form
    {word : List Token} {target : Ref} {limit depth after : Nat}
    (targetRun : reference limit (ofRank limit) ⟨word, depth⟩ = .ok target ⟨[], after⟩)
    (notIf : word.head? ≠ some (.identifier "if"))
    (notWhile : word.head? ≠ some (.identifier "while")) :
    (∀ {operandWord : List Token} {operand : Expr} {limit depth after : Nat},
      expression limit ⟨operandWord, depth⟩ = .ok operand ⟨[], after⟩ →
        ∀ {combined sign : Token} {op : BinaryOp}, Combines combined sign op →
          BothPass (word ++ combined :: (operandWord ++ [.semicolon]))
            (word ++ .assign ::
              (word ++ sign :: .leftParen :: (operandWord ++ [.rightParen, .semicolon])))
            (.assign target (.binary op (.reference target) operand))) ∧
      BothPass (word ++ [.increment, .semicolon])
        (word ++ .assign :: (word ++ [.plus, .number 1, .semicolon]))
        (.assign target (.binary .add (.reference target) (.literal 1))) ∧
      BothPass (word ++ [.decrement, .semicolon])
        (word ++ .assign :: (word ++ [.minus, .number 1, .semicolon]))
        (.assign target (.binary .subtract (.reference target) (.literal 1))) := by
  obtain ⟨derivation⟩ := nonempty_derivation_reference targetRun
  have targetNeed := derivation.need_le_length
  refine ⟨?_, ?_, ?_⟩
  · intro operandWord operand _ _ _ operandRun combined sign op combines
    obtain ⟨operandPart⟩ := nonempty_derivation_expression operandRun
    have shortPasses {limit depth : Nat} (assembly : Assembly Stmt)
        (room : depth + (word.length + operandPart.need + 1) ≤ limit) :
        Passes (assignment limit assembly) depth (word ++ combined :: (operandWord ++ [.semicolon]))
          (assembly.assign target (.binary op (.reference target) operand)) :=
      assignment_compound_passes derivation (by omega) combines.compoundOp?_eq operandPart
        (by omega)
    simpa [combines.sign_eq] using bothPass_of_short derivation notIf notWhile combines.arithmetic
      (.parenthesized operandPart) _ shortPasses
  · exact bothPass_step derivation notIf notWhile (.inl rfl) (by decide) fun _ _ _ => rfl
  · exact bothPass_step derivation notIf notWhile (.inl rfl) (by decide) fun _ _ _ => rfl

/-- The sum behind `*=` is multiplied as a whole, though a product binds more tightly. -/
theorem statement_long_form_product :
    reference 4 (ofRank 4) ⟨[.identifier "a", .at, .number 1], 0⟩ =
        .ok (.indexed (.plain "a") (.literal 1)) ⟨[], 0⟩ ∧
      expression 4 ⟨[.number 2, .plus, .number 3], 0⟩ =
        .ok (.binary .add (.literal 2) (.literal 3)) ⟨[], 0⟩ ∧
      BothPass
        [.identifier "a", .at, .number 1, .starAssign, .number 2, .plus, .number 3, .semicolon]
        [.identifier "a", .at, .number 1, .assign, .identifier "a", .at, .number 1, .star,
          .leftParen, .number 2, .plus, .number 3, .rightParen, .semicolon]
        (.assign (.indexed (.plain "a") (.literal 1))
          (.binary .multiply (.reference (.indexed (.plain "a") (.literal 1)))
            (.binary .add (.literal 2) (.literal 3)))) := by
  have targetRun : reference 4 (ofRank 4) ⟨[.identifier "a", .at, .number 1], 0⟩ =
      .ok (.indexed (.plain "a") (.literal 1)) ⟨[], 0⟩ := rfl
  have operandRun : expression 4 ⟨[.number 2, .plus, .number 3], 0⟩ =
      .ok (.binary .add (.literal 2) (.literal 3)) ⟨[], 0⟩ := rfl
  exact ⟨targetRun, operandRun,
    (statement_long_form targetRun (by decide) (by decide)).1 operandRun .multiply⟩

end Slate.Grammar
