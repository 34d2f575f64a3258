import Slate.Proofs.Grammar.Passing

/-!
Writing trees down as tokens. Compound operands and indices stand in parentheses, so precedence
plays no part, blocks stand in braces, and every `if` has its `else`. A reference with an index is a
compound index, but as an operand it may stand with or without parentheses: `bare` says which.

What is written down is derived by the grammar, and so the parsers pass it.
-/

set_option autoImplicit false

namespace Slate

open Grammar

/-- The token before the operand. No token stands for a change of sign, which only the subtraction
from zero can express. -/
def UnaryOp.sign : UnaryOp → Token
  | .negate => .minus
  | .not => .bang

/-- Literals and plain variables. -/
def Expr.isAtom : Expr → Bool
  | .literal _ => true
  | .reference (.plain _) => true
  | _ => false

def Expr.isReference : Expr → Bool
  | .reference _ => true
  | _ => false

/-- The tokens of a part, in parentheses unless it stands alone. -/
def enclose (alone : Bool) (word : List Token) : List Token :=
  if alone then word else .leftParen :: (word ++ [.rightParen])

section

variable (bare : Bool)

def Expr.asOperand (operand : Expr) (word : List Token) : List Token :=
  enclose (operand.isAtom || bare && operand.isReference) word

def Expr.asIndex (index : Expr) (word : List Token) : List Token :=
  enclose index.isAtom word

mutual

def Expr.print : Expr → List Token
  | .literal value => [.number value]
  | .unary op operand => op.sign :: operand.asOperand bare operand.print
  | .binary op left right =>
      left.asOperand bare left.print ++ op.sign :: right.asOperand bare right.print
  | .select condition accepted rejected =>
      condition.asOperand bare condition.print ++ .question ::
        (accepted.asOperand bare accepted.print ++ .colon :: rejected.asOperand bare rejected.print)
  | .reference ref => ref.print

def Ref.print : Ref → List Token
  | .plain name => [.identifier name]
  | .indexed base index => base.print ++ .at :: index.asIndex index.print

end

end

namespace Stmt

variable (bare : Bool)

mutual

def print : Stmt → List Token
  | .block body => .leftBrace :: (printAll body ++ [.rightBrace])
  | .assign target value => target.print bare ++ .assign :: (value.print bare ++ [.semicolon])
  | .branch condition accepted rejected =>
      .identifier "if" :: ((.leftParen :: (condition.print bare ++ [.rightParen])) ++
        (accepted.print ++ .identifier "else" :: rejected.print))
  | .loop condition body =>
      .identifier "while" :: ((.leftParen :: (condition.print bare ++ [.rightParen])) ++ body.print)

def printAll : List Stmt → List Token
  | [] => []
  | statement :: rest => statement.print ++ printAll rest

end

end Stmt

mutual

/-- No operator in the tree changes the sign. -/
def Expr.NoNegate : Expr → Prop
  | .literal _ => True
  | .unary op operand => op ≠ .negate ∧ operand.NoNegate
  | .binary _ left right => left.NoNegate ∧ right.NoNegate
  | .select condition accepted rejected =>
      condition.NoNegate ∧ accepted.NoNegate ∧ rejected.NoNegate
  | .reference ref => ref.NoNegate

def Ref.NoNegate : Ref → Prop
  | .plain _ => True
  | .indexed base index => base.NoNegate ∧ index.NoNegate

end

/-- The variable that a reference begins with. -/
def Ref.base : Ref → String
  | .plain name => name
  | .indexed base _ => base.base

mutual

/-- No operator changes the sign, and no target begins like an `if` or a `while`. -/
def Stmt.Writable : Stmt → Prop
  | .block body => Stmt.AllWritable body
  | .assign target value =>
      (target.base ≠ "if" ∧ target.base ≠ "while") ∧ target.NoNegate ∧ value.NoNegate
  | .branch condition accepted rejected =>
      condition.NoNegate ∧ accepted.Writable ∧ rejected.Writable
  | .loop condition body => condition.NoNegate ∧ body.Writable

def Stmt.AllWritable : List Stmt → Prop
  | [] => True
  | statement :: rest => statement.Writable ∧ Stmt.AllWritable rest

end

section

variable {bare : Bool}

/-- The grammar derives what is written down for an expression, wherever the expression stands. -/
structure Expr.Printed (bare : Bool) (value : Expr) : Prop where
  whole : Derives (value.print bare) value
  operand : Nonempty (Derivation .primary (value.asOperand bare (value.print bare)) value)
  index : Nonempty (Derivation .index (value.asIndex (value.print bare)) value)

namespace Expr.Printed

theorem literal (value : Word) : Expr.Printed bare (.literal value) :=
  ⟨⟨Derivation.loosen (.number value) .choice⟩, ⟨.number value⟩, ⟨.indexNumber value⟩⟩

theorem reference
    {ref : Ref} (derivation : Derivation .reference (ref.print bare) (.reference ref)) :
    Expr.Printed bare (.reference ref) := by
  have primary : Derivation .primary ((Expr.reference ref).print bare) (.reference ref) :=
    .ofReference derivation
  cases ref with
  | plain name => exact ⟨⟨primary.loosen .choice⟩, ⟨primary⟩, ⟨.indexVariable name⟩⟩
  | indexed base index =>
      refine ⟨⟨primary.loosen .choice⟩, ?_, ⟨.indexParenthesized (primary.loosen .choice)⟩⟩
      cases bare with
      | false => exact ⟨.parenthesized (primary.loosen .choice)⟩
      | true => exact ⟨primary⟩

/-- Operators are neither atoms nor references, so as parts they stand in parentheses. -/
theorem compound
    {value : Expr} (derives : Derives (value.print bare) value) (notAtom : value.isAtom = false)
    (notReference : value.isReference = false) : Expr.Printed bare value := by
  obtain ⟨derivation⟩ := derives
  refine ⟨⟨derivation⟩, ?_, ?_⟩
  · rw [Expr.asOperand, notAtom, notReference, Bool.and_false]
    exact ⟨.parenthesized derivation⟩
  · rw [Expr.asIndex, notAtom]
    exact ⟨.indexParenthesized derivation⟩

theorem not {operand : Expr} (printed : Expr.Printed bare operand) :
    Expr.Printed bare (.unary .not operand) := by
  obtain ⟨derivation⟩ := printed.operand
  have negation := Derivation.not (derivation.loosen .negation)
  exact compound ⟨.ofDisjunction (.ofConjunction (.ofNegation negation))⟩ rfl rfl

theorem binary
    {left right : Expr} (op : BinaryOp) (leftPrinted : Expr.Printed bare left)
    (rightPrinted : Expr.Printed bare right) : Expr.Printed bare (.binary op left right) := by
  obtain ⟨leftPrimary⟩ := leftPrinted.operand
  obtain ⟨rightPrimary⟩ := rightPrinted.operand
  apply compound _ rfl rfl
  cases op with
  | add | subtract =>
      exact ⟨.ofDisjunction (.ofConjunction (.ofNegation (.ofComparison (.ofSum
        (.add _ rfl (.ofProduct (.ofPrimary leftPrimary)) (.ofPrimary rightPrimary))))))⟩
  | multiply | divide | modulo =>
      exact ⟨.ofDisjunction (.ofConjunction (.ofNegation (.ofComparison (.ofSum (.ofProduct
        (.multiply _ rfl (.ofPrimary leftPrimary) rightPrimary))))))⟩
  | less | greater | equal | notEqual | lessEqual | greaterEqual =>
      exact ⟨.ofDisjunction (.ofConjunction (.ofNegation (.ofComparison
        (.compare _ rfl (.ofProduct (.ofPrimary leftPrimary))
          (.ofProduct (.ofPrimary rightPrimary))))))⟩
  | and =>
      have conjunction := Derivation.and (leftPrimary.loosen .negation)
        (rightPrimary.loosen .conjunction)
      exact ⟨.ofDisjunction (.ofConjunction conjunction)⟩
  | or =>
      have disjunction := Derivation.or (leftPrimary.loosen .conjunction)
        (rightPrimary.loosen .disjunction)
      exact ⟨.ofDisjunction disjunction⟩

theorem select
    {condition accepted rejected : Expr} (conditionPrinted : Expr.Printed bare condition)
    (acceptedPrinted : Expr.Printed bare accepted) (rejectedPrinted : Expr.Printed bare rejected) :
    Expr.Printed bare (.select condition accepted rejected) := by
  obtain ⟨conditionPrimary⟩ := conditionPrinted.operand
  obtain ⟨acceptedPrimary⟩ := acceptedPrinted.operand
  obtain ⟨rejectedPrimary⟩ := rejectedPrinted.operand
  exact compound ⟨.select (conditionPrimary.loosen .disjunction) (acceptedPrimary.loosen .choice)
    (rejectedPrimary.loosen .choice)⟩ rfl rfl

end Expr.Printed

mutual

theorem Expr.printed (bare : Bool) : (value : Expr) → value.NoNegate → value.Printed bare
  | .literal value, _ => .literal value
  | .unary .not operand, allowed => .not (operand.printed bare allowed.2)
  | .unary .negate _, allowed => absurd rfl allowed.1
  | .binary op left right, allowed =>
      .binary op (left.printed bare allowed.1) (right.printed bare allowed.2)
  | .select condition accepted rejected, allowed =>
      .select (condition.printed bare allowed.1) (accepted.printed bare allowed.2.1)
        (rejected.printed bare allowed.2.2)
  | .reference ref, allowed => by
      obtain ⟨derivation⟩ := ref.printed bare allowed
      exact .reference derivation

theorem Ref.printed (bare : Bool) :
    (ref : Ref) → ref.NoNegate → Nonempty (Derivation .reference (ref.print bare) (.reference ref))
  | .plain name, _ => ⟨.plain name⟩
  | .indexed base index, allowed => by
      obtain ⟨baseDerivation⟩ := base.printed bare allowed.1
      obtain ⟨indexDerivation⟩ := (index.printed bare allowed.2).index
      exact ⟨.indexed baseDerivation indexDerivation⟩

end

theorem Ref.print_begins (bare : Bool) (ref : Ref) :
    ∃ further, ref.print bare = .identifier ref.base :: further := by
  cases ref with
  | plain name => exact ⟨[], rfl⟩
  | indexed base index =>
      obtain ⟨further, shape⟩ := Ref.print_begins bare base
      exact ⟨further ++ _, by rw [Ref.print, shape]; rfl⟩

end

namespace Stmt

variable {bare : Bool} {limit : Nat} {program : Program}

theorem print_begins (bare : Bool) (statement : Stmt) :
    BeginsStatement (statement.print bare) := by
  cases statement with
  | block body => exact ⟨_, _, rfl, .inl rfl⟩
  | assign target value =>
      obtain ⟨further, shape⟩ := Ref.print_begins bare target
      exact ⟨.identifier target.base, _, by rw [print, shape]; rfl, .inr ⟨_, rfl⟩⟩
  | branch condition accepted rejected => exact ⟨_, _, rfl, .inr ⟨_, rfl⟩⟩
  | loop condition body => exact ⟨_, _, rfl, .inr ⟨_, rfl⟩⟩

/-- What is written down for each of some statements, with the statement. -/
def printedParts (bare : Bool) (body : List Stmt) : List (List Token × Stmt) :=
  body.map fun statement => (statement.print bare, statement)

theorem flatMap_printedParts (body : List Stmt) :
    (printedParts bare body).flatMap Prod.fst = printAll bare body := by
  induction body with
  | nil => rfl
  | cons statement rest inductionHypothesis =>
      rw [printAll, ← inductionHypothesis]
      rfl

theorem map_printedParts (body : List Stmt) : (printedParts bare body).map Prod.snd = body := by
  rw [printedParts, List.map_map]
  exact List.map_id body

section

variable {levels depth : Nat} (room : levels ≤ limit - depth)

include room

/-- A statement takes a level, and its parts are read with one level less. -/
theorem passes_of_here
    {statement : Stmt} (fits : (statement.print bare).length ≤ levels)
    (here : ∀ inner, levels = inner + 1 →
      Passes (statementHere limit (.ofProgram program)
        (statementWithin limit (.ofProgram program) inner)) (depth + 1) (statement.print bare)
        statement) :
    Passes (statementWithin limit (.ofProgram program) levels) depth (statement.print bare)
      statement := by
  obtain ⟨token, further, shape, _⟩ := print_begins bare statement
  cases levels with
  | zero =>
      rw [shape] at fits
      cases fits
  | succ inner => exact Passes.nested (by omega) (here inner rfl)

theorem assign_passes
    {target : Ref} {value : Expr} (writable : (Stmt.assign target value).Writable)
    (fits : ((Stmt.assign target value).print bare).length ≤ levels) (inner : Parser Stmt) :
    Passes (statementHere limit (.ofProgram program) inner) (depth + 1)
      ((Stmt.assign target value).print bare) (.assign target value) := by
  obtain ⟨⟨notIf, notWhile⟩, targetAllowed, valueAllowed⟩ := writable
  obtain ⟨targetDerivation⟩ := target.printed bare targetAllowed
  obtain ⟨valueDerivation⟩ := (value.printed bare valueAllowed).whole
  have targetNeed := targetDerivation.need_le_length
  have valueNeed := valueDerivation.need_le_length
  simp only [print, List.length_append, List.length_cons, List.length_nil] at fits
  have passes : Passes (assignment limit (.ofProgram program)) (depth + 1)
      ((Stmt.assign target value).print bare) (.assign target value) :=
    assignment_set_passes targetDerivation (by omega) valueDerivation (by omega)
  obtain ⟨further, shape⟩ := Ref.print_begins bare target
  rw [print, shape] at passes ⊢
  exact statementHere_assignment_passes notIf notWhile passes

end

mutual

/-- A statement that can be written down is read back as itself, where there are as many levels as
it has tokens. -/
theorem print_passes :
    (statement : Stmt) → statement.Writable → ∀ {levels depth : Nat},
      (statement.print bare).length ≤ levels → levels ≤ limit - depth →
        Passes (statementWithin limit (.ofProgram program) levels) depth (statement.print bare)
          statement
  | .block body, writable, levels, depth, fits, room => by
      apply passes_of_here room fits
      rintro inner rfl
      simp only [print, List.length_append, List.length_cons, List.length_nil] at fits
      have each : PassesEach (statementWithin limit (.ofProgram program) inner) (depth + 1)
          (printedParts bare body) :=
        printedParts_pass body writable (by omega) (by omega)
      have passes : Passes (statementHere limit (.ofProgram program) _) (depth + 1) _ _ :=
        statementHere_block_passes each
      rw [flatMap_printedParts, map_printedParts] at passes
      exact passes
  | .assign target value, writable, levels, depth, fits, room => by
      apply passes_of_here room fits
      intro inner _
      exact assign_passes room writable fits _
  | .branch condition accepted rejected, writable, levels, depth, fits, room => by
      apply passes_of_here room fits
      rintro inner rfl
      obtain ⟨conditionAllowed, acceptedWritable, rejectedWritable⟩ := writable
      obtain ⟨derivation⟩ := (condition.printed bare conditionAllowed).whole
      have need := derivation.need_le_length
      simp only [print, List.length_append, List.length_cons, List.length_nil] at fits
      exact statementHere_branch_passes (branch_passes derivation (by omega)
        (print_passes accepted acceptedWritable (by omega) (by omega))
        (print_passes rejected rejectedWritable (by omega) (by omega)))
  | .loop condition body, writable, levels, depth, fits, room => by
      apply passes_of_here room fits
      rintro inner rfl
      obtain ⟨conditionAllowed, bodyWritable⟩ := writable
      obtain ⟨derivation⟩ := (condition.printed bare conditionAllowed).whole
      have need := derivation.need_le_length
      simp only [print, List.length_append, List.length_cons, List.length_nil] at fits
      exact statementHere_loop_passes (loop_passes derivation (by omega)
        (print_passes body bodyWritable (by omega) (by omega)))

theorem printedParts_pass :
    (body : List Stmt) → AllWritable body → ∀ {levels depth : Nat},
      (printAll bare body).length ≤ levels → levels ≤ limit - depth →
        PassesEach (statementWithin limit (.ofProgram program) levels) depth
          (printedParts bare body)
  | [], _, _, _, _, _, _, member => nomatch member
  | statement :: rest, writable, levels, depth, fits, room, part, member => by
      rw [printAll, List.length_append] at fits
      rcases List.mem_cons.1 member with rfl | member
      · exact ⟨print_passes statement writable.1 (by omega) room, print_begins bare statement⟩
      · exact printedParts_pass rest writable.2 (by omega) room part member

end

end Stmt

end Slate
