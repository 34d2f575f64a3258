import Slate.Proofs.Grammar.Statement

/-!
How tall the trees of a program can be. A chain gives its levels back when it is complete, and its
first operand is read before any link is counted. So one level holds a whole chain of products and
a whole chain of sums on top of what the next level in holds, and the height grows with the square
of the limit.
-/

set_option autoImplicit false

namespace Slate

mutual

/-- The number of nodes on the longest path from the root to a leaf. -/
def Expr.height : Expr → Nat
  | .literal _ => 1
  | .unary _ operand => operand.height + 1
  | .binary _ left right => max left.height right.height + 1
  | .select condition accepted rejected =>
      max condition.height (max accepted.height rejected.height) + 1
  | .reference ref => ref.height + 1

def Ref.height : Ref → Nat
  | .plain _ => 1
  | .indexed base index => max base.height index.height + 1

end

namespace Stmt

mutual

/-- The height of the tallest expression or reference in a statement. -/
def exprHeight : Stmt → Nat
  | .block body => exprHeightAll body
  | .assign target value => max target.height value.height
  | .branch condition accepted rejected =>
      max condition.height (max accepted.exprHeight rejected.exprHeight)
  | .loop condition body => max condition.height body.exprHeight

def exprHeightAll : List Stmt → Nat
  | [] => 0
  | statement :: rest => max statement.exprHeight (exprHeightAll rest)

end

theorem exprHeightAll_le
    {body : List Stmt} {bound : Nat} (each : ∀ part ∈ body, part.exprHeight ≤ bound) :
    exprHeightAll body ≤ bound := by
  induction body with
  | nil => exact Nat.zero_le _
  | cons part rest inductionHypothesis =>
      obtain ⟨first, others⟩ := List.forall_mem_cons.1 each
      exact Nat.max_le.2 ⟨first, inductionHypothesis others⟩

end Stmt

namespace Grammar

/-- The height of the tallest primary within some levels. -/
def primaryHeight : Nat → Nat
  | 0 => 2
  | levels + 1 => (levels + 1) * (levels + 4)

/-- A choice has a comparison of two chains below it, and one operator of each looser rank where
there is a level for its right side. -/
def choiceHeight (levels : Nat) : Nat :=
  primaryHeight levels + 2 * levels + 1 + 3 * min levels 1

def indexHeight : Nat → Nat
  | 0 => 2
  | levels + 1 => choiceHeight levels

/-- A reference without the links of its chain, of which each adds one. -/
def referenceHeight : Nat → Nat
  | 0 => 2
  | levels + 1 => indexHeight levels + 1

theorem primaryHeight_add_two (levels : Nat) :
    primaryHeight (levels + 2) = primaryHeight (levels + 1) + 2 * levels + 6 := by
  simp only [primaryHeight, Nat.add_mul, Nat.mul_add]
  omega

theorem primaryHeight_le_succ (levels : Nat) :
    primaryHeight levels ≤ primaryHeight (levels + 1) := by
  cases levels with
  | zero => decide
  | succ levels =>
      rw [primaryHeight_add_two]
      omega

theorem primaryHeight_mono {fewer levels : Nat} (fits : fewer ≤ levels) :
    primaryHeight fewer ≤ primaryHeight levels := by
  induction fits with
  | refl => exact Nat.le_refl _
  | step _ inductionHypothesis => exact Nat.le_trans inductionHypothesis (primaryHeight_le_succ _)

theorem choiceHeight_mono {fewer levels : Nat} (fits : fewer ≤ levels) :
    choiceHeight fewer ≤ choiceHeight levels := by
  have primary := primaryHeight_mono fits
  unfold choiceHeight
  omega

theorem indexHeight_mono {fewer levels : Nat} (fits : fewer ≤ levels) :
    indexHeight fewer ≤ indexHeight levels := by
  cases fewer with
  | zero =>
      cases levels with
      | zero => exact Nat.le_refl _
      | succ levels => exact Nat.le_trans (by decide) (choiceHeight_mono (Nat.zero_le levels))
  | succ fewer =>
      cases levels with
      | zero => cases fits
      | succ levels => exact choiceHeight_mono (Nat.le_of_succ_le_succ fits)

/-- Parentheses around a choice, which take a level. -/
theorem choiceHeight_le_primaryHeight (levels : Nat) :
    choiceHeight levels ≤ primaryHeight (levels + 1) := by
  cases levels with
  | zero => decide
  | succ levels =>
      rw [primaryHeight_add_two]
      unfold choiceHeight
      omega

theorem referenceHeight_le_primaryHeight {levels links : Nat} (fits : links ≤ levels) :
    referenceHeight levels + links ≤ primaryHeight levels := by
  match levels, fits with
  | 0, fits =>
      simp only [referenceHeight, primaryHeight]
      omega
  | 1, fits =>
      simp only [referenceHeight, indexHeight, primaryHeight]
      omega
  | levels + 2, fits =>
      have inside := choiceHeight_le_primaryHeight levels
      rw [primaryHeight_add_two]
      simp only [referenceHeight, indexHeight]
      omega

/-- The height of the tallest tree of a category within some levels, for a chain by its links. -/
def Category.height (levels links : Nat) : Category → Nat
  | .choice => choiceHeight levels
  | .disjunction => primaryHeight levels + 2 * levels + 1 + 2 * min levels 1
  | .conjunction => primaryHeight levels + 2 * levels + 1 + min levels 1
  | .negation | .comparison => primaryHeight levels + 2 * levels + 1
  | .sum => primaryHeight levels + levels + links
  | .product => primaryHeight levels + links
  | .primary => primaryHeight levels
  | .reference => referenceHeight levels + links
  | .index => indexHeight levels

theorem two_le_primaryHeight (levels : Nat) : 2 ≤ primaryHeight levels :=
  primaryHeight_mono (Nat.zero_le levels)

theorem two_le_indexHeight (levels : Nat) : 2 ≤ indexHeight levels :=
  indexHeight_mono (Nat.zero_le levels)

theorem two_le_referenceHeight (levels : Nat) : 2 ≤ referenceHeight levels := by
  cases levels with
  | zero => exact Nat.le_refl _
  | succ levels => exact Nat.le_succ_of_le (two_le_indexHeight levels)

namespace Derivation

variable {category : Category} {word : List Token} {value : Expr}

theorem links_le_need (derivation : Derivation category word value) :
    derivation.links ≤ derivation.need := by
  cases derivation with
  | add op adds left right => exact Nat.le_trans (Nat.le_add_right _ _) (Nat.le_max_right _ _)
  | multiply op multiplies left right =>
      exact Nat.le_trans (Nat.le_add_right _ _) (Nat.le_max_right _ _)
  | indexed base index => exact Nat.le_trans (Nat.le_add_right _ _) (Nat.le_max_right _ _)
  | _ => exact Nat.zero_le _

/-- No tree of a category is taller than the levels that its word takes allow. -/
theorem height_le
    (derivation : Derivation category word value) {levels : Nat}
    (fits : derivation.need ≤ levels) :
    value.height ≤ category.height levels derivation.links := by
  induction derivation generalizing levels with
  | ofDisjunction part bound =>
      have inside := bound fits
      simp only [Category.height, choiceHeight] at inside ⊢
      omega
  | select condition accepted rejected conditionBound acceptedBound rejectedBound =>
      obtain ⟨conditionFits, branchesFit⟩ := Nat.max_le.1 fits
      obtain ⟨acceptedFits, rejectedFits⟩ := Nat.max_le.1 branchesFit
      have conditionHeight := conditionBound conditionFits
      have further := primaryHeight_mono (Nat.sub_le levels 1)
      have acceptedHeight := acceptedBound (Nat.le_sub_one_of_lt acceptedFits)
      have rejectedHeight := rejectedBound (Nat.le_sub_one_of_lt rejectedFits)
      simp only [Category.height, choiceHeight, Expr.height] at *
      omega
  | ofConjunction part bound =>
      have inside := bound fits
      simp only [Category.height] at inside ⊢
      omega
  | or left right leftBound rightBound =>
      obtain ⟨leftFits, rightFits⟩ := Nat.max_le.1 fits
      have leftHeight := leftBound leftFits
      have rightHeight := rightBound (Nat.le_sub_one_of_lt rightFits)
      have further := primaryHeight_mono (Nat.sub_le levels 1)
      simp only [Category.height, Expr.height] at *
      omega
  | ofNegation part bound =>
      have inside := bound fits
      simp only [Category.height] at inside ⊢
      omega
  | and left right leftBound rightBound =>
      obtain ⟨leftFits, rightFits⟩ := Nat.max_le.1 fits
      have leftHeight := leftBound leftFits
      have rightHeight := rightBound (Nat.le_sub_one_of_lt rightFits)
      have further := primaryHeight_mono (Nat.sub_le levels 1)
      simp only [Category.height, Expr.height] at *
      omega
  | ofComparison part bound => exact bound fits
  | not operand bound =>
      have operandHeight := bound (Nat.le_sub_one_of_lt fits)
      have further := primaryHeight_mono (Nat.sub_le levels 1)
      simp only [Category.height, Expr.height, need] at *
      omega
  | ofSum part bound =>
      have partHeight := bound fits
      have linksFit := Nat.le_trans part.links_le_need fits
      simp only [Category.height] at *
      omega
  | compare op compares left right leftBound rightBound =>
      obtain ⟨leftFits, rightFits⟩ := Nat.max_le.1 fits
      have leftHeight := leftBound leftFits
      have rightHeight := rightBound rightFits
      have leftLinksFit := Nat.le_trans left.links_le_need leftFits
      have rightLinksFit := Nat.le_trans right.links_le_need rightFits
      simp only [Category.height, Expr.height] at *
      omega
  | ofProduct part bound =>
      have partHeight := bound fits
      have linksFit := Nat.le_trans part.links_le_need fits
      simp only [Category.height] at *
      omega
  | add op adds left right leftBound rightBound =>
      obtain ⟨leftFits, rightFits⟩ := Nat.max_le.1 fits
      have leftHeight := leftBound leftFits
      -- The right operand is read behind the links so far, with that many levels less, while the
      -- left part had all of them. So the left part carries the height.
      have rightHeight := rightBound (Nat.le_sub_of_add_le' rightFits)
      have linksFit := right.links_le_need
      have smaller := primaryHeight_mono (Nat.sub_le levels (left.links + 1))
      simp only [Category.height, Expr.height, links] at *
      omega
  | ofPrimary part bound => exact bound fits
  | multiply op multiplies left right leftBound rightBound =>
      obtain ⟨leftFits, rightFits⟩ := Nat.max_le.1 fits
      have leftHeight := leftBound leftFits
      have rightHeight := rightBound (Nat.le_sub_of_add_le' rightFits)
      have smaller := primaryHeight_mono (Nat.sub_le levels (left.links + 1))
      simp only [Category.height, Expr.height, links] at *
      omega
  | number number => exact Nat.le_of_succ_le (two_le_primaryHeight levels)
  | parenthesized inside bound =>
      cases levels with
      | zero => cases fits
      | succ levels =>
          exact Nat.le_trans (bound (Nat.le_of_succ_le_succ fits))
            (choiceHeight_le_primaryHeight levels)
  | ofReference part bound =>
      exact Nat.le_trans (bound fits)
        (referenceHeight_le_primaryHeight (Nat.le_trans part.links_le_need fits))
  | plain name => exact two_le_referenceHeight levels
  | indexed base index baseBound indexBound =>
      obtain ⟨baseFits, indexFits⟩ := Nat.max_le.1 fits
      have baseHeight := baseBound baseFits
      cases levels with
      | zero => omega
      | succ levels =>
          have indexHeight := indexBound (Nat.le_sub_of_add_le' indexFits)
          have smaller := indexHeight_mono (Nat.sub_le levels base.links)
          simp only [Category.height, referenceHeight, Expr.height, Ref.height, links,
            Nat.add_sub_add_right] at *
          omega
  | indexNumber number => exact Nat.le_of_succ_le (two_le_indexHeight levels)
  | indexParenthesized inside bound =>
      cases levels with
      | zero => cases fits
      | succ levels => exact bound (Nat.le_of_succ_le_succ fits)
  | indexVariable name => exact two_le_indexHeight levels

end Derivation

section

variable {limit depth : Nat} {word : List Token} {value : Expr}

theorem FitsInside.height_le (inside : FitsInside limit .choice depth word value) :
    value.height ≤ primaryHeight (limit - depth) := by
  obtain ⟨derivation, fits⟩ := inside.derivation
  obtain ⟨levels, room⟩ := Nat.exists_eq_succ_of_ne_zero (Nat.ne_zero_of_lt fits)
  rw [room] at fits ⊢
  exact Nat.le_trans (derivation.height_le (Nat.le_of_succ_le_succ fits))
    (choiceHeight_le_primaryHeight levels)

theorem Fits.height_le (fits : Fits limit .reference depth word value) :
    value.height ≤ primaryHeight (limit - depth) := by
  obtain ⟨derivation, room⟩ := fits
  exact Nat.le_trans (derivation.height_le room)
    (referenceHeight_le_primaryHeight (Nat.le_trans derivation.links_le_need room))

theorem Assigned.height_le
    {target : Ref} (targetFits : Fits limit .reference depth word (.reference target))
    (assigned : Assigned limit depth target value) :
    value.height ≤ primaryHeight (limit - depth) + 1 := by
  have targetHeight := targetFits.height_le
  cases assigned with
  | set fits => exact Nat.le_succ_of_le fits.height_le
  | step op => exact Nat.succ_le_succ (Nat.max_le.2 ⟨targetHeight,
      Nat.le_of_succ_le (two_le_primaryHeight _)⟩)
  | compound op fits => exact Nat.succ_le_succ (Nat.max_le.2 ⟨targetHeight, fits.height_le⟩)

end

end Grammar

namespace Program

open Grammar

/-- The height of the tallest expression that programs have under a limit. -/
def tallest : Nat → Nat
  | 0 => 0
  | 1 => 3
  | limit => limit * limit + limit - 1

theorem tallest_succ (limit : Nat) : tallest (limit + 1) = primaryHeight limit + 1 := by
  cases limit with
  | zero => rfl
  | succ limit =>
      simp only [tallest, primaryHeight, Nat.add_mul, Nat.mul_add]
      omega

/-- No expression or reference of the program is taller than the bound. -/
def HeightAtMost (program : Program) (bound : Nat) : Prop :=
  ∀ name body, program.find? name = some body → body.exprHeight ≤ bound

theorem heightAtMost_empty (bound : Nat) : empty.HeightAtMost bound := by
  intro name body found
  simp at found

theorem HeightAtMost.define
    {program : Program} {bound : Nat} (kept : program.HeightAtMost bound) (name : String)
    {body : Stmt} (height : body.exprHeight ≤ bound) :
    (program.define name body).HeightAtMost bound :=
  forall_find?_define name height kept

theorem primaryHeight_lt_tallest
    {limit depth : Nat} (inside : 0 < depth ∧ depth ≤ limit) :
    primaryHeight (limit - depth) + 1 ≤ tallest limit := by
  obtain ⟨levels, rfl⟩ := Nat.exists_eq_succ_of_ne_zero
    (Nat.ne_zero_of_lt (Nat.lt_of_lt_of_le inside.1 inside.2))
  rw [Nat.succ_eq_add_one, tallest_succ]
  exact Nat.succ_le_succ (primaryHeight_mono (by omega))

/-- The expressions of a statement that stands inside a program are within the bound. -/
def BoundedAt (limit depth : Nat) (statement : Stmt) : Prop :=
  0 < depth ∧ depth ≤ limit → statement.exprHeight ≤ tallest limit

theorem exprHeight_le_of_inside
    {limit depth : Nat} {statement : Stmt}
    (inside : Inside limit (BoundedAt limit) depth statement) :
    statement.exprHeight ≤ tallest limit :=
  inside.2 ⟨Nat.succ_pos depth, inside.1⟩

theorem preserves_boundedAt
    {limit : Nat} {program : Program} (kept : program.HeightAtMost (tallest limit)) :
    (Assembly.ofProgram program).Preserves limit (BoundedAt limit) where
  block parts _ := Stmt.exprHeightAll_le fun part member =>
    exprHeight_le_of_inside (parts part member)
  assign targetFits assigned inside := by
    have bound := primaryHeight_lt_tallest inside
    have targetHeight := targetFits.height_le
    have valueHeight := assigned.height_le targetFits
    simp only [Assembly.ofProgram, Stmt.exprHeight, Expr.height] at *
    omega
  branch fits accepted rejected inside := by
    have bound := primaryHeight_lt_tallest inside
    have conditionHeight := fits.height_le
    exact Nat.max_le.2 ⟨by omega,
      Nat.max_le.2 ⟨exprHeight_le_of_inside accepted, exprHeight_le_of_inside rejected⟩⟩
  loop fits body inside := by
    have bound := primaryHeight_lt_tallest inside
    have conditionHeight := fits.height_le
    exact Nat.max_le.2 ⟨by omega, exprHeight_le_of_inside body⟩
  call found _ := kept _ _ found

theorem enter_heightAtMost
    (limit : Nat) (program : Program) (name : String) (body : Stmt) (depth : Nat)
    (kept : program.HeightAtMost (tallest limit))
    (bounded : Inside limit (BoundedAt limit) depth body ∨
      ∃ parts, body = (Assembly.ofProgram program).block parts ∧
        ∀ part ∈ parts, Inside limit (BoundedAt limit) depth part) :
    (program.define name body).HeightAtMost (tallest limit) := by
  apply kept.define
  rcases bounded with inside | ⟨parts, rfl, each⟩
  · exact exprHeight_le_of_inside inside
  · exact Stmt.exprHeightAll_le fun part member => exprHeight_le_of_inside (each part member)

theorem ofTokens_heightAtMost
    {limit : Nat} {tokens : List Token} {program : Program}
    (run : ofTokens limit tokens = .ok program) : program.HeightAtMost (tallest limit) := by
  unfold ofTokens at run
  split at run
  next result after itemsRun =>
    cases run
    exact items_reads (fun _ => preserves_boundedAt) (enter_heightAtMost limit) tokens.length
      (heightAtMost_empty _) itemsRun
  next => cases run

end Program

end Slate
