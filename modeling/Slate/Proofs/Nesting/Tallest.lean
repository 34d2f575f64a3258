import Slate.Proofs.Grammar.Passing
import Slate.Proofs.Nesting.Height

/-!
The bounds on the height of trees are attained. At every level the tallest primary begins a chain
of products with all the links there are levels for, which begins such a chain of sums, which is
compared and then stands at the left of a conjunction, a disjunction and a choice. In parentheses,
all of this is a primary of the next level.
-/

set_option autoImplicit false

namespace Slate

namespace Grammar

theorem choiceHeight_succ (levels : Nat) :
    choiceHeight (levels + 1) = primaryHeight (levels + 2) := by
  rw [primaryHeight_add_two]
  unfold choiceHeight
  omega

/-- Some phrase of the category, a chain with the given links, is as tall as the levels allow. -/
def Attained (category : Category) (levels links : Nat) : Prop :=
  ∃ word value, ∃ derivation : Derivation category word value,
    derivation.links = links ∧ derivation.need ≤ levels ∧
      value.height = category.height levels links

/-- The right side of every operator, which adds nothing to the height. -/
def one (rank : Rank) : Derivation rank.category [.number 1] (.literal 1) :=
  (Derivation.number 1).loosen rank

namespace Attained

variable {levels : Nat}

theorem product
    (primary : Attained .primary levels 0) {links : Nat} (fits : links ≤ levels) :
    Attained .product levels links := by
  induction links with
  | zero =>
      obtain ⟨word, value, derivation, _, need, height⟩ := primary
      exact ⟨word, value, .ofPrimary derivation, rfl, need, height⟩
  | succ links inductionHypothesis =>
      obtain ⟨word, value, derivation, rfl, need, height⟩ :=
        inductionHypothesis (Nat.le_of_succ_le fits)
      refine ⟨_, _, .multiply .multiply rfl derivation (.number 1), rfl, ?_, ?_⟩
      · exact Nat.max_le.2 ⟨need, fits⟩
      · have tall := two_le_primaryHeight levels
        simp only [Expr.height, Category.height] at height ⊢
        omega

theorem sum
    (product : Attained .product levels levels) {links : Nat} (fits : links ≤ levels) :
    Attained .sum levels links := by
  induction links with
  | zero =>
      obtain ⟨word, value, derivation, _, need, height⟩ := product
      exact ⟨word, value, .ofProduct derivation, rfl, need, height⟩
  | succ links inductionHypothesis =>
      obtain ⟨word, value, derivation, rfl, need, height⟩ :=
        inductionHypothesis (Nat.le_of_succ_le fits)
      refine ⟨_, _, .add .add rfl derivation (.ofPrimary (.number 1)), rfl, ?_, ?_⟩
      · exact Nat.max_le.2 ⟨need, fits⟩
      · have tall := two_le_primaryHeight levels
        simp only [Expr.height, Category.height] at height ⊢
        omega

theorem comparison (sum : Attained .sum levels levels) : Attained .comparison levels 0 := by
  obtain ⟨word, value, derivation, _, need, height⟩ := sum
  refine ⟨_, _, .compare .less rfl derivation (.ofProduct (.ofPrimary (.number 1))), rfl, ?_, ?_⟩
  · exact Nat.max_le.2 ⟨need, Nat.zero_le _⟩
  · have tall := two_le_primaryHeight levels
    simp only [Expr.height, Category.height] at height ⊢
    omega

/-- The looser operators need a level for their right sides. -/
theorem choice (comparison : Attained .comparison levels 0) : Attained .choice levels 0 := by
  obtain ⟨word, value, derivation, _, need, height⟩ := comparison
  have tall := two_le_primaryHeight levels
  cases levels with
  | zero =>
      exact ⟨word, value,
        .ofDisjunction (.ofConjunction (.ofNegation (.ofComparison derivation))), rfl, need, height⟩
  | succ levels =>
      refine ⟨_, _, .select (.or (.and (.ofComparison derivation) (one .conjunction))
        (one .disjunction)) (one .choice) (one .choice), rfl, ?_, ?_⟩
      · change max (max (max derivation.need 1) 1) (max 1 1) ≤ levels + 1
        omega
      · simp only [Expr.height, Category.height, choiceHeight] at height ⊢
        omega

end Attained

theorem choice_attained_of_primary
    {levels : Nat} (primary : Attained .primary levels 0) : Attained .choice levels 0 :=
  ((primary.product (Nat.le_refl _)).sum (Nat.le_refl _)).comparison.choice

theorem primary_attained (levels : Nat) : Attained .primary levels 0 := by
  induction levels with
  | zero => exact ⟨_, _, .ofReference (.plain "a"), rfl, Nat.le_refl _, rfl⟩
  | succ levels inductionHypothesis =>
      cases levels with
      | zero =>
          exact ⟨_, _, .ofReference (.indexed (.plain "a") (.indexVariable "b")), rfl,
            Nat.le_refl _, rfl⟩
      | succ levels =>
          obtain ⟨word, value, derivation, _, need, height⟩ :=
            choice_attained_of_primary inductionHypothesis
          refine ⟨_, _, .parenthesized derivation, rfl, Nat.succ_le_succ need, ?_⟩
          rw [height]
          exact choiceHeight_succ levels

end Grammar

namespace Program

open Grammar

/-- Some program under the limit has an expression of this height. -/
def HeightAttained (limit height : Nat) : Prop :=
  ∃ tokens program name body, ofTokens limit tokens = .ok program ∧
    program.find? name = some body ∧ body.exprHeight = height

theorem heightAttained_of_main
    {limit : Nat} {tokens : List Token} {body : Stmt}
    (run : ofTokens limit tokens = .ok (empty.define mainName body)) :
    HeightAttained limit body.exprHeight := by
  refine ⟨tokens, _, mainName, body, run, ?_, rfl⟩
  rw [find?_define, if_pos rfl]

/-- The value of a compound assignment is one taller than the tallest choice. -/
theorem heightAttained_compound (limit : Nat) :
    HeightAttained (limit + 3) (choiceHeight (limit + 1) + 1) := by
  obtain ⟨word, value, derivation, _, need, height⟩ :=
    choice_attained_of_primary (primary_attained (limit + 1))
  let statement : Stmt := .assign (.plain "x") (.binary .add (.reference (.plain "x")) value)
  let tokens : List Token := .identifier "x" :: .plusAssign :: (word ++ [.semicolon])
  have passes (program : Program) :
      Passes (Grammar.statement (limit + 3) (.ofProgram program)) 0 tokens statement := by
    apply statement_passes (Nat.succ_pos _)
    apply statementHere_assignment_passes (by decide) (by decide)
    exact assignment_compound_passes (.plain "x") (Nat.zero_le _) rfl derivation (by omega)
  have each (program : Program) :
      PassesEach (Grammar.statement (limit + 3) (.ofProgram program)) 0 [(tokens, statement)] := by
    intro part member
    obtain rfl := List.mem_singleton.1 member
    exact ⟨passes program, _, _, rfl, .inr ⟨"x", rfl⟩⟩
  have run : ofTokens (limit + 3) (tokens ++ []) =
      .ok (empty.define mainName (.block [statement])) :=
    ofTokens_pass (List.forall_mem_nil _) each
  have tall := two_le_primaryHeight (limit + 2)
  have attained := heightAttained_of_main run
  simp only [Category.height, choiceHeight_succ] at height ⊢
  simpa [statement, Stmt.exprHeight, Stmt.exprHeightAll, Expr.height, Ref.height, height, tall]
    using attained

/-- A limit without levels leaves only an empty main program, and the first two limits have their
tallest trees in the target of an increment. -/
theorem heightAttained_tallest (limit : Nat) : HeightAttained limit (tallest limit) := by
  match limit with
  | 0 =>
      have run : ofTokens 0 [.rightBrace] = .ok (empty.define mainName (.block [])) := rfl
      exact heightAttained_of_main run
  | 1 =>
      have run : ofTokens 1 [.identifier "x", .increment, .semicolon] =
          .ok (empty.define mainName (.block [.assign (.plain "x")
            (.binary .add (.reference (.plain "x")) (.literal 1))])) := rfl
      exact heightAttained_of_main run
  | 2 =>
      let target : Ref := .indexed (.plain "x") (.reference (.plain "y"))
      have run : ofTokens 2
            [.identifier "x", .at, .identifier "y", .increment, .semicolon] =
          .ok (empty.define mainName (.block [.assign target
            (.binary .add (.reference target) (.literal 1))])) := rfl
      exact heightAttained_of_main run
  | limit + 3 =>
      rw [tallest_succ, ← choiceHeight_succ]
      exact heightAttained_compound limit

theorem tallest_le_iff (limit : Nat) : tallest limit ≤ 8 * limit ↔ limit ≤ 7 := by
  have small : ∀ few ≤ 7, tallest few ≤ 8 * few := by decide
  constructor
  · intro bound
    by_cases within : limit ≤ 7
    · exact within
    · have large : 8 ≤ limit := Nat.lt_of_not_le within
      obtain ⟨more, rfl⟩ := Nat.exists_eq_add_of_le' large
      have square : 8 * (more + 8) ≤ (more + 8) * (more + 8) :=
        Nat.mul_le_mul_right _ (Nat.le_add_left _ _)
      have shape : tallest (more + 8) = (more + 8) * (more + 8) + (more + 8) - 1 := rfl
      omega
  · exact small limit

/-- Under a limit of `n` levels expressions are as tall as `n * n + n - 1` and no taller, the two
smallest limits apart. Eight nodes for each level are enough exactly up to the limit 7. -/
theorem ofTokens_height_exact (limit : Nat) :
    (∀ tokens program name body, ofTokens limit tokens = .ok program →
      program.find? name = some body → body.exprHeight ≤ tallest limit) ∧
    (∃ tokens program name body, ofTokens limit tokens = .ok program ∧
      program.find? name = some body ∧ body.exprHeight = tallest limit) ∧
    ((∀ tokens program name body, ofTokens limit tokens = .ok program →
      program.find? name = some body → body.exprHeight ≤ 8 * limit) ↔ limit ≤ 7) := by
  have attained := heightAttained_tallest limit
  refine ⟨fun tokens program name body run => ofTokens_heightAtMost run name body, attained, ?_⟩
  rw [← tallest_le_iff]
  constructor
  · intro bound
    obtain ⟨tokens, program, name, body, run, found, height⟩ := attained
    rw [← height]
    exact bound tokens program name body run found
  · intro bound tokens program name body run found
    exact Nat.le_trans (ofTokens_heightAtMost run name body found) bound

end Program

end Slate
