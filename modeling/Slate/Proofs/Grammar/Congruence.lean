import Slate.Grammar.Program
import Slate.Proofs.Grammar.Step

/-!
Relations between parsers. The grammar is put together from looking at the token ahead and passing
it, from chains, and from parsers for what stands one level further in. A relation that respects
each of these relates every parser of the grammar under one limit to the same parser under another,
once it relates what stands inside.

What can be said of a parser depends on how it begins. One that opens a level at once may meet the
limit before it looks at any token, and one that first asks for a token comes to nothing else where
no tokens are left. So a relation comes in four strengths, by these two questions.
-/

set_option autoImplicit false

namespace Slate.Grammar

/-- What two parsers do behind a look at a token that is there: they go on in front of it, or they
pass it. In front of it the end of the tokens is not met, and behind it a level may be opened. -/
inductive Ahead (relates : (opens ends : Bool) → (α : Type) → Parser α → Parser α → Prop)
    (opens : Bool) {α : Type} : Parser α → Parser α → Prop
  | here {parser other : Parser α} :
      relates opens false α parser other → Ahead relates opens parser other
  | behind {parser other : Parser α} :
      relates true false α parser other →
        Ahead relates opens (advance >>= fun _ => parser) (advance >>= fun _ => other)

/-- A relation between parsers under two limits that every way of putting parsers together respects,
but for opening a level. A parser may be one that `opens` a level before it passes a token, and one
that `ends` at the end of the tokens, unless it asks for a token there. -/
structure Congruence (limit higher : Nat)
    (relates : (opens ends : Bool) → (α : Type) → Parser α → Parser α → Prop) : Prop where
  opening {ends : Bool} {α : Type} {parser other : Parser α} :
    relates false ends α parser other → relates true ends α parser other
  unending {opens : Bool} {α : Type} {parser other : Parser α} :
    relates opens true α parser other → relates opens false α parser other
  pure {opens ends : Bool} {α : Type} (value : α) :
    relates opens ends α (pure value) (pure value)
  -- What follows a parser may find no token left, so it has to be one that ends there.
  bind {opens ends : Bool} {α β : Type} {parser other : Parser α} {next otherNext : α → Parser β} :
    relates opens ends α parser other →
      (∀ value, relates opens true β (next value) (otherNext value)) →
        relates opens ends β (parser >>= next) (other >>= otherNext)
  unexpected {opens ends : Bool} {α : Type} (expected : Expected) :
    relates opens ends α (unexpected expected) (unexpected expected)
  throw {opens : Bool} {α : Type} {failure : ParseFailure} :
    (∀ reached, failure ≠ .tooDeep reached) →
      relates opens false α (throw failure) (throw failure)
  look {opens : Bool} {α : Type} {next otherNext : Option Token → Parser α} :
    relates opens true α (next none) (otherNext none) →
      (∀ token, Ahead relates opens (next (some token)) (otherNext (some token))) →
        relates opens true α (peek >>= next) (peek >>= otherNext)
  leftChain {α β : Type} {link? : Token → Option (α → β → α)} {operand other : Parser β} :
    relates false true β operand other →
      ∀ first, relates false true α (leftChain limit link? operand first)
        (leftChain higher link? other first)

namespace Congruence

variable {α β σ τ : Type} {limit higher : Nat} {opens ends : Bool}
  {relates : (opens ends : Bool) → (α : Type) → Parser α → Parser α → Prop}
  (congruence : Congruence limit higher relates)

include congruence

theorem anyhow {parser other : Parser α} (related : relates false true α parser other) :
    relates true false α parser other :=
  congruence.unending (congruence.opening related)

theorem map {parser other : Parser α} (related : relates opens ends α parser other)
    (build : α → β) :
    relates opens ends β (do return build (← parser)) (do return build (← other)) :=
  congruence.bind related fun value => congruence.pure (build value)

theorem ifNext
    {parser other otherwise otherOtherwise : Parser α} (token : Token)
    (related : relates true false α parser other)
    (otherRelated : relates opens true α otherwise otherOtherwise) :
    relates opens true α (do if (← peek) = some token then advance; parser else otherwise)
      (do if (← peek) = some token then advance; other else otherOtherwise) := by
  refine congruence.look ?_ fun ahead => ?_
  · simpa only [reduceCtorEq, if_false] using otherRelated
  · by_cases same : some ahead = some token
    · simpa only [if_pos same] using .behind related
    · simpa only [if_neg same] using .here (congruence.unending otherRelated)

/-- Behind the token that is asked for, a level may be opened. -/
theorem expect
    {parser other : Parser α} (token : Token) (expected : Expected)
    (related : relates true false α parser other) :
    relates false true α (Grammar.expect token expected >>= fun _ => parser)
      (Grammar.expect token expected >>= fun _ => other) := by
  rw [expect_bind_eq, expect_bind_eq]
  exact congruence.ifNext token related (congruence.unexpected expected)

theorem plainVariable : relates false true Ref plainVariable plainVariable := by
  refine congruence.look (congruence.unexpected _) fun token => ?_
  cases token with
  | identifier name => exact .behind (congruence.pure _)
  | _ => exact .here (congruence.unexpected _)

section

variable {inner other : Rank → Parser Expr}
  (related : ∀ rank, relates true false Expr (inner rank) (other rank))

include related

/-- What follows the closing parenthesis stands behind a token, whatever it is. -/
theorem parenthesized_bind
    {next otherNext : Expr → Parser α}
    (nextRelated : ∀ value, relates true false α (next value) (otherNext value)) :
    relates false true α (parenthesized inner >>= next) (parenthesized other >>= otherNext) := by
  unfold parenthesized
  simp only [bind_assoc, pure_bind]
  refine congruence.expect _ _ (congruence.bind (related .choice) fun value => ?_)
  exact congruence.opening (congruence.expect _ _ (nextRelated value))

theorem parenthesized :
    relates false true Expr (parenthesized inner) (parenthesized other) := by
  rw [← bind_pure (Grammar.parenthesized inner), ← bind_pure (Grammar.parenthesized other)]
  exact congruence.parenthesized_bind related congruence.pure

theorem index : relates false true Expr (index inner) (index other) := by
  have named := congruence.map congruence.plainVariable Expr.reference
  refine congruence.look named fun token => ?_
  cases token with
  | number value => exact .behind (congruence.pure _)
  | leftParen => exact .here (congruence.unending (congruence.parenthesized related))
  | _ => exact .here (congruence.unending named)

theorem reference :
    relates false true Ref (reference limit inner) (reference higher other) :=
  congruence.bind congruence.plainVariable (congruence.leftChain (congruence.index related))

theorem primary : relates false true Expr (primary limit inner) (primary higher other) := by
  have named := congruence.map (congruence.reference related) Expr.reference
  refine congruence.look named fun token => ?_
  cases token with
  | number value => exact .behind (congruence.pure _)
  | leftParen => exact .here (congruence.unending (congruence.parenthesized related))
  | _ => exact .here (congruence.unending named)

theorem product : relates false true Expr (product limit inner) (product higher other) :=
  congruence.bind (congruence.primary related) (congruence.leftChain (congruence.primary related))

theorem sum : relates false true Expr (sum limit inner) (sum higher other) :=
  congruence.bind (congruence.product related) (congruence.leftChain (congruence.product related))

theorem comparison :
    relates false true Expr (comparison limit inner) (comparison higher other) := by
  have operand := congruence.sum related
  refine congruence.bind operand fun left => ?_
  refine congruence.look (congruence.pure left) fun token => ?_
  simp only [Option.bind_some]
  cases comparisonOp? token with
  | none => exact .here (congruence.pure left)
  | some op => exact .behind (congruence.map (congruence.anyhow operand) _)

theorem negation : relates false true Expr (negation limit inner) (negation higher other) :=
  congruence.ifNext _ (congruence.map (related .negation) _) (congruence.comparison related)

theorem conjunction :
    relates false true Expr (conjunction limit inner) (conjunction higher other) :=
  congruence.bind (congruence.negation related) fun left =>
    congruence.ifNext _ (congruence.map (related .conjunction) _) (congruence.pure left)

theorem disjunction :
    relates false true Expr (disjunction limit inner) (disjunction higher other) :=
  congruence.bind (congruence.conjunction related) fun left =>
    congruence.ifNext _ (congruence.map (related .disjunction) _) (congruence.pure left)

theorem choice : relates false true Expr (choice limit inner) (choice higher other) := by
  refine congruence.bind (congruence.disjunction related) fun condition => ?_
  refine congruence.ifNext _ (congruence.bind (related .choice) fun accepted => ?_)
    (congruence.pure condition)
  exact congruence.opening (congruence.expect _ _ (congruence.map (related .choice) _))

theorem ranked (rank : Rank) :
    relates false true Expr (ranked limit inner rank) (ranked higher other rank) := by
  cases rank with
  | choice => exact congruence.choice related
  | disjunction => exact congruence.disjunction related
  | conjunction => exact congruence.conjunction related
  | negation => exact congruence.negation related

end

section

variable (ranks : ∀ rank, relates true false Expr (ofRank limit rank) (ofRank higher rank))

include ranks

theorem assignedValue (target : Ref) :
    relates false true Expr (assignedValue limit target) (assignedValue higher target) := by
  have compound (op : BinaryOp) :=
    congruence.map (ranks .choice) (Expr.binary op (.reference target))
  refine congruence.look (congruence.unexpected _) fun token => ?_
  cases token with
  | assign => exact .behind (ranks .choice)
  | increment => exact .behind (congruence.pure _)
  | decrement => exact .behind (congruence.pure _)
  | plusAssign => exact .behind (compound .add)
  | minusAssign => exact .behind (compound .subtract)
  | starAssign => exact .behind (compound .multiply)
  | slashAssign => exact .behind (compound .divide)
  | percentAssign => exact .behind (compound .modulo)
  | _ => exact .here (congruence.throw fun reached => nofun)

theorem assignment (assembly : Assembly σ) :
    relates false true σ (assignment limit assembly) (assignment higher assembly) := by
  refine congruence.bind (congruence.reference ranks) fun target => ?_
  refine congruence.bind (congruence.assignedValue ranks target) fun value => ?_
  exact congruence.expect _ _ (congruence.pure _)

omit ranks in
theorem call (assembly : Assembly σ) (name : String) :
    relates false true σ (call assembly name) (call assembly name) := by
  refine congruence.expect _ _ ?_
  cases assembly.call? name with
  | none => exact congruence.throw fun reached => nofun
  | some body => exact congruence.pure body

variable {assembly : Assembly σ} {inner other : Parser σ}
  (related : relates true false σ inner other)

include related

omit ranks in
theorem statements (fuel : Nat) (done : List σ) :
    relates true true (List σ) (statements inner fuel done) (statements other fuel done) := by
  induction fuel generalizing done with
  | zero => exact congruence.pure _
  | succ fuel inductionHypothesis =>
      have further := congruence.bind related fun statement =>
        inductionHypothesis (statement :: done)
      refine congruence.look (congruence.pure _) fun token => ?_
      cases token with
      | rightBrace => exact .behind (congruence.pure _)
      | _ => exact .here further

theorem branch :
    relates false true σ (branch limit assembly inner) (branch higher assembly other) := by
  refine congruence.parenthesized_bind ranks fun condition => ?_
  refine congruence.bind related fun accepted => congruence.opening ?_
  exact congruence.ifNext _ (congruence.map related _) (congruence.pure _)

theorem loop : relates false true σ (loop limit assembly inner) (loop higher assembly other) :=
  congruence.parenthesized_bind ranks fun _ => congruence.map related _

/-- The fuel of a block is the number of tokens ahead, which the relation may not let both parsers
share. So a block has to be related as a whole. -/
theorem statementHere
    (blockRelated : relates true true σ (block assembly inner) (block assembly other)) :
    relates false true σ (statementHere limit assembly inner)
      (statementHere higher assembly other) := by
  refine congruence.look (congruence.unexpected _) fun token => ?_
  cases token with
  | procedure name => exact .behind (congruence.anyhow (congruence.call assembly name))
  | leftBrace => exact .behind (congruence.unending blockRelated)
  | identifier name =>
      by_cases isIf : name = "if"
      · subst isIf
        exact .behind (congruence.anyhow (congruence.branch ranks related))
      by_cases isWhile : name = "while"
      · subst isWhile
        exact .behind (congruence.anyhow (congruence.loop ranks related))
      · -- The name is neither word, so the match goes on to assignments.
        simp only
        exact .here (congruence.unending (congruence.assignment ranks assembly))
  | _ => exact .here (congruence.unexpected _)

end

theorem items
    {assembly : τ → Assembly σ} {enter : τ → String → σ → τ}
    (itemRelated : ∀ table, relates true false (String × σ) (item limit (assembly table))
      (item higher (assembly table))) (fuel : Nat) (table : τ) :
    relates true true τ (items limit assembly enter fuel table)
      (items higher assembly enter fuel table) := by
  induction fuel generalizing table with
  | zero => exact congruence.pure table
  | succ fuel inductionHypothesis =>
      refine congruence.look (congruence.pure table) fun token => .here ?_
      exact congruence.bind (itemRelated table) fun defined => inductionHypothesis _

end Congruence

end Slate.Grammar
