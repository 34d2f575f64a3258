import Slate.Machine

/-!
Relations between actions. Execution is put together from evaluating, delivering, going one level
further in and repeating. A relation that respects each of these relates what a statement does to
itself, for every statement. Loops with more laps come in as well: a loop that has no lap left stops
unfinished, where one with more laps goes on.
-/

set_option autoImplicit false

namespace Slate.Machine

/-- A relation between actions that everything respects that stays at one level. -/
structure Sequential (relates : (α : Type) → Action α → Action α → Prop) : Prop where
  pure {α : Type} (value : α) : relates α (pure value) (pure value)
  bind {α β : Type} {first other : Action α} {next otherNext : α → Action β} :
    relates α first other → (∀ value, relates β (next value) (otherNext value)) →
      relates β (first >>= next) (other >>= otherNext)
  evaluate (expr : Expr) : relates Word (evaluate expr) (evaluate expr)
  slotOf (ref : Ref) : relates String (slotOf ref) (slotOf ref)
  deliver (slot : String) (value : Word) : relates Unit (deliver slot value) (deliver slot value)
  unfinished : relates Unit (throw .unfinished) (throw .unfinished)

/-- A relation that every way of putting actions together respects. -/
structure Congruence (relates : (α : Type) → Action α → Action α → Prop) : Prop
    extends Sequential relates where
  nested {action other : Action Unit} :
    relates Unit action other → relates Unit (nested action) (nested other)

variable {relates : (α : Type) → Action α → Action α → Prop}

namespace Sequential

variable (sequential : Sequential relates)

include sequential

theorem holds (condition : Expr) : relates Bool (holds condition) (holds condition) :=
  sequential.bind (sequential.evaluate condition) fun value => sequential.pure value.isTrue

theorem assign (target : Ref) (value : Expr) :
    relates Unit (assign target value) (assign target value) :=
  sequential.bind (sequential.slotOf target) fun slot =>
    sequential.bind (sequential.evaluate value) fun word => sequential.deliver slot word

/-- Either the laps are the same, or stopping for want of laps is related to whatever goes on. -/
theorem repeatWhile
    {fewer laps : Nat} (noMore : fewer ≤ laps)
    (outOfLaps : fewer = laps ∨ ∀ other, relates Unit (throw .unfinished) other)
    {condition otherCondition : Action Bool} {body otherBody : Action Unit}
    (conditionRelated : relates Bool condition otherCondition)
    (bodyRelated : relates Unit body otherBody) :
    relates Unit (repeatWhile condition body fewer)
      (repeatWhile otherCondition otherBody laps) := by
  induction fewer generalizing laps with
  | zero =>
      rcases outOfLaps with rfl | anything
      · exact sequential.unfinished
      · exact anything _
  | succ fewer inductionHypothesis =>
      obtain ⟨laps, rfl⟩ := Nat.exists_eq_succ_of_ne_zero (Nat.ne_zero_of_lt noMore)
      refine sequential.bind conditionRelated fun goesOn => ?_
      cases goesOn with
      | false => exact sequential.pure ()
      | true =>
          refine sequential.bind bodyRelated fun _ => ?_
          exact inductionHypothesis (Nat.le_of_succ_le_succ noMore)
            (outOfLaps.imp_left Nat.succ.inj)

end Sequential

namespace Congruence

variable (congruence : Congruence relates)

include congruence

mutual

theorem execute
    {fewer laps : Nat} (noMore : fewer ≤ laps)
    (outOfLaps : fewer = laps ∨ ∀ other, relates Unit (throw .unfinished) other) :
    (statement : Stmt) → relates Unit (execute fewer statement) (execute laps statement)
  | .block body => congruence.nested (executeAll noMore outOfLaps body)
  | .assign target value => congruence.nested (congruence.assign target value)
  | .branch condition accepted rejected =>
      congruence.nested (congruence.bind (congruence.holds condition) fun chosen =>
        match chosen with
        | true => execute noMore outOfLaps accepted
        | false => execute noMore outOfLaps rejected)
  | .loop condition body =>
      congruence.nested (congruence.repeatWhile noMore outOfLaps (congruence.holds condition)
        (execute noMore outOfLaps body))

theorem executeAll
    {fewer laps : Nat} (noMore : fewer ≤ laps)
    (outOfLaps : fewer = laps ∨ ∀ other, relates Unit (throw .unfinished) other) :
    (body : List Stmt) → relates Unit (executeAll fewer body) (executeAll laps body)
  | [] => congruence.pure ()
  | statement :: rest =>
      congruence.bind (execute noMore outOfLaps statement) fun _ =>
        executeAll noMore outOfLaps rest

end

end Congruence

end Slate.Machine
