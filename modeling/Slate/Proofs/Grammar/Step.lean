import Slate.Grammar.Expr
import Slate.Proofs.Sequence

/-!
Single steps of a parser: what each operation on the cursor does to a run.
-/

set_option autoImplicit false

namespace Slate.Grammar

variable {α β : Type}

@[simp]
theorem peek_bind (next : Option Token → Parser β) (cursor : Cursor) :
    (peek >>= next) cursor = next cursor.rest.head? cursor := rfl

@[simp]
theorem advance_bind (next : Unit → Parser β) (cursor : Cursor) :
    (advance >>= next) cursor = next () ⟨cursor.rest.tail, cursor.depth⟩ := rfl

@[simp]
theorem ascend_bind (levels : Nat) (next : Unit → Parser β) (cursor : Cursor) :
    (ascend levels >>= next) cursor = next () ⟨cursor.rest, cursor.depth - levels⟩ := rfl

theorem descend_run (limit : Nat) (cursor : Cursor) :
    descend limit cursor =
      if limit ≤ cursor.depth then .error (.tooDeep limit) cursor
      else .ok () ⟨cursor.rest, cursor.depth + 1⟩ := by
  unfold descend
  rw [get_bind]
  split <;> rfl

theorem descend_of_met {limit depth : Nat} (met : limit ≤ depth) (rest : List Token) :
    descend limit ⟨rest, depth⟩ = .error (.tooDeep limit) ⟨rest, depth⟩ := by
  rw [descend_run, if_pos met]

theorem descend_bind
    {limit : Nat} {cursor : Cursor} (next : Unit → Parser β) (below : cursor.depth < limit) :
    (descend limit >>= next) cursor = next () ⟨cursor.rest, cursor.depth + 1⟩ := by
  apply bind_of_ok
  rw [descend_run, if_neg (by omega)]

theorem descend_eq_ok
    {limit : Nat} {cursor after : Cursor} {value : Unit}
    (run : descend limit cursor = .ok value after) :
    cursor.depth < limit ∧ after = ⟨cursor.rest, cursor.depth + 1⟩ := by
  rw [descend_run] at run
  split at run
  next => cases run
  next below =>
    cases run
    exact ⟨by omega, rfl⟩

theorem unexpected_run (expected : Expected) (cursor : Cursor) :
    (unexpected expected : Parser α) cursor =
      .error (match cursor.rest.head? with
        | some found => .unexpectedToken expected found
        | none => .unexpectedEnd expected) cursor := by
  unfold unexpected
  rw [peek_bind]
  cases cursor.rest.head? <;> rfl

/-- The token ahead is the one asked for: it is passed, and the first parser goes on. -/
theorem ifNext_run
    (token : Token) (parser other : Parser α) (rest : List Token) (depth : Nat) :
    (do if (← peek) = some token then advance; parser else other : Parser α)
      ⟨token :: rest, depth⟩ = parser ⟨rest, depth⟩ := by
  have ahead : (Cursor.mk (token :: rest) depth).rest.head? = some token := rfl
  rw [peek_bind, if_pos ahead, advance_bind, List.tail_cons]

theorem ifNext_run_of_ne
    {token : Token} {cursor : Cursor} (parser other : Parser α)
    (ahead : cursor.rest.head? ≠ some token) :
    (do if (← peek) = some token then advance; parser else other : Parser α) cursor =
      other cursor := by
  rw [peek_bind, if_neg ahead]

theorem expect_run (token : Token) (expected : Expected) (rest : List Token) (depth : Nat) :
    expect token expected ⟨token :: rest, depth⟩ = .ok () ⟨rest, depth⟩ := by
  have ahead : (Cursor.mk (token :: rest) depth).rest.head? = some token := rfl
  unfold expect
  rw [peek_bind, if_pos ahead]
  rfl

theorem expect_bind
    (token : Token) (expected : Expected) (next : Unit → Parser β) (rest : List Token)
    (depth : Nat) :
    (expect token expected >>= next) ⟨token :: rest, depth⟩ = next () ⟨rest, depth⟩ :=
  bind_of_ok (expect_run token expected rest depth)

theorem expect_eq_ok
    {token : Token} {expected : Expected} {cursor after : Cursor} {value : Unit}
    (run : expect token expected cursor = .ok value after) :
    cursor.rest = token :: after.rest ∧ after.depth = cursor.depth := by
  unfold expect at run
  rw [peek_bind] at run
  split at run
  next found =>
    cases run
    rcases List.head?_eq_some_iff.mp found with ⟨rest, shape⟩
    simp [shape]
  next => simp [unexpected_run] at run

/-- Passing a token that the grammar asks for is a choice between what follows and a failure. -/
theorem expect_bind_eq (token : Token) (expected : Expected) (next : Parser α) :
    (expect token expected >>= fun _ => next) =
      (do if (← peek) = some token then advance; next else unexpected expected) := by
  funext cursor
  by_cases ahead : cursor.rest.head? = some token
  · obtain ⟨rest, shape⟩ := List.head?_eq_some_iff.1 ahead
    obtain ⟨_, depth⟩ := cursor
    subst shape
    rw [expect_bind, ifNext_run]
  · rw [ifNext_run_of_ne _ _ ahead]
    have refused : expect token expected cursor = (unexpected expected : Parser Unit) cursor := by
      unfold expect
      rw [peek_bind, if_neg ahead]
    rw [unexpected_run] at refused ⊢
    rw [bind_of_error refused]

theorem nested_run
    {limit : Nat} {parser : Parser α} {cursor : Cursor} {value : α} {rest : List Token}
    (below : cursor.depth < limit)
    (run : parser ⟨cursor.rest, cursor.depth + 1⟩ = .ok value ⟨rest, cursor.depth + 1⟩) :
    nested limit parser cursor = .ok value ⟨rest, cursor.depth⟩ := by
  unfold nested
  rw [if_neg (by omega), run]
  rfl

theorem nested_eq_ok
    {limit : Nat} {parser : Parser α} {cursor after : Cursor} {value : α}
    (run : nested limit parser cursor = .ok value after) :
    cursor.depth < limit ∧ ∃ inside, parser ⟨cursor.rest, cursor.depth + 1⟩ = .ok value inside ∧
      after = ⟨inside.rest, inside.depth - 1⟩ := by
  unfold nested at run
  split at run
  next => simp at run
  next below =>
    refine ⟨by omega, ?_⟩
    split at run
    next inside success =>
      cases run
      exact ⟨_, success, rfl⟩
    next => simp at run

section

variable {limit : Nat} {link? : Token → Option (α → β → α)} {operand : Parser β}

theorem chain_run_nil (fuel links : Nat) (left : α) (depth : Nat) :
    chain limit link? operand (fuel + 1) links left ⟨[], depth⟩ =
      .ok left ⟨[], depth - links⟩ := rfl

theorem chain_run_of_none
    {token : Token} (noLink : link? token = none) (fuel links : Nat) (left : α) (rest : List Token)
    (depth : Nat) :
    chain limit link? operand (fuel + 1) links left ⟨token :: rest, depth⟩ =
      .ok left ⟨token :: rest, depth - links⟩ := by
  rw [chain, peek_bind]
  simp only [List.head?_cons, Option.bind_some, noLink, ascend_bind, pure_run]

theorem chain_run_of_some
    {token : Token} {extend : α → β → α} (isLink : link? token = some extend)
    (fuel links : Nat) (left : α) (rest : List Token) (depth : Nat) :
    chain limit link? operand (fuel + 1) links left ⟨token :: rest, depth⟩ =
      (descend limit >>= fun _ => operand >>= fun right =>
        chain limit link? operand fuel (links + 1) (extend left right)) ⟨rest, depth⟩ := by
  rw [chain, peek_bind]
  simp only [List.head?_cons, Option.bind_some, isLink, advance_bind, List.tail_cons]

end

end Slate.Grammar
