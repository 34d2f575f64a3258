import Slate.Proofs.Grammar.Braces

/-!
Progress. Every statement takes a token and so does every item, so that the tokens of a loop run out
before its fuel does, and how much fuel there is beyond the number of tokens makes no difference.
-/

set_option autoImplicit false

namespace Slate.Grammar

variable {σ τ : Type} {limit : Nat}

section

variable {inner : Parser σ}

theorem statements_cons
    {token : Token} (noBrace : token ≠ .rightBrace) (fuel : Nat) (done : List σ)
    (rest : List Token) (depth : Nat) :
    statements inner (fuel + 1) done ⟨token :: rest, depth⟩ =
      (inner >>= fun statement => statements inner fuel (statement :: done))
        ⟨token :: rest, depth⟩ := by
  rw [statements_run]
  split
  next nothing => cases nothing
  next closing =>
    cases closing
    exact absurd rfl noBrace
  next => rfl

theorem statements_nil (fuel : Nat) (done : List σ) (depth : Nat) :
    statements inner fuel done ⟨[], depth⟩ = .ok done.reverse ⟨[], depth⟩ := by
  cases fuel <;> rfl

variable (leaves : Leaves 1 inner)

include leaves

theorem statements_fuel
    (fuel : Nat) {more : Nat} (done : List σ) (cursor : Cursor)
    (enough : cursor.rest.length ≤ fuel) (enoughToo : cursor.rest.length ≤ more) :
    statements inner fuel done cursor = statements inner more done cursor := by
  induction fuel generalizing more done cursor with
  | zero =>
      obtain ⟨rest, depth⟩ := cursor
      obtain rfl : rest = [] := List.eq_nil_of_length_eq_zero (Nat.le_zero.1 enough)
      rw [statements_nil, statements_nil]
  | succ fuel inductionHypothesis =>
      obtain ⟨_ | ⟨token, rest⟩, depth⟩ := cursor
      · rw [statements_nil, statements_nil]
      obtain ⟨more, rfl⟩ := Nat.exists_eq_succ_of_ne_zero (Nat.ne_zero_of_lt enoughToo)
      by_cases isBrace : token = .rightBrace
      · subst isBrace
        rfl
      rw [statements_cons isBrace, statements_cons isBrace]
      cases run : inner ⟨token :: rest, depth⟩ with
      | error failure stopped => rw [bind_of_error run, bind_of_error run]
      | ok statement middle =>
          have shorter : middle.rest.length ≤ rest.length :=
            Nat.le_of_succ_le_succ (leaves _ _ _ run).shorter
          rw [bind_of_ok run, bind_of_ok run]
          apply inductionHypothesis
          · exact Nat.le_trans shorter (Nat.le_of_succ_le_succ enough)
          · exact Nat.le_trans shorter (Nat.le_of_succ_le_succ enoughToo)

theorem block_eq
    (assembly : Assembly σ) {fuel : Nat} {cursor : Cursor} (enough : cursor.rest.length ≤ fuel) :
    block assembly inner cursor =
      (do return assembly.block (← statements inner fuel []) : Parser σ) cursor := by
  have same := statements_fuel leaves cursor.rest.length [] cursor (Nat.le_refl _) enough
  unfold block
  rw [get_bind]
  cases run : statements inner fuel [] cursor with
  | ok body after => rw [bind_of_ok (same.trans run), bind_of_ok run]
  | error failure stopped => rw [bind_of_error (same.trans run), bind_of_error run]

theorem block_shorter
    {assembly : Assembly σ} {cursor after : Cursor} {value : σ} (nonempty : cursor.rest ≠ [])
    (run : block assembly inner cursor = .ok value after) :
    after.rest.length < cursor.rest.length := by
  obtain ⟨_ | ⟨token, rest⟩, depth⟩ := cursor
  · exact absurd rfl nonempty
  unfold block at run
  rw [get_bind] at run
  obtain ⟨body, _, statementsRun, returned⟩ := bind_eq_ok_iff.1 run
  cases returned
  simp only [List.length_cons] at statementsRun ⊢
  by_cases isBrace : token = .rightBrace
  · subst isBrace
    cases statementsRun
    exact Nat.lt_succ_self _
  rw [statements_cons isBrace] at statementsRun
  obtain ⟨statement, middle, innerRun, restRun⟩ := bind_eq_ok_iff.1 statementsRun
  have shorter : middle.rest.length ≤ rest.length :=
    Nat.le_of_succ_le_succ (leaves _ _ _ innerRun).shorter
  have noLonger := (statements_close leaves _ _ shorter restRun).noLonger
  exact Nat.lt_succ_of_le (Nat.le_trans noLonger shorter)

end

theorem item_shorter
    {assembly : Assembly σ} {cursor after : Cursor} {defined : String × σ}
    (nonempty : cursor.rest ≠ []) (run : item limit assembly cursor = .ok defined after) :
    after.rest.length < cursor.rest.length := by
  have leaves := statement_leaves limit assembly
  rw [item_run] at run
  split at run
  next name rest shape =>
    obtain ⟨body, _, statementRun, returned⟩ := bind_eq_ok_iff.1 run
    cases returned
    have shorter := (leaves _ _ _ statementRun).shorter
    simp only [shape, List.length_cons] at shorter ⊢
    omega
  next =>
    obtain ⟨body, _, blockRun, returned⟩ := bind_eq_ok_iff.1 run
    cases returned
    exact block_shorter leaves nonempty blockRun

section

variable {assembly : τ → Assembly σ} {enter : τ → String → σ → τ}

theorem items_of_end
    {cursor : Cursor} (nothing : cursor.rest = []) (fuel : Nat) (table : τ) :
    items limit assembly enter fuel table cursor = .ok table cursor := by
  cases fuel with
  | zero => rfl
  | succ fuel => rw [items_run, if_pos nothing]

theorem items_fuel
    (fuel : Nat) {more : Nat} (table : τ) (cursor : Cursor)
    (enough : cursor.rest.length ≤ fuel) (enoughToo : cursor.rest.length ≤ more) :
    items limit assembly enter fuel table cursor =
      items limit assembly enter more table cursor := by
  induction fuel generalizing more table cursor with
  | zero =>
      have nothing : cursor.rest = [] := List.eq_nil_of_length_eq_zero (Nat.le_zero.1 enough)
      rw [items_of_end nothing, items_of_end nothing]
  | succ fuel inductionHypothesis =>
      by_cases nothing : cursor.rest = []
      · rw [items_of_end nothing, items_of_end nothing]
      have positive := List.length_pos_iff.2 nothing
      obtain ⟨more, rfl⟩ := Nat.exists_eq_succ_of_ne_zero (by omega : more ≠ 0)
      rw [items_run, items_run, if_neg nothing, if_neg nothing]
      cases run : item limit (assembly table) cursor with
      | error failure stopped => rw [bind_of_error run, bind_of_error run]
      | ok defined middle =>
          have shorter := item_shorter nothing run
          rw [bind_of_ok run, bind_of_ok run]
          apply inductionHypothesis
          · omega
          · omega

end

end Slate.Grammar
