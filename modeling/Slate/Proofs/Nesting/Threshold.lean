import Mathlib.Data.Nat.Find
import Slate.Proofs.Grammar.Congruence
import Slate.Proofs.Grammar.Statement

/-!
Raising the limit. Two runs over the same tokens, one of them under a higher limit, take the same
steps until the lower limit is met, so what the tokens make is the same under all limits that they
do not meet. Every level is opened behind a token of its own, the outermost statement apart. So a
limit beyond the number of tokens is not met.
-/

set_option autoImplicit false

namespace Slate

namespace Grammar

variable {α β σ τ : Type} {limit higher levels opens : Nat}

/-- How a run under a limit from some cursor ends, and a run under a higher limit. Either the limit
is met, for which it must be less than the room, or both end in the same way and meet no limit. -/
inductive Settled (limit room : Nat) (cursor : Cursor) :
    EStateM.Result ParseFailure Cursor α → EStateM.Result ParseFailure Cursor α → Prop
  | met {stopped : Cursor} {outcome : EStateM.Result ParseFailure Cursor α} (short : limit < room) :
      Settled limit room cursor (.error (.tooDeep limit) stopped) outcome
  | value {result : α} {after : Cursor} (sameDepth : after.depth = cursor.depth)
      (noLonger : after.rest.length ≤ cursor.rest.length) :
      Settled limit room cursor (.ok result after) (.ok result after)
  | failure {cause : ParseFailure} {stopped : Cursor}
      (shallow : ∀ reached, cause ≠ .tooDeep reached) :
      Settled limit room cursor (.error cause stopped) (.error cause stopped)

theorem Settled.mono
    {room larger : Nat} {cursor start : Cursor} {low high : EStateM.Result ParseFailure Cursor α}
    (settled : Settled limit room cursor low high) (fits : room ≤ larger)
    (sameDepth : cursor.depth = start.depth)
    (noLonger : cursor.rest.length ≤ start.rest.length) : Settled limit larger start low high := by
  cases settled with
  | met short => exact .met (Nat.lt_of_lt_of_le short fits)
  | value depth length => exact .value (depth.trans sameDepth) (Nat.le_trans length noLonger)
  | failure shallow => exact .failure shallow

/-- The first parser keeps to the limit and the second to a higher one. They have the given levels
for what stands inside, which reach up to the limit, and they open some levels before they pass a
token. -/
def Settles (limit levels opens : Nat) (low high : Parser α) : Prop :=
  ∀ cursor, limit ≤ levels + cursor.depth →
    Settled limit (cursor.depth + opens + cursor.rest.length) cursor (low cursor) (high cursor)

namespace Settles

variable {low high : Parser α}

theorem mono
    (settles : Settles limit levels opens low high) {more : Nat} (fits : opens ≤ more) :
    Settles limit levels more low high := by
  intro cursor enough
  exact (settles cursor enough).mono (by omega) rfl (Nat.le_refl _)

theorem pure (value : α) : Settles limit levels opens (Pure.pure value) (Pure.pure value) :=
  fun _ _ => .value rfl (Nat.le_refl _)

theorem bind
    {next highNext : α → Parser β} (settles : Settles limit levels opens low high)
    (nextSettles : ∀ value, Settles limit levels opens (next value) (highNext value)) :
    Settles limit levels opens (low >>= next) (high >>= highNext) := by
  intro cursor enough
  have step := settles cursor enough
  generalize lowRun : low cursor = outcome at step
  generalize highRun : high cursor = highOutcome at step
  cases step with
  | met short =>
      rw [bind_of_error lowRun]
      exact .met short
  | @value result after sameDepth noLonger =>
      rw [bind_of_ok lowRun, bind_of_ok highRun]
      exact (nextSettles result after (by omega)).mono (by omega) sameDepth noLonger
  | failure shallow =>
      rw [bind_of_error lowRun, bind_of_error highRun]
      exact .failure shallow

theorem map (settles : Settles limit levels opens low high) (build : α → β) :
    Settles limit levels opens (do return build (← low)) (do return build (← high)) :=
  settles.bind fun value => pure (build value)

theorem unexpected (expected : Expected) :
    Settles limit levels opens (Grammar.unexpected expected : Parser α)
      (Grammar.unexpected expected) := by
  intro cursor _
  rw [unexpected_run]
  cases cursor.rest.head? <;> exact .failure fun reached => nofun

/-- Behind tokens that were passed, one of which makes up for a level that is opened there. -/
theorem behind
    (settles : Settles limit levels 1 low high) {passed rest : List Token} {depth : Nat}
    (nonempty : passed ≠ []) (enough : limit ≤ levels + depth) :
    Settled limit (depth + opens + (passed ++ rest).length) ⟨passed ++ rest, depth⟩
      (low ⟨rest, depth⟩) (high ⟨rest, depth⟩) := by
  have positive := List.length_pos_iff.2 nonempty
  rw [List.length_append]
  refine (settles ⟨rest, depth⟩ enough).mono (by simp only; omega) rfl ?_
  simp only [List.length_append]
  omega

theorem look
    {next highNext : Option Token → Parser α} {opens : Bool}
    (atEnd : Settles limit levels opens.toNat (next none) (highNext none))
    (ahead : ∀ token, Ahead (fun opens _ _ => Settles limit levels opens.toNat) opens
      (next (some token)) (highNext (some token))) :
    Settles limit levels opens.toNat (peek >>= next) (peek >>= highNext) := by
  intro cursor enough
  obtain ⟨_ | ⟨token, rest⟩, depth⟩ := cursor
  · exact atEnd ⟨[], depth⟩ enough
  have step := ahead token
  rw [peek_bind, peek_bind, List.head?_cons]
  generalize next (some token) = low at step
  generalize highNext (some token) = high at step
  cases step with
  | here settles => exact settles ⟨token :: rest, depth⟩ enough
  | behind settles => exact settles.behind (List.cons_ne_nil token []) enough

/-- A level that is opened takes one of the levels for what stands inside. -/
theorem nested
    (raised : limit ≤ higher) (settles : Settles limit levels 0 low high) :
    Settles limit (levels + 1) 1 (Grammar.nested limit low) (Grammar.nested higher high) := by
  intro cursor enough
  unfold Grammar.nested
  by_cases deep : limit ≤ cursor.depth
  · rw [if_pos deep]
    exact .met (by omega)
  · rw [if_neg deep, if_neg (by omega)]
    have step := settles ⟨cursor.rest, cursor.depth + 1⟩ (by simp only; omega)
    generalize low ⟨cursor.rest, cursor.depth + 1⟩ = outcome at step ⊢
    generalize high ⟨cursor.rest, cursor.depth + 1⟩ = highOutcome at step ⊢
    cases step with
    | met short => exact .met short
    | value sameDepth noLonger => exact .value (Nat.sub_eq_of_eq_add sameDepth) noLonger
    | failure shallow => exact .failure shallow

end Settles

section

variable {link? : Token → Option (α → β → α)} {operand highOperand : Parser β}
  (raised : limit ≤ higher) (settles : Settles limit levels 0 operand highOperand)

include raised settles

/-- A link passes its sign and takes a level, and the fuel lasts until the limit is met. -/
theorem chain_settled
    (fuel : Nat) {more links start : Nat} (noLess : fuel ≤ more) (left : α) (rest : List Token)
    (enough : limit ≤ levels + (start + links)) (lasts : limit < fuel + (start + links)) :
    Settled limit (start + links + rest.length) ⟨rest, start⟩
      (chain limit link? operand fuel links left ⟨rest, start + links⟩)
      (chain higher link? highOperand more links left ⟨rest, start + links⟩) := by
  induction fuel generalizing more links left rest with
  | zero => exact .met (by omega)
  | succ fuel inductionHypothesis =>
      obtain ⟨more, rfl⟩ := Nat.exists_eq_succ_of_ne_zero (Nat.ne_zero_of_lt noLess)
      cases rest with
      | nil => exact .value (Nat.add_sub_cancel _ _) (Nat.le_refl _)
      | cons token rest =>
          cases isLink : link? token with
          | none =>
              rw [chain_run_of_none isLink, chain_run_of_none isLink]
              exact .value (Nat.add_sub_cancel _ _) (Nat.le_refl _)
          | some extend =>
              rw [chain_run_of_some isLink, chain_run_of_some isLink, List.length_cons]
              by_cases deep : limit ≤ start + links
              · rw [bind_of_error (descend_of_met deep rest)]
                exact .met (by omega)
              rw [descend_bind _ (by simp only; omega), descend_bind _ (by simp only; omega)]
              have step := settles ⟨rest, start + links + 1⟩ (by simp only; omega)
              generalize lowRun : operand ⟨rest, start + links + 1⟩ = outcome at step
              generalize highRun : highOperand ⟨rest, start + links + 1⟩ = highOutcome at step
              cases step with
              | met short =>
                  rw [bind_of_error lowRun]
                  exact .met (by simp only at short; omega)
              | @value right middle sameDepth noLonger =>
                  obtain ⟨remaining, _⟩ := middle
                  obtain rfl := sameDepth
                  simp only at noLonger
                  rw [bind_of_ok lowRun, bind_of_ok highRun]
                  exact (inductionHypothesis (Nat.le_of_succ_le_succ noLess) (extend left right)
                    remaining (by omega) (by omega)).mono (by omega) rfl
                      (Nat.le_succ_of_le noLonger)
              | failure shallow =>
                  rw [bind_of_error lowRun, bind_of_error highRun]
                  exact .failure shallow

theorem leftChain_settles (first : α) :
    Settles limit levels 0 (leftChain limit link? operand first)
      (leftChain higher link? highOperand first) := by
  intro cursor enough
  unfold leftChain
  rw [get_bind, get_bind]
  exact chain_settled raised settles _ (by omega) first cursor.rest enough (by omega)

end

theorem Settles.congruence (raised : limit ≤ higher) (levels : Nat) :
    Congruence limit higher fun opens _ _ => Settles limit levels opens.toNat where
  opening settles := settles.mono (Nat.zero_le 1)
  unending settles := settles
  pure := Settles.pure
  bind := Settles.bind
  unexpected := Settles.unexpected
  throw shallow _ _ := .failure shallow
  look := Settles.look
  leftChain := leftChain_settles raised

section

variable (raised : limit ≤ higher)

include raised

theorem within_settles (levels : Nat) {more : Nat} (noLess : levels ≤ more) (rank : Rank) :
    Settles limit levels 1 (within limit levels rank) (within higher more rank) := by
  induction levels generalizing more rank with
  | zero =>
      intro cursor enough
      exact .met (by omega)
  | succ levels inductionHypothesis =>
      obtain ⟨more, rfl⟩ := Nat.exists_eq_succ_of_ne_zero (Nat.ne_zero_of_lt noLess)
      have inside := inductionHypothesis (Nat.le_of_succ_le_succ noLess)
      exact ((Settles.congruence raised levels).ranked inside rank).nested raised

theorem ofRank_settles (levels : Nat) (rank : Rank) :
    Settles limit levels 1 (ofRank limit rank) (ofRank higher rank) := by
  intro cursor _
  exact within_settles raised (limit - cursor.depth) (by omega) rank cursor (by omega)

theorem block_settles
    {assembly : Assembly σ} {inner highInner : Parser σ}
    (settles : Settles limit levels 1 inner highInner) :
    Settles limit levels 1 (block assembly inner) (block assembly highInner) := by
  intro cursor enough
  have loops := (Settles.congruence raised levels).statements settles cursor.rest.length []
  unfold block
  rw [get_bind, get_bind]
  exact loops.map _ cursor enough

variable (assembly : Assembly σ)

theorem statementWithin_settles (levels : Nat) {more : Nat} (noLess : levels ≤ more) :
    Settles limit levels 1 (statementWithin limit assembly levels)
      (statementWithin higher assembly more) := by
  induction levels generalizing more with
  | zero =>
      intro cursor enough
      exact .met (by omega)
  | succ levels inductionHypothesis =>
      obtain ⟨more, rfl⟩ := Nat.exists_eq_succ_of_ne_zero (Nat.ne_zero_of_lt noLess)
      have inside := inductionHypothesis (Nat.le_of_succ_le_succ noLess)
      exact ((Settles.congruence raised levels).statementHere (ofRank_settles raised levels) inside
        (block_settles raised inside)).nested raised

theorem statement_settles (levels : Nat) :
    Settles limit levels 1 (statement limit assembly) (statement higher assembly) := by
  intro cursor _
  exact statementWithin_settles raised assembly (limit - cursor.depth) (by omega) cursor (by omega)

theorem item_settles (levels : Nat) :
    Settles limit levels 1 (item limit assembly) (item higher assembly) := by
  have body := statement_settles raised assembly levels
  intro ⟨tokens, depth⟩ enough
  rw [item_run, item_run]
  split
  next name rest shape =>
    obtain rfl : tokens = [.procedure name, .colon] ++ rest := shape
    exact (body.map (Prod.mk name)).behind (List.cons_ne_nil _ _) enough
  next => exact (block_settles raised body).map _ ⟨tokens, depth⟩ enough

theorem items_settles
    (levels : Nat) (assembly : τ → Assembly σ) (enter : τ → String → σ → τ) (fuel : Nat)
    (table : τ) :
    Settles limit levels 1 (items limit assembly enter fuel table)
      (items higher assembly enter fuel table) :=
  (Settles.congruence raised levels).items
    (fun table => item_settles raised (assembly table) levels) fuel table

end

end Grammar

namespace Program

/-- A limit that is met is no more than the number of tokens. One that is not met gives the same
as every higher one. -/
theorem ofTokens_settled
    {limit higher : Nat} (raised : limit ≤ higher) (tokens : List Token) :
    ofTokens limit tokens = .error (.tooDeep limit) ∧ limit ≤ tokens.length ∨
      ofTokens higher tokens = ofTokens limit tokens ∧
        ∀ reached, ofTokens limit tokens ≠ .error (.tooDeep reached) := by
  have settled := Grammar.items_settles raised limit .ofProgram define tokens.length empty
    ⟨tokens, 0⟩ (Nat.le_refl _)
  unfold ofTokens
  generalize Grammar.items limit .ofProgram define tokens.length empty ⟨tokens, 0⟩ = low
    at settled ⊢
  generalize Grammar.items higher .ofProgram define tokens.length empty ⟨tokens, 0⟩ = high
    at settled ⊢
  cases settled with
  | met short => exact .inl ⟨rfl, by simp only at short; omega⟩
  | value => exact .inr ⟨rfl, fun reached => nofun⟩
  | failure shallow =>
      refine .inr ⟨rfl, fun reached same => shallow reached ?_⟩
      exact Except.error.inj same

/-- Every list of tokens has a threshold, at most one beyond their number: below it every limit is
met, and from it on all limits give one and the same result, in which none is met. -/
theorem ofTokens_threshold (tokens : List Token) :
    ∃ threshold ≤ tokens.length + 1, ∃ result : Except ParseFailure Program,
      (∀ limit < threshold, ofTokens limit tokens = .error (.tooDeep limit)) ∧
      (∀ limit, threshold ≤ limit → ofTokens limit tokens = result) ∧
      ∀ reached, result ≠ .error (.tooDeep reached) := by
  classical
  have beyond : ∀ reached, ofTokens (tokens.length + 1) tokens ≠ .error (.tooDeep reached) := by
    obtain ⟨_, short⟩ | ⟨_, shallow⟩ := ofTokens_settled (Nat.le_refl (tokens.length + 1)) tokens
    · omega
    · exact shallow
  have unmet : ∃ limit, ∀ reached, ofTokens limit tokens ≠ .error (.tooDeep reached) :=
    ⟨_, beyond⟩
  have least := Nat.find_spec unmet
  refine ⟨Nat.find unmet, Nat.find_min' unmet beyond, ofTokens (Nat.find unmet) tokens, ?_, ?_,
    least⟩
  · intro limit below
    obtain ⟨met, _⟩ | ⟨_, shallow⟩ := ofTokens_settled (Nat.le_refl limit) tokens
    · exact met
    · exact absurd shallow (Nat.find_min unmet below)
  · intro limit above
    obtain ⟨met, _⟩ | ⟨same, _⟩ := ofTokens_settled above tokens
    · exact absurd met (least _)
    · exact same

end Program

end Slate
