import Slate.Proofs.Grammar.Congruence
import Slate.Proofs.Grammar.Progress

/-!
Refused tokens stay refused. Where a parser stops before the end of the tokens, the tokens behind
that place play no part, so more tokens at the end change nothing. They can change something only
where the tokens ran out: the parser asked for one more, or it looked ahead for a token that would
have continued what it had read. In the second case it ended well, and whatever runs next has no
tokens either. So a failure for another reason than the end of the tokens is final.
-/

set_option autoImplicit false

namespace Slate

namespace Grammar

variable {α β σ τ : Type} {limit : Nat} {ends : Bool}

/-- What a parser may come to for want of tokens: it fails since it asks for a token, or it ends at
the end of the tokens, at the given depth. -/
inductive RanOut (depth : Nat) : EStateM.Result ParseFailure Cursor α → Prop
  | failed (expected : Expected) (stopped : Cursor) :
      RanOut depth (.error (.unexpectedEnd expected) stopped)
  | ended (result : α) : RanOut depth (.ok result ⟨[], depth⟩)

/-- How a parser ends on some tokens, and how one ends where more tokens follow: in the same way,
unless the first ran out of tokens. It succeeds at the given depth only. -/
inductive Determined (more : List Token) (depth : Nat) :
    EStateM.Result ParseFailure Cursor α → EStateM.Result ParseFailure Cursor α → Prop
  | value (result : α) (rest : List Token) :
      Determined more depth (.ok result ⟨rest, depth⟩) (.ok result ⟨rest ++ more, depth⟩)
  | failure (cause : ParseFailure) (stopped stoppedToo : Cursor) :
      Determined more depth (.error cause stopped) (.error cause stoppedToo)
  | ranOut {outcome extended : EStateM.Result ParseFailure Cursor α}
      (ranOut : RanOut depth outcome) : Determined more depth outcome extended

/-- This is so wherever the parsers begin, with their depth for the end. If the first is one that
`ends`, it comes to nothing else where no tokens are left. -/
structure Determines (ends : Bool) (parser other : Parser α) : Prop where
  determined (rest : List Token) (depth : Nat) (more : List Token) :
    Determined more depth (parser ⟨rest, depth⟩) (other ⟨rest ++ more, depth⟩)
  ranOut (depth : Nat) : ends = true → RanOut depth (parser ⟨[], depth⟩)

/-- After a parser that came to the end of the tokens, the next one has none to fail on. It may come
back to another depth than that where the first one ended. -/
theorem RanOut.bind
    {parser : Parser α} {next : α → Parser β} {cursor : Cursor} {depth ending : Nat}
    (first : RanOut depth (parser cursor))
    (second : ∀ value, RanOut ending (next value ⟨[], depth⟩)) :
    RanOut ending ((parser >>= next) cursor) := by
  generalize run : parser cursor = outcome at first
  cases first with
  | failed expected stopped =>
      rw [bind_of_error run]
      exact .failed expected stopped
  | ended result =>
      rw [bind_of_ok run]
      exact second result

theorem Determined.bind
    {parser other : Parser α} {next otherNext : α → Parser β} {rest more : List Token}
    {depth ending : Nat}
    (first : Determined more depth (parser ⟨rest, depth⟩) (other ⟨rest ++ more, depth⟩))
    (second : ∀ value remaining, Determined more ending (next value ⟨remaining, depth⟩)
      (otherNext value ⟨remaining ++ more, depth⟩))
    (secondRanOut : ∀ value, RanOut ending (next value ⟨[], depth⟩)) :
    Determined more ending ((parser >>= next) ⟨rest, depth⟩)
      ((other >>= otherNext) ⟨rest ++ more, depth⟩) := by
  generalize run : parser ⟨rest, depth⟩ = outcome at first
  generalize extendedRun : other ⟨rest ++ more, depth⟩ = extended at first
  cases first with
  | value result remaining =>
      rw [bind_of_ok run, bind_of_ok extendedRun]
      exact second result remaining
  | failure cause stopped stoppedToo =>
      rw [bind_of_error run, bind_of_error extendedRun]
      exact .failure cause stopped stoppedToo
  | ranOut ranOut => exact .ranOut (RanOut.bind (run ▸ ranOut) secondRanOut)

namespace Determines

variable {parser other : Parser α}

theorem pure (value : α) : Determines ends (Pure.pure value : Parser α) (Pure.pure value) where
  determined rest _ _ := .value value rest
  ranOut _ _ := .ended value

theorem bind
    {next otherNext : α → Parser β} (determines : Determines ends parser other)
    (nextDetermines : ∀ value, Determines true (next value) (otherNext value)) :
    Determines ends (parser >>= next) (other >>= otherNext) := by
  have nextRanOut (depth : Nat) (value : α) := (nextDetermines value).ranOut depth rfl
  constructor
  · intro rest depth more
    apply (determines.determined rest depth more).bind
    · exact fun value remaining => (nextDetermines value).determined remaining depth more
    · exact nextRanOut depth
  · exact fun depth ends => (determines.ranOut depth ends).bind (nextRanOut depth)

theorem map (determines : Determines ends parser other) (build : α → β) :
    Determines ends (do return build (← parser)) (do return build (← other)) :=
  determines.bind fun value => pure (build value)

theorem unexpected (expected : Expected) :
    Determines ends (Grammar.unexpected expected : Parser α) (Grammar.unexpected expected) where
  determined rest depth more := by
    cases rest with
    | nil => exact .ranOut (.failed expected ⟨[], depth⟩)
    | cons token rest => exact .failure (.unexpectedToken expected token) _ _
  ranOut depth _ := .failed expected ⟨[], depth⟩

theorem look
    {next otherNext : Option Token → Parser α} {opens : Bool}
    (atEnd : Determines true (next none) (otherNext none))
    (ahead : ∀ token, Ahead (fun _ ends _ => Determines ends) opens
      (next (some token)) (otherNext (some token))) :
    Determines true (peek >>= next) (peek >>= otherNext) where
  determined rest depth more := by
    cases rest with
    | nil => exact .ranOut (atEnd.ranOut depth rfl)
    | cons token rest =>
        have step := ahead token
        rw [List.cons_append, peek_bind, peek_bind, List.head?_cons, List.head?_cons]
        generalize next (some token) = parser at step
        generalize otherNext (some token) = other at step
        cases step with
        | here determines => exact determines.determined (token :: rest) depth more
        | behind determines => exact determines.determined rest depth more
  ranOut := atEnd.ranOut

/-- Where the limit forbids the level, no token is asked for. -/
theorem nested (determines : Determines ends parser other) :
    Determines false (Grammar.nested limit parser) (Grammar.nested limit other) where
  determined rest depth more := by
    unfold Grammar.nested
    by_cases deep : limit ≤ depth
    · simp only [if_pos deep]
      exact .failure (.tooDeep limit) _ _
    · simp only [if_neg deep]
      have step := determines.determined rest (depth + 1) more
      generalize parser ⟨rest, depth + 1⟩ = outcome at step ⊢
      generalize other ⟨rest ++ more, depth + 1⟩ = extended at step ⊢
      cases step with
      | value result rest => exact .value result rest
      | failure cause stopped stoppedToo => exact .failure cause _ _
      | ranOut ranOut =>
          apply Determined.ranOut
          cases ranOut with
          | failed expected stopped => exact .failed expected _
          | ended result => exact .ended result
  ranOut _ ends := by cases ends

end Determines

section

variable {link? : Token → Option (α → β → α)} {operand other : Parser β}

theorem chain_ranOut (fuel links start : Nat) (left : α) :
    RanOut start (chain limit link? operand (fuel + 1) links left ⟨[], start + links⟩) := by
  rw [chain_run_nil, Nat.add_sub_cancel]
  exact .ended left

/-- The fuel lasts until the limit is met, so a chain that comes to the end of the tokens ends well
there. -/
theorem chain_determined
    (determines : Determines ends operand other) (fuel : Nat) {links start : Nat} (left : α)
    (rest more : List Token) (lasts : limit < fuel + (start + links)) :
    Determined more start (chain limit link? operand fuel links left ⟨rest, start + links⟩)
      (chain limit link? other fuel links left ⟨rest ++ more, start + links⟩) := by
  induction fuel generalizing links left rest with
  | zero => exact .failure (.tooDeep limit) _ _
  | succ fuel inductionHypothesis =>
      cases rest with
      | nil => exact .ranOut (chain_ranOut fuel links start left)
      | cons token rest =>
          rw [List.cons_append]
          cases isLink : link? token with
          | none =>
              rw [chain_run_of_none isLink, chain_run_of_none isLink, Nat.add_sub_cancel]
              exact .value left (token :: rest)
          | some extend =>
              rw [chain_run_of_some isLink, chain_run_of_some isLink]
              by_cases deep : limit ≤ start + links
              · rw [bind_of_error (descend_of_met deep _), bind_of_error (descend_of_met deep _)]
                exact .failure (.tooDeep limit) _ _
              rw [descend_bind _ (Nat.not_le.1 deep), descend_bind _ (Nat.not_le.1 deep)]
              apply (determines.determined rest (start + links + 1) more).bind
              · intro right remaining
                exact inductionHypothesis (extend left right) remaining (by omega)
              · intro right
                obtain ⟨fuel, rfl⟩ := Nat.exists_eq_succ_of_ne_zero (by omega : fuel ≠ 0)
                exact chain_ranOut fuel (links + 1) start (extend left right)

theorem leftChain_determines (determines : Determines ends operand other) (first : α) :
    Determines true (leftChain limit link? operand first) (leftChain limit link? other first) where
  determined rest depth more := by
    unfold leftChain
    rw [get_bind, get_bind]
    exact chain_determined determines _ first rest more (by simp only; omega)
  ranOut depth _ := by
    unfold leftChain
    rw [get_bind]
    exact chain_ranOut (limit - depth) 0 depth first

end

theorem Determines.congruence (limit : Nat) :
    Congruence limit limit fun _ ends _ => Determines ends where
  opening determines := determines
  unending determines := ⟨determines.determined, nofun⟩
  pure := Determines.pure
  bind := Determines.bind
  unexpected := Determines.unexpected
  throw _ := ⟨fun _ _ _ => .failure _ _ _, nofun⟩
  look := Determines.look
  leftChain := leftChain_determines

theorem tooDeep_determines (limit : Nat) :
    Determines false (tooDeep limit : Parser α) (tooDeep limit) :=
  ⟨fun _ _ _ => .failure (.tooDeep limit) _ _, nofun⟩

theorem within_determines (limit levels : Nat) (rank : Rank) :
    Determines false (within limit levels rank) (within limit levels rank) := by
  induction levels generalizing rank with
  | zero => exact tooDeep_determines limit
  | succ levels inductionHypothesis =>
      exact ((Determines.congruence limit).ranked inductionHypothesis rank).nested

theorem ofRank_determines (limit : Nat) (rank : Rank) :
    Determines false (ofRank limit rank) (ofRank limit rank) where
  determined rest depth more :=
    (within_determines limit (limit - depth) rank).determined rest depth more
  ranOut := nofun

/-- Both blocks may be read with the fuel of the longer one. -/
theorem block_determines
    (assembly : Assembly σ) {inner : Parser σ} (determines : Determines false inner inner)
    (leaves : Leaves 1 inner) : Determines true (block assembly inner) (block assembly inner) where
  determined rest depth more := by
    have longer : rest.length ≤ (rest ++ more).length := by simp
    have loops := (Determines.congruence 0).statements determines (rest ++ more).length []
    rw [block_eq leaves assembly longer, block_eq leaves assembly (Nat.le_refl _)]
    exact (loops.map assembly.block).determined rest depth more
  ranOut _ _ := .ended (assembly.block [])

theorem statementWithin_determines (limit : Nat) (assembly : Assembly σ) (levels : Nat) :
    Determines false (statementWithin limit assembly levels)
      (statementWithin limit assembly levels) := by
  induction levels with
  | zero => exact tooDeep_determines limit
  | succ levels inductionHypothesis =>
      have block := block_determines assembly inductionHypothesis
        (statementWithin_leaves assembly levels)
      exact ((Determines.congruence limit).statementHere (ofRank_determines limit)
        inductionHypothesis block).nested

theorem statement_determines (limit : Nat) (assembly : Assembly σ) :
    Determines false (statement limit assembly) (statement limit assembly) where
  determined rest depth more :=
    (statementWithin_determines limit assembly (limit - depth)).determined rest depth more
  ranOut := nofun

theorem block_of_error
    {assembly : Assembly σ} {inner : Parser σ} {token : Token} {rest : List Token} {depth : Nat}
    {failure : ParseFailure} {stopped : Cursor} (noBrace : token ≠ .rightBrace)
    (fails : inner ⟨token :: rest, depth⟩ = .error failure stopped) :
    block assembly inner ⟨token :: rest, depth⟩ = .error failure stopped := by
  have first : statements inner (rest.length + 1) [] ⟨token :: rest, depth⟩ =
      .error failure stopped := by
    rw [statements_cons noBrace, bind_of_error fails]
  unfold block
  rw [get_bind]
  exact bind_of_error first

theorem statement_of_met
    {depth : Nat} (met : limit ≤ depth) (assembly : Assembly σ) (rest : List Token) :
    statement limit assembly ⟨rest, depth⟩ = .error (.tooDeep limit) ⟨rest, depth⟩ := by
  unfold statement
  rw [get_bind, Nat.sub_eq_zero_of_le met]
  rfl

theorem statement_lone_call
    {depth : Nat} (below : depth < limit) (assembly : Assembly σ) (name : String) :
    statement limit assembly ⟨[.procedure name], depth⟩ =
      .error (.unexpectedEnd .semicolonAfterCall) ⟨[], depth⟩ := by
  have levels : limit - depth = limit - (depth + 1) + 1 := by omega
  unfold statement
  rw [get_bind, levels, statementWithin, nested, if_neg (Nat.not_le.2 below)]
  rfl

/-- A name alone may still become a definition or a call. Both ask for a level first, so the limit
is met by both or by none. -/
theorem item_lone_name
    (assembly : Assembly σ) (name : String) (depth : Nat) (more : List Token) :
    Determined more depth (item limit assembly ⟨[.procedure name], depth⟩)
      (item limit assembly ⟨.procedure name :: more, depth⟩) := by
  by_cases met : limit ≤ depth
  · have fails (rest : List Token) : ∃ stopped,
        item limit assembly ⟨.procedure name :: rest, depth⟩ = .error (.tooDeep limit) stopped := by
      rw [item_run]
      split
      next => exact ⟨_, bind_of_error (statement_of_met met assembly _)⟩
      next =>
        exact ⟨_, bind_of_error (block_of_error nofun (statement_of_met met assembly _))⟩
    obtain ⟨stopped, run⟩ := fails []
    obtain ⟨stoppedToo, extendedRun⟩ := fails more
    rw [run, extendedRun]
    exact .failure (.tooDeep limit) stopped stoppedToo
  · apply Determined.ranOut
    have asksForMore : block assembly (statement limit assembly) ⟨[.procedure name], depth⟩ =
        .error (.unexpectedEnd .semicolonAfterCall) ⟨[], depth⟩ :=
      block_of_error nofun (statement_lone_call (Nat.not_le.1 met) assembly name)
    rw [item_run_of_main _ _ (by simp), bind_of_error asksForMore]
    exact .failed .semicolonAfterCall ⟨[], depth⟩

theorem item_determines (limit : Nat) (assembly : Assembly σ) :
    Determines false (item limit assembly) (item limit assembly) where
  determined rest depth more := by
    have body := statement_determines limit assembly
    have main := block_determines assembly body (statement_leaves limit assembly)
    by_cases nothing : rest = []
    · subst nothing
      exact .ranOut (.ended (Program.mainName, assembly.block []))
    by_cases isName : ∃ name, rest = [.procedure name]
    · obtain ⟨name, rfl⟩ := isName
      exact item_lone_name assembly name depth more
    by_cases isDefinition : ∃ name, [.procedure name, .colon] <+: rest
    · obtain ⟨name, further, rfl⟩ := isDefinition
      exact (body.map (Prod.mk name)).determined further depth more
    · have noDefinition (name : String) : ¬ [.procedure name, .colon] <+: rest ++ more := by
        intro begins
        rcases definition_of_append begins with isEmpty | alone | begins
        · exact nothing isEmpty
        · exact isName ⟨name, alone⟩
        · exact isDefinition ⟨name, begins⟩
      rw [item_run_of_main _ _ (not_exists.1 isDefinition), item_run_of_main _ _ noDefinition]
      exact (main.map (Prod.mk Program.mainName)).determined rest depth more
  ranOut := nofun

theorem items_determines
    (limit : Nat) (assembly : τ → Assembly σ) (enter : τ → String → σ → τ) (fuel : Nat)
    (table : τ) :
    Determines true (items limit assembly enter fuel table)
      (items limit assembly enter fuel table) :=
  (Determines.congruence limit).items (fun table => item_determines limit (assembly table)) fuel
    table

end Grammar

namespace Program

/-- Tokens that make no program, for another reason than that there are too few of them, make none
whatever follows them, and for the same reason. -/
theorem ofTokens_error_append
    {limit : Nat} {tokens : List Token} {failure : ParseFailure}
    (fails : ofTokens limit tokens = .error failure)
    (notEnd : ∀ expected, failure ≠ .unexpectedEnd expected) (more : List Token) :
    ofTokens limit (tokens ++ more) = .error failure := by
  have longer : tokens.length ≤ (tokens ++ more).length := by simp
  unfold ofTokens at fails ⊢
  rw [Grammar.items_fuel tokens.length empty ⟨tokens, 0⟩ (Nat.le_refl _) longer] at fails
  have step := (Grammar.items_determines limit .ofProgram define (tokens ++ more).length
    empty).determined tokens 0 more
  generalize Grammar.items limit .ofProgram define (tokens ++ more).length empty ⟨tokens, 0⟩ =
    outcome at fails step
  generalize Grammar.items limit .ofProgram define (tokens ++ more).length empty
    ⟨tokens ++ more, 0⟩ = extended at step ⊢
  cases step with
  | value => cases fails
  | failure =>
      cases fails
      rfl
  | ranOut ranOut =>
      cases ranOut with
      | failed expected =>
          cases fails
          exact absurd rfl (notEnd expected)
      | ended => cases fails

/-- A procedure that is called before its definition stays undefined. -/
theorem ofTokens_error_append_definition :
    ofTokens 4 [.procedure "P", .semicolon] = .error (.undefinedProcedure "P") ∧
      ofTokens 4 ([.procedure "P", .semicolon] ++
        [.procedure "P", .colon, .leftBrace, .rightBrace]) = .error (.undefinedProcedure "P") := by
  have fails : ofTokens 4 [.procedure "P", .semicolon] = .error (.undefinedProcedure "P") := rfl
  exact ⟨fails, ofTokens_error_append fails nofun _⟩

end Program

end Slate
