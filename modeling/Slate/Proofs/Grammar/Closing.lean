import Slate.Proofs.Grammar.Progress
import Slate.Proofs.Grammar.Prolongation

/-!
Closing braces at the end of the tokens. A block ends at the end of the tokens as it ends at its
closing brace, so the braces that are still open at the end need not be closed, and it makes no
difference how many of them are. Closing braces behind the tokens go to the innermost blocks first,
and each statement around these passes on what is left of them.
-/

set_option autoImplicit false

namespace Slate

namespace Grammar

variable {α β σ τ : Type} {limit : Nat}

def closings (count : Nat) : List Token :=
  List.replicate count .rightBrace

theorem openBraces_mono
    {opened more : Nat} (noMore : opened ≤ more) (tokens : List Token) :
    openBraces opened tokens ≤ openBraces more tokens := by
  induction tokens generalizing opened more with
  | nil => exact noMore
  | cons token rest inductionHypothesis =>
      cases token with
      | leftBrace => exact inductionHypothesis (Nat.succ_le_succ noMore)
      | rightBrace => exact inductionHypothesis (Nat.sub_le_sub_right noMore 1)
      | _ => exact inductionHypothesis noMore

theorem noElse_closings (count : Nat) : NoElse (closings count) := by
  cases count <;> simp [NoElse, closings, List.replicate_succ]

/-- Where tokens are left behind, no brace was left open, and tokens behind these change nothing. -/
theorem Prolonged.beforeEnd
    {parser : Parser α} {cursor after : Cursor} {value : α}
    (prolonged : Prolonged parser cursor value after) (before : after.rest ≠ []) :
    (∀ opened, openBraces opened cursor.rest = openBraces opened after.rest) ∧
      ∀ more, parser ⟨cursor.rest ++ more, cursor.depth⟩ =
        .ok value ⟨after.rest ++ more, after.depth⟩ := by
  cases prolonged with
  | unclosed _ atEnd => exact absurd atEnd before
  | closed word shape closes same =>
      refine ⟨fun opened => ?_, fun more => same more fun nothing => absurd nothing before⟩
      rw [shape, openBraces_append, closes]

/-- After a success at the end of the tokens some braces are left open. Of closing braces that
follow the parser passes as many as close them, and it returns the same. -/
def Closable (parser : Parser α) : Prop :=
  ∀ rest depth value after, parser ⟨rest, depth⟩ = .ok value ⟨[], after⟩ →
    ∃ left, (∀ opened, openBraces opened rest = opened + left) ∧
      ∀ count, parser ⟨rest ++ closings count, depth⟩ = .ok value ⟨closings (count - left), after⟩

namespace Closable

variable {parser : Parser α}

theorem ofDelimits (delimits : Delimits parser) : Closable parser := by
  intro rest depth value after run
  obtain ⟨sameDepth, word, shape, braceFree, passes⟩ := delimits _ _ _ run
  simp only [List.append_nil] at sameDepth shape passes
  subst sameDepth shape
  exact ⟨0, braceFree.openBraces_eq, fun count => passes (closings count)⟩

theorem pure (value : α) : Closable (Pure.pure value : Parser α) := by
  intro rest depth result after run
  cases run
  exact ⟨0, fun opened => rfl, fun count => rfl⟩

theorem bind
    {next : α → Parser β} (prolongs : Prolongs parser) (closable : Closable parser)
    (nextClosable : ∀ value, Closable (next value)) : Closable (parser >>= next) := by
  intro rest depth result after run
  obtain ⟨value, ⟨remaining, middle⟩, firstRun, secondRun⟩ := bind_eq_ok_iff.1 run
  obtain ⟨nextLeft, nextOpen, nextCloses⟩ := nextClosable value _ _ _ _ secondRun
  by_cases atEnd : remaining = []
  · subst atEnd
    obtain ⟨left, leavesOpen, closes⟩ := closable _ _ _ _ firstRun
    obtain rfl : 0 = nextLeft := by simpa [openBraces] using nextOpen 0
    refine ⟨left, leavesOpen, fun count => ?_⟩
    rw [bind_of_ok (closes count)]
    exact nextCloses (count - left)
  · obtain ⟨sameBraces, same⟩ := (prolongs _ _ _ firstRun).beforeEnd atEnd
    refine ⟨nextLeft, fun opened => (sameBraces opened).trans (nextOpen opened), fun count => ?_⟩
    rw [bind_of_ok (same (closings count))]
    exact nextCloses count

theorem map (prolongs : Prolongs parser) (closable : Closable parser) (build : α → β) :
    Closable (do return build (← parser)) :=
  bind prolongs closable fun value => pure (build value)

theorem nested (closable : Closable parser) : Closable (Grammar.nested limit parser) := by
  intro rest depth value after run
  obtain ⟨below, ⟨remaining, inside⟩, insideRun, ended⟩ := nested_eq_ok run
  cases ended
  obtain ⟨left, leavesOpen, closes⟩ := closable _ _ _ _ insideRun
  refine ⟨left, leavesOpen, fun count => ?_⟩
  rw [Grammar.nested, if_neg (Nat.not_le.2 below), closes count]

/-- A parser that passes a token and goes on as another one. -/
theorem behind
    (closable : Closable parser) {outer : Parser α} {token : Token}
    (noBrace : token ≠ .leftBrace ∧ token ≠ .rightBrace)
    (goesOn : ∀ rest depth, outer ⟨token :: rest, depth⟩ = parser ⟨rest, depth⟩)
    {rest : List Token} {depth after : Nat} {value : α}
    (run : outer ⟨token :: rest, depth⟩ = .ok value ⟨[], after⟩) :
    ∃ left, (∀ opened, openBraces opened (token :: rest) = opened + left) ∧
      ∀ count, outer ⟨token :: rest ++ closings count, depth⟩ =
        .ok value ⟨closings (count - left), after⟩ := by
  rw [goesOn] at run
  obtain ⟨left, leavesOpen, closes⟩ := closable _ _ _ _ run
  refine ⟨left, fun opened => ?_, fun count => ?_⟩
  · rw [openBraces_cons noBrace, leavesOpen]
  · rw [List.cons_append, goesOn, closes]

theorem ifElse {other : Parser α} (closable : Closable parser) (otherClosable : Closable other) :
    Closable (do if (← peek) = some (.identifier "else") then advance; parser else other) := by
  intro rest depth value after run
  by_cases ahead : rest.head? = some (.identifier "else")
  · obtain ⟨further, rfl⟩ := List.head?_eq_some_iff.1 ahead
    exact closable.behind (by simp) (ifNext_run _ parser other) run
  · rw [ifNext_run_of_ne _ _ ahead] at run
    obtain ⟨left, leavesOpen, closes⟩ := otherClosable _ _ _ _ run
    refine ⟨left, leavesOpen, fun count => ?_⟩
    have stillAhead : (rest ++ closings count).head? ≠ some (.identifier "else") := by
      cases rest with
      | nil => exact noElse_closings count
      | cons token rest => exact ahead
    rw [ifNext_run_of_ne _ _ stillAhead, closes count]

end Closable

/-- How a list of statements came to the end of the tokens: its closing brace is the last token, or
the list is still open. In the second case one closing brace more than the statements left open
closes it. -/
inductive Stopped (inner : Parser σ) (done : List σ) (rest : List Token) (depth : Nat)
    (values : List σ) (after : Nat) : Prop
  | closed (closes : ∀ opened, openBraces (opened + 1) rest = opened)
      (same : ∀ more, Lists inner done ⟨rest ++ more, depth⟩ (.ok values ⟨more, after⟩))
  | unclosed (left : Nat) (leavesOpen : ∀ opened, openBraces opened rest = opened + left)
      (closes : ∀ count, Lists inner done ⟨rest ++ closings count, depth⟩
        (.ok values ⟨closings (count - (left + 1)), after⟩))

section

variable {inner : Parser σ}

theorem lists_closings (done : List σ) (depth count : Nat) :
    Lists inner done ⟨closings count, depth⟩
      (.ok done.reverse ⟨closings (count - 1), depth⟩) := by
  intro fuel enough
  cases count with
  | zero => exact statements_nil fuel done depth
  | succ count =>
      obtain ⟨fuel, rfl⟩ := Nat.exists_eq_succ_of_ne_zero (Nat.ne_zero_of_lt enough)
      rfl

theorem stopped_nil (done : List σ) (depth : Nat) :
    Stopped inner done [] depth done.reverse depth :=
  .unclosed 0 (fun _ => rfl) (lists_closings done depth)

variable (prolongs : Prolongs inner) (closable : Closable inner) (leaves : Leaves 1 inner)

include prolongs closable leaves

theorem statements_stopped
    (fuel : Nat) {done values : List σ} {rest : List Token} {depth after : Nat}
    (enough : rest.length ≤ fuel)
    (run : statements inner fuel done ⟨rest, depth⟩ = .ok values ⟨[], after⟩) :
    Stopped inner done rest depth values after := by
  induction fuel generalizing done rest depth with
  | zero =>
      obtain rfl : rest = [] := List.eq_nil_of_length_eq_zero (Nat.le_zero.1 enough)
      cases run
      exact stopped_nil done _
  | succ fuel inductionHypothesis =>
      cases rest with
      | nil =>
          cases run
          exact stopped_nil done _
      | cons token rest =>
          by_cases isBrace : token = .rightBrace
          · subst isBrace
            cases run
            refine .closed (fun opened => rfl) fun more fuel enough => ?_
            obtain ⟨fuel, rfl⟩ := Nat.exists_eq_succ_of_ne_zero (Nat.ne_zero_of_lt enough)
            rfl
          rw [statements_cons isBrace] at run
          obtain ⟨statement, ⟨remaining, middle⟩, innerRun, restRun⟩ := bind_eq_ok_iff.1 run
          have shorter : remaining.length ≤ rest.length :=
            Nat.le_of_succ_le_succ (leaves _ _ _ innerRun).shorter
          by_cases atEnd : remaining = []
          · subst atEnd
            rw [statements_nil] at restRun
            cases restRun
            obtain ⟨left, leavesOpen, closes⟩ := closable _ _ _ _ innerRun
            refine .unclosed left leavesOpen fun count => ?_
            have noLonger : (closings (count - left)).length ≤ (rest ++ closings count).length := by
              simp only [closings, List.length_append, List.length_replicate]
              omega
            exact Lists.cons isBrace (closes count) noLonger
              (lists_closings (statement :: done) _ (count - left))
          · obtain ⟨sameBraces, same⟩ := (prolongs _ _ _ innerRun).beforeEnd atEnd
            have further := inductionHypothesis
              (Nat.le_trans shorter (Nat.le_of_succ_le_succ enough)) restRun
            have stillShorter (more : List Token) :
                (remaining ++ more).length ≤ (rest ++ more).length := by
              simpa using shorter
            cases further with
            | closed closes goesOn =>
                refine .closed (fun opened => (sameBraces _).trans (closes opened)) fun more => ?_
                exact Lists.cons isBrace (same more) (stillShorter more) (goesOn more)
            | unclosed left leavesOpen closes =>
                refine .unclosed left (fun opened => (sameBraces _).trans (leavesOpen opened))
                  fun count => ?_
                exact Lists.cons isBrace (same _) (stillShorter _) (closes count)

variable {assembly : Assembly σ}

theorem block_closable
    {outer : Parser σ}
    (goesOn : ∀ rest depth, outer ⟨.leftBrace :: rest, depth⟩ = block assembly inner ⟨rest, depth⟩)
    {rest : List Token} {depth after : Nat} {value : σ}
    (run : outer ⟨.leftBrace :: rest, depth⟩ = .ok value ⟨[], after⟩) :
    ∃ left, (∀ opened, openBraces opened (.leftBrace :: rest) = opened + left) ∧
      ∀ count, outer ⟨.leftBrace :: rest ++ closings count, depth⟩ =
        .ok value ⟨closings (count - left), after⟩ := by
  rw [goesOn, block, get_bind] at run
  obtain ⟨values, _, statementsRun, returned⟩ := bind_eq_ok_iff.1 run
  cases returned
  cases statements_stopped prolongs closable leaves _ (Nat.le_refl _) statementsRun with
  | closed closes same =>
      refine ⟨0, closes, fun count => ?_⟩
      rw [List.cons_append, goesOn]
      exact block_of_lists assembly (same (closings count))
  | unclosed left leavesOpen closes =>
      refine ⟨left + 1, fun opened => ?_, fun count => ?_⟩
      · rw [openBraces, leavesOpen, Nat.add_right_comm]
        rfl
      · rw [List.cons_append, goesOn]
        exact block_of_lists assembly (closes count)

theorem statementHere_closable : Closable (statementHere limit assembly inner) := by
  have conditionProlongs := Prolongs.ofDelimits (condition_delimits limit)
  have conditionClosable := Closable.ofDelimits (condition_delimits limit)
  have branchClosable : Closable (branch limit assembly inner) := by
    refine .bind conditionProlongs conditionClosable fun condition => ?_
    refine .bind prolongs closable fun accepted => ?_
    exact (Closable.map prolongs closable _).ifElse (Closable.pure _)
  have loopClosable : Closable (loop limit assembly inner) := by
    refine .bind conditionProlongs conditionClosable fun condition => ?_
    exact .map prolongs closable _
  intro rest depth value after run
  cases rest with
  | nil => simp [statementHere_run, unexpected_run] at run
  | cons token rest =>
      cases token with
      | procedure name =>
          exact (Closable.ofDelimits (call_delimits assembly name)).behind (by simp)
            (fun rest depth => rfl) run
      | leftBrace => exact block_closable prolongs closable leaves (fun rest depth => rfl) run
      | identifier name =>
          have here (rest : List Token) (depth : Nat) := statementHere_run limit assembly inner
            ⟨.identifier name :: rest, depth⟩
          by_cases isIf : name = "if"
          · simp only [if_pos isIf] at here
            exact branchClosable.behind (by simp) here run
          by_cases isWhile : name = "while"
          · simp only [if_neg isIf, if_pos isWhile] at here
            exact loopClosable.behind (by simp) here run
          simp only [if_neg isIf, if_neg isWhile] at here
          rw [here] at run
          obtain ⟨left, leavesOpen, closes⟩ :=
            Closable.ofDelimits (assignment_delimits limit assembly) _ _ _ _ run
          refine ⟨left, leavesOpen, fun count => ?_⟩
          rw [List.cons_append, here]
          exact closes count
      | _ => simp [statementHere_run, unexpected_run] at run

end

theorem statementWithin_closable (assembly : Assembly σ) (levels : Nat) :
    Closable (statementWithin limit assembly levels) := by
  induction levels with
  | zero =>
      intro rest depth value after run
      cases run
  | succ levels inductionHypothesis =>
      exact (statementHere_closable (statementWithin_prolongs assembly levels) inductionHypothesis
        (statementWithin_leaves assembly levels)).nested

theorem statement_closable (limit : Nat) (assembly : Assembly σ) :
    Closable (statement limit assembly) := by
  intro rest depth value after run
  exact statementWithin_closable assembly (limit - depth) rest depth value after run

/-- With as many closing braces behind the tokens as are open there, or with fewer, the parser
returns the same and leaves no more of them than are open behind what it passed. -/
def Absorbs (parser : Parser α) : Prop :=
  ∀ cursor value after, parser cursor = .ok value after →
    ∀ count ≤ openBraces 0 cursor.rest, ∃ remaining ≤ openBraces 0 after.rest,
      parser ⟨cursor.rest ++ closings count, cursor.depth⟩ =
        .ok value ⟨after.rest ++ closings remaining, after.depth⟩

namespace Absorbs

variable {parser : Parser α}

theorem pure (value : α) : Absorbs (Pure.pure value : Parser α) := by
  intro cursor result after run count noMore
  cases run
  exact ⟨count, noMore, rfl⟩

theorem bind
    {next : α → Parser β} (absorbs : Absorbs parser) (nextAbsorbs : ∀ value, Absorbs (next value)) :
    Absorbs (parser >>= next) := by
  intro cursor result after run count noMore
  obtain ⟨value, middle, firstRun, secondRun⟩ := bind_eq_ok_iff.1 run
  obtain ⟨between, fewer, first⟩ := absorbs _ _ _ firstRun count noMore
  obtain ⟨remaining, fewest, second⟩ := nextAbsorbs value _ _ _ secondRun between fewer
  refine ⟨remaining, fewest, ?_⟩
  rw [bind_of_ok first]
  exact second

end Absorbs

theorem statement_absorbs (limit : Nat) (assembly : Assembly σ) :
    Absorbs (statement limit assembly) := by
  intro cursor value after run count noMore
  obtain ⟨rest, depth⟩ := cursor
  obtain ⟨remaining, afterDepth⟩ := after
  by_cases atEnd : remaining = []
  · subst atEnd
    obtain ⟨left, leavesOpen, closes⟩ := statement_closable limit assembly _ _ _ _ run
    have enough : count ≤ left := by simpa [leavesOpen] using noMore
    refine ⟨0, Nat.le_refl _, ?_⟩
    rw [closes count, Nat.sub_eq_zero_of_le enough]
    rfl
  · obtain ⟨sameBraces, same⟩ := (statement_prolongs limit assembly _ _ _ run).beforeEnd atEnd
    exact ⟨count, (sameBraces 0) ▸ noMore, same _⟩

/-- The brace that ends a main program takes nothing off the count. -/
theorem openBraces_of_closes
    {word : List Token} (closes : ∀ opened, openBraces (opened + 1) word = opened) :
    openBraces 0 word = 0 := by
  have noMore := openBraces_mono (Nat.zero_le 1) word
  rw [closes 0] at noMore
  exact Nat.le_zero.1 noMore

theorem block_absorbs
    {inner : Parser σ} (prolongs : Prolongs inner) (closable : Closable inner)
    (leaves : Leaves 1 inner) (assembly : Assembly σ) : Absorbs (block assembly inner) := by
  intro cursor value after run count noMore
  obtain ⟨rest, depth⟩ := cursor
  unfold block at run
  rw [get_bind] at run
  obtain ⟨values, ⟨remaining, afterDepth⟩, statementsRun, returned⟩ := bind_eq_ok_iff.1 run
  cases returned
  by_cases atEnd : remaining = []
  · subst atEnd
    refine ⟨0, Nat.le_refl _, ?_⟩
    cases statements_stopped prolongs closable leaves _ (Nat.le_refl _) statementsRun with
    | closed closes same =>
        obtain rfl : count = 0 := Nat.le_zero.1 (openBraces_of_closes closes ▸ noMore)
        exact block_of_lists assembly (same [])
    | unclosed left leavesOpen closes =>
        have enough : count ≤ left := by simpa [leavesOpen] using noMore
        have lists := closes count
        rw [Nat.sub_eq_zero_of_le (Nat.le_succ_of_le enough)] at lists
        exact block_of_lists assembly lists
  · cases statements_listed prolongs leaves _ (Nat.le_refl _) statementsRun with
    | closed word shape closes same =>
        refine ⟨count, ?_, block_of_lists assembly (same (closings count))⟩
        rw [shape, openBraces_append, openBraces_of_closes closes] at noMore
        exact noMore
    | atEnd nothing => exact absurd nothing atEnd
    | unclosed nothing => exact absurd nothing atEnd

/-- Closing braces behind a name make no definition of it. -/
theorem noDefinition_closings
    {tokens : List Token} (noDefinition : ∀ name, ¬ [.procedure name, .colon] <+: tokens)
    (count : Nat) (name : String) : ¬ [.procedure name, .colon] <+: tokens ++ closings count := by
  intro begins
  rcases definition_of_append begins with rfl | rfl | beginsToo
  · cases count <;> simp [closings, List.replicate_succ] at begins
  · cases count <;> simp [closings, List.replicate_succ] at begins
  · exact noDefinition name beginsToo

theorem item_absorbs (limit : Nat) (assembly : Assembly σ) : Absorbs (item limit assembly) := by
  have main := (block_absorbs (statement_prolongs limit assembly)
    (statement_closable limit assembly) (statement_leaves limit assembly) assembly).bind
    fun main => Absorbs.pure (Program.mainName, main)
  intro cursor defined after run count noMore
  obtain ⟨rest, depth⟩ := cursor
  by_cases isDefinition : ∃ name, [.procedure name, .colon] <+: rest
  · obtain ⟨name, further, rfl⟩ := isDefinition
    have body := (statement_absorbs limit assembly).bind fun body => Absorbs.pure (name, body)
    exact body ⟨further, depth⟩ defined after run count noMore
  · have noDefinition := not_exists.1 isDefinition
    rw [item_run_of_main _ _ noDefinition] at run
    rw [item_run_of_main _ _ (noDefinition_closings noDefinition count)]
    exact main _ _ _ run count noMore

theorem items_absorbs
    (limit : Nat) (assembly : τ → Assembly σ) (enter : τ → String → σ → τ) (fuel : Nat)
    (table : τ) : Absorbs (items limit assembly enter fuel table) := by
  induction fuel generalizing table with
  | zero => exact Absorbs.pure table
  | succ fuel inductionHypothesis =>
      intro cursor result after run count noMore
      by_cases nothing : cursor.rest = []
      · rw [items_of_end nothing] at run
        cases run
        rw [nothing] at noMore
        obtain rfl : count = 0 := Nat.le_zero.1 noMore
        refine ⟨0, Nat.zero_le _, ?_⟩
        rw [nothing]
        exact items_of_end rfl _ _
      · have stillSome : cursor.rest ++ closings count ≠ [] := by simp [nothing]
        rw [items_run, if_neg nothing] at run
        rw [items_run, if_neg stillSome]
        exact (item_absorbs limit (assembly table)).bind (fun defined => inductionHypothesis _)
          _ _ _ run count noMore

end Grammar

namespace Program

/-- Where tokens make a program, they make the same program with closing braces behind them, as long
as these are no more than the braces that are open at the end. -/
theorem ofTokens_append_closings
    {limit : Nat} {tokens : List Token} {program : Program}
    (parsed : ofTokens limit tokens = .ok program) {count : Nat}
    (noMore : count ≤ Grammar.openBraces 0 tokens) :
    ofTokens limit (tokens ++ List.replicate count .rightBrace) = .ok program := by
  have longer : tokens.length ≤ (tokens ++ List.replicate count Token.rightBrace).length := by simp
  unfold ofTokens at parsed ⊢
  rw [Grammar.items_fuel tokens.length empty ⟨tokens, 0⟩ (Nat.le_refl _) longer] at parsed
  split at parsed
  next result after run =>
    cases parsed
    obtain ⟨remaining, _, extendedRun⟩ :=
      Grammar.items_absorbs limit _ _ _ _ _ _ _ run count noMore
    simp only [Grammar.closings] at extendedRun
    rw [extendedRun]
  next => cases parsed

/-- A main program that ends at once, and a procedure with a loop in its block, neither of which is
closed. -/
def twoLeftOpen : List Token :=
  [.rightBrace, .procedure "P", .colon, .leftBrace, .identifier "while", .leftParen, .number 1,
    .rightParen, .leftBrace, .identifier "x", .increment, .semicolon]

theorem ofTokens_append_closings_innermost :
    ∃ program, ofTokens 4 twoLeftOpen = .ok program ∧ 1 ≤ Grammar.openBraces 0 twoLeftOpen ∧
      ofTokens 4 (twoLeftOpen ++ List.replicate 1 .rightBrace) = .ok program := by
  have parsed : ofTokens 4 twoLeftOpen = .ok _ := rfl
  exact ⟨_, parsed, by decide, ofTokens_append_closings parsed (by decide)⟩

end Program

end Slate
