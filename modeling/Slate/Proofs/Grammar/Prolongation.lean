import Slate.Proofs.Grammar.Braces
import Slate.Proofs.Grammar.Passing

/-!
More tokens behind a program. A statement that was read up to the end of the tokens is read in the
same way where more tokens follow, with two exceptions: a brace that was left open takes what
follows into its block, and an `else` that follows belongs to an `if` at the end. So the statements
of two balanced lists of tokens come one after the other in the joined list.
-/

set_option autoImplicit false

namespace Slate.Grammar

variable {α β σ : Type} {limit : Nat}

/-- Every success passes a word without braces, and passes it whatever follows. -/
def Delimits (parser : Parser α) : Prop :=
  Reads parser fun depth word value => BraceFree word ∧ Passes parser depth word value

theorem condition_delimits (limit : Nat) : Delimits (condition limit) := by
  refine (parenthesized_reads (ofRank_reads limit)).weaken ?_
  rintro depth _ value ⟨inside, rfl, fits⟩
  obtain ⟨derivation, room⟩ := fits.derivation
  exact ⟨by simpa using fits.braceFree, condition_passes derivation room⟩

theorem call_delimits (assembly : Assembly σ) (name : String) : Delimits (call assembly name) := by
  unfold Delimits call
  cases assembly.call? name with
  | none =>
      intro cursor value after run
      obtain ⟨_, _, _, fails⟩ := bind_eq_ok_iff.1 run
      cases fails
  | some body =>
      refine ((Reads.expect .semicolon .semicolonAfterCall).bind fun _ =>
        Reads.pure body).weaken ?_
      rintro depth _ _ ⟨_, _, _, rfl, rfl, rfl, rfl⟩
      exact ⟨by simp, fun rest => expect_bind _ _ _ rest depth⟩

/-- What stands between the target of an assignment and its semicolon. -/
theorem assignedValue_delimits (limit : Nat) (target : Ref) :
    Reads (assignedValue limit target) (fun depth word value =>
      ∃ sign further, word = sign :: further ∧ sign ≠ .at ∧ BraceFree word ∧
        ∀ rest, assignedValue limit target ⟨sign :: (further ++ .semicolon :: rest), depth⟩ =
          .ok value ⟨.semicolon :: rest, depth⟩) := by
  intro cursor value after run
  rw [assignedValue_run] at run
  split at run
  next rest shape =>
    obtain ⟨sameDepth, word, restShape, fits⟩ := (expression_reads limit).behind shape run
    obtain ⟨derivation, room⟩ := fits.derivation
    refine ⟨sameDepth, _, restShape, _, _, rfl, by decide, by simpa using fits.braceFree, ?_⟩
    intro rest
    rw [assignedValue_run]
    exact expression_before_semicolon derivation room rest
  next rest shape =>
    cases run
    exact ⟨rfl, [.increment], shape, _, [], rfl, by decide, by simp, fun rest => rfl⟩
  next rest shape =>
    cases run
    exact ⟨rfl, [.decrement], shape, _, [], rfl, by decide, by simp, fun rest => rfl⟩
  next token rest noAssign noIncrement noDecrement shape =>
    split at run
    next op found =>
      obtain ⟨sameDepth, word, restShape, operand, fits, rfl⟩ :=
        ((expression_reads limit).map (Expr.binary op (.reference target))).behind shape run
      obtain ⟨derivation, room⟩ := fits.derivation
      refine ⟨sameDepth, _, restShape, _, _, rfl, ?_, ?_, fun rest => ?_⟩
      · rintro rfl
        cases found
      · simpa [compoundOp?_noBrace found] using fits.braceFree
      · have valueRun := expression_before_semicolon derivation room rest
        rw [assignedValue_run]
        cases token <;> cases found <;> exact bind_of_ok valueRun
    next => cases run
  next => simp [unexpected_run] at run

theorem assignment_delimits (limit : Nat) (assembly : Assembly σ) :
    Delimits (assignment limit assembly) := by
  have reads := (reference_reads (ofRank_reads limit)).bind fun target =>
    (assignedValue_delimits limit target).bind fun value =>
      (Reads.expect .semicolon .semicolon).bind fun _ =>
        Reads.pure (assembly.assign target value)
  refine reads.weaken ?_
  rintro depth _ _ ⟨target, first, _, rfl, ⟨derivation, room⟩, value, _, _, rfl,
    ⟨sign, further, rfl, foreign, braceFree, assigned⟩, _, _, _, rfl, rfl, rfl, rfl⟩
  have passes : Passes (assignment limit assembly) depth _ (assembly.assign target value) :=
    assignment_passes derivation room foreign assigned
  exact ⟨by simpa [derivation.braceFree] using braceFree, by simpa using passes⟩

/-- The tokens do not begin with an `else`. -/
def NoElse (tokens : List Token) : Prop :=
  tokens.head? ≠ some (.identifier "else")

/-- A success of the parser on the way from one cursor to another, and the same run with more
tokens at the end. Either a brace was left open at the end, or the runs are the same. -/
inductive Prolonged (parser : Parser α) (cursor : Cursor) (value : α) (after : Cursor) : Prop
  | unclosed (leavesOpen : ∀ opened, opened < openBraces opened cursor.rest)
      (atEnd : after.rest = [])
  | closed (word : List Token) (shape : cursor.rest = word ++ after.rest)
      (closes : ∀ opened, openBraces opened word = opened)
      (same : ∀ more, (after.rest = [] → NoElse more) →
        parser ⟨cursor.rest ++ more, cursor.depth⟩ =
          .ok value ⟨after.rest ++ more, after.depth⟩)

theorem Prolonged.atEnd
    {parser : Parser α} {cursor after : Cursor} {value : α}
    (prolonged : Prolonged parser cursor value after) (nothing : cursor.rest = []) :
    after.rest = [] := by
  cases prolonged with
  | unclosed _ atEnd => exact atEnd
  | closed _ shape _ _ => exact (List.append_eq_nil_iff.1 (shape.symm.trans nothing)).2

def Prolongs (parser : Parser α) : Prop :=
  ∀ cursor value after, parser cursor = .ok value after → Prolonged parser cursor value after

namespace Prolongs

variable {parser : Parser α}

theorem ofDelimits (delimits : Delimits parser) : Prolongs parser := by
  intro cursor value after run
  obtain ⟨sameDepth, word, shape, braceFree, passes⟩ := delimits cursor value after run
  refine .closed word shape braceFree.openBraces_eq fun more _ => ?_
  rw [shape, List.append_assoc, passes, sameDepth]

theorem pure (value : α) : Prolongs (Pure.pure value : Parser α) := by
  intro cursor result after run
  cases run
  exact .closed [] rfl (fun opened => rfl) fun more _ => rfl

theorem bind
    {next : α → Parser β} (prolongs : Prolongs parser)
    (nextProlongs : ∀ value, Prolongs (next value)) : Prolongs (parser >>= next) := by
  intro cursor result after run
  obtain ⟨value, middle, firstRun, secondRun⟩ := bind_eq_ok_iff.1 run
  have second := nextProlongs value _ _ _ secondRun
  cases prolongs _ _ _ firstRun with
  | unclosed leavesOpen atEnd => exact .unclosed leavesOpen (second.atEnd atEnd)
  | closed word shape closes same =>
      cases second with
      | unclosed leavesOpen atEnd =>
          refine .unclosed (fun opened => ?_) atEnd
          rw [shape, openBraces_append, closes]
          exact leavesOpen opened
      | closed further secondShape secondCloses secondSame =>
          refine .closed (word ++ further) ?_ (fun opened => ?_) fun more noElse => ?_
          · rw [shape, secondShape, List.append_assoc]
          · rw [openBraces_append, closes, secondCloses]
          · have atEnd : middle.rest = [] → NoElse more := fun nothing =>
              noElse (List.append_eq_nil_iff.1 (secondShape.symm.trans nothing)).2
            rw [bind_of_ok (same more atEnd), secondSame more noElse]

theorem map (prolongs : Prolongs parser) (build : α → β) :
    Prolongs (do return build (← parser)) :=
  prolongs.bind fun value => pure (build value)

theorem nested (prolongs : Prolongs parser) : Prolongs (Grammar.nested limit parser) := by
  intro cursor value after run
  obtain ⟨below, inside, insideRun, rfl⟩ := nested_eq_ok run
  cases prolongs _ _ _ insideRun with
  | unclosed leavesOpen atEnd => exact .unclosed leavesOpen atEnd
  | closed word shape closes same =>
      refine .closed word shape closes fun more noElse => ?_
      rw [Grammar.nested, if_neg (Nat.not_le.2 below), same more noElse]

/-- A parser that passes a token and goes on as another one. -/
theorem behind
    (prolongs : Prolongs parser) {outer : Parser α} {token : Token}
    (noBrace : token ≠ .leftBrace ∧ token ≠ .rightBrace)
    (goesOn : ∀ rest depth, outer ⟨token :: rest, depth⟩ = parser ⟨rest, depth⟩)
    {rest : List Token} {depth : Nat} {value : α} {after : Cursor}
    (run : outer ⟨token :: rest, depth⟩ = .ok value after) :
    Prolonged outer ⟨token :: rest, depth⟩ value after := by
  rw [goesOn] at run
  cases prolongs _ _ _ run with
  | unclosed leavesOpen atEnd =>
      refine .unclosed (fun opened => ?_) atEnd
      rw [openBraces_cons noBrace]
      exact leavesOpen opened
  | closed word shape closes same =>
      refine .closed (token :: word) (congrArg (token :: ·) shape) (fun opened => ?_) ?_
      · rw [openBraces_cons noBrace, closes]
      · intro more noElse
        rw [List.cons_append, goesOn]
        exact same more noElse

/-- One token of lookahead decides whether there is an `else`. -/
theorem ifElse {other : Parser α} (prolongs : Prolongs parser) (otherProlongs : Prolongs other) :
    Prolongs (do if (← peek) = some (.identifier "else") then advance; parser else other) := by
  intro cursor value after run
  by_cases ahead : cursor.rest.head? = some (.identifier "else")
  · obtain ⟨rest, shape⟩ := List.head?_eq_some_iff.1 ahead
    obtain ⟨_, depth⟩ := cursor
    subst shape
    exact prolongs.behind (by simp) (ifNext_run _ parser other) run
  · rw [ifNext_run_of_ne _ _ ahead] at run
    cases otherProlongs _ _ _ run with
    | unclosed leavesOpen atEnd => exact .unclosed leavesOpen atEnd
    | closed word shape closes same =>
        refine .closed word shape closes fun more noElse => ?_
        have stillAhead : (cursor.rest ++ more).head? ≠ some (.identifier "else") := by
          cases isRest : cursor.rest with
          | nil => exact noElse (List.append_eq_nil_iff.1 (shape.symm.trans isRest)).2
          | cons token rest =>
              rw [isRest] at ahead
              exact ahead
        rw [ifNext_run_of_ne _ _ stillAhead, same more noElse]

end Prolongs

/-- With fuel for all tokens the statements from here on come to this outcome. -/
def Lists (inner : Parser σ) (done : List σ) (cursor : Cursor)
    (outcome : EStateM.Result ParseFailure Cursor (List σ)) : Prop :=
  ∀ fuel, cursor.rest.length ≤ fuel → statements inner fuel done cursor = outcome

/-- How a list of statements ended: at a closing brace, at the end of the tokens, or inside a block
that is still open there. -/
inductive Listed (inner : Parser σ) (done : List σ) (cursor : Cursor) (values : List σ)
    (after : Cursor) : Prop
  | closed (word : List Token) (shape : cursor.rest = word ++ after.rest)
      (closes : ∀ opened, openBraces (opened + 1) word = opened)
      (same : ∀ more, Lists inner done ⟨cursor.rest ++ more, cursor.depth⟩
        (.ok values ⟨after.rest ++ more, after.depth⟩))
  | atEnd (nothing : after.rest = []) (closes : ∀ opened, openBraces opened cursor.rest = opened)
      (goesOn : ∀ more outcome, NoElse more →
        Lists inner values.reverse ⟨more, after.depth⟩ outcome →
          Lists inner done ⟨cursor.rest ++ more, cursor.depth⟩ outcome)
  | unclosed (nothing : after.rest = [])
      (leavesOpen : ∀ opened, opened < openBraces opened cursor.rest)

section

variable {inner : Parser σ}

theorem Lists.cons
    {done : List σ} {token : Token} {rest : List Token} {depth : Nat}
    {statement : σ} {middle : Cursor} {outcome : EStateM.Result ParseFailure Cursor (List σ)}
    (noBrace : token ≠ .rightBrace)
    (run : inner ⟨token :: rest, depth⟩ = .ok statement middle)
    (shorter : middle.rest.length ≤ rest.length)
    (lists : Lists inner (statement :: done) middle outcome) :
    Lists inner done ⟨token :: rest, depth⟩ outcome := by
  intro fuel enough
  obtain ⟨fuel, rfl⟩ := Nat.exists_eq_succ_of_ne_zero (Nat.ne_zero_of_lt enough)
  rw [statements_run]
  split
  next nothing => cases nothing
  next isBrace =>
    cases isBrace
    exact absurd rfl noBrace
  next =>
    rw [bind_of_ok run]
    exact lists fuel (Nat.le_trans shorter (Nat.le_of_succ_le_succ enough))

theorem Listed.nothingLeft
    {done values : List σ} {cursor after : Cursor} (listed : Listed inner done cursor values after)
    (nothing : cursor.rest = []) : after.rest = [] := by
  cases listed with
  | closed _ shape _ _ => exact (List.append_eq_nil_iff.1 (shape.symm.trans nothing)).2
  | atEnd nothingLeft _ _ => exact nothingLeft
  | unclosed nothingLeft _ => exact nothingLeft

theorem listed_nil {done : List σ} {cursor : Cursor} (nothing : cursor.rest = []) :
    Listed inner done cursor done.reverse cursor := by
  refine .atEnd nothing (fun opened => ?_) fun more outcome _ lists => ?_
  · rw [nothing]
    rfl
  · rwa [nothing, List.nil_append, ← List.reverse_reverse done]

/-- One more statement in front. -/
theorem Prolonged.listed
    {token : Token} {rest : List Token} {depth : Nat} {statement : σ} {middle after : Cursor}
    {done values : List σ}
    (prolonged : Prolonged inner ⟨token :: rest, depth⟩ statement middle)
    (noBrace : token ≠ .rightBrace) (shorter : middle.rest.length ≤ rest.length)
    (further : Listed inner (statement :: done) middle values after) :
    Listed inner done ⟨token :: rest, depth⟩ values after := by
  have shorterToo (more : List Token) : (middle.rest ++ more).length ≤ (rest ++ more).length := by
    rw [List.length_append, List.length_append]
    exact Nat.add_le_add_right shorter _
  cases prolonged with
  | unclosed leavesOpen atEnd => exact .unclosed (further.nothingLeft atEnd) leavesOpen
  | closed word shape closes same =>
      cases further with
      | closed block blockShape blockCloses blockSame =>
          refine .closed (word ++ block) ?_ (fun opened => ?_) fun more => ?_
          · rw [shape, blockShape, List.append_assoc]
          · rw [openBraces_append, closes, blockCloses]
          · -- The brace at the end of the block stands before the additional tokens.
            have notAtEnd : middle.rest = [] → NoElse more := by
              intro nothing
              rw [(List.append_eq_nil_iff.1 (blockShape.symm.trans nothing)).1] at blockCloses
              cases blockCloses 0
            exact Lists.cons noBrace (same more notAtEnd) (shorterToo more) (blockSame more)
      | atEnd nothing restCloses goesOn =>
          refine .atEnd nothing (fun opened => ?_) fun more outcome noElse lists => ?_
          · rw [shape, openBraces_append, closes, restCloses]
          · exact Lists.cons noBrace (same more fun _ => noElse) (shorterToo more)
              (goesOn more outcome noElse lists)
      | unclosed nothing leavesOpen =>
          refine .unclosed nothing fun opened => ?_
          rw [shape, openBraces_append, closes]
          exact leavesOpen opened

theorem statements_listed
    (prolongs : Prolongs inner) (leaves : Leaves 1 inner) (fuel : Nat) {done values : List σ}
    {cursor after : Cursor} (enough : cursor.rest.length ≤ fuel)
    (run : statements inner fuel done cursor = .ok values after) :
    Listed inner done cursor values after := by
  induction fuel generalizing done cursor with
  | zero =>
      cases run
      exact listed_nil (List.eq_nil_of_length_eq_zero (Nat.le_zero.1 enough))
  | succ fuel inductionHypothesis =>
      obtain ⟨_ | ⟨token, rest⟩, depth⟩ := cursor
      · cases run
        exact listed_nil rfl
      by_cases isBrace : token = .rightBrace
      · subst isBrace
        cases run
        refine .closed [.rightBrace] rfl (fun opened => rfl) fun more fuel enough => ?_
        obtain ⟨fuel, rfl⟩ := Nat.exists_eq_succ_of_ne_zero (Nat.ne_zero_of_lt enough)
        rfl
      · rw [statements_run] at run
        split at run
        next nothing => cases nothing
        next closing =>
          cases closing
          exact absurd rfl isBrace
        next =>
          obtain ⟨statement, middle, innerRun, restRun⟩ := bind_eq_ok_iff.1 run
          have shorter : middle.rest.length ≤ rest.length :=
            Nat.le_of_succ_le_succ (leaves _ _ _ innerRun).shorter
          have fewer := Nat.le_trans shorter (Nat.le_of_succ_le_succ enough)
          exact (prolongs _ _ _ innerRun).listed isBrace shorter
            (inductionHypothesis fewer restRun)

variable {assembly : Assembly σ}

theorem block_prolongs
    (prolongs : Prolongs inner) (leaves : Leaves 1 inner) {outer : Parser σ}
    (goesOn : ∀ rest depth,
      outer ⟨.leftBrace :: rest, depth⟩ = block assembly inner ⟨rest, depth⟩)
    {rest : List Token} {depth : Nat} {value : σ} {after : Cursor}
    (run : outer ⟨.leftBrace :: rest, depth⟩ = .ok value after) :
    Prolonged outer ⟨.leftBrace :: rest, depth⟩ value after := by
  rw [goesOn, block, get_bind] at run
  obtain ⟨values, _, statementsRun, returned⟩ := bind_eq_ok_iff.1 run
  cases returned
  cases statements_listed prolongs leaves _ (Nat.le_refl _) statementsRun with
  | closed word shape closes same =>
      refine .closed (.leftBrace :: word) (congrArg (Token.leftBrace :: ·) shape) closes ?_
      intro more _
      rw [List.cons_append, goesOn, block, get_bind, bind_of_ok (same more _ (Nat.le_refl _))]
      rfl
  | atEnd nothing closes _ =>
      refine .unclosed (fun opened => ?_) nothing
      rw [openBraces, closes]
      exact Nat.lt_succ_self opened
  | unclosed nothing leavesOpen =>
      refine .unclosed (fun opened => ?_) nothing
      rw [openBraces]
      exact Nat.lt_of_succ_lt (leavesOpen (opened + 1))

theorem statementHere_prolongs (prolongs : Prolongs inner) (leaves : Leaves 1 inner) :
    Prolongs (statementHere limit assembly inner) := by
  have conditionProlongs := Prolongs.ofDelimits (condition_delimits limit)
  have branchProlongs : Prolongs (branch limit assembly inner) :=
    conditionProlongs.bind fun condition => prolongs.bind fun accepted =>
      (prolongs.map _).ifElse (Prolongs.pure _)
  have loopProlongs : Prolongs (loop limit assembly inner) :=
    conditionProlongs.bind fun condition => prolongs.map _
  intro cursor value after run
  obtain ⟨_ | ⟨token, rest⟩, depth⟩ := cursor
  · simp [statementHere_run, unexpected_run] at run
  cases token with
  | procedure name =>
      exact (Prolongs.ofDelimits (call_delimits assembly name)).behind (by simp)
        (fun rest depth => rfl) run
  | leftBrace => exact block_prolongs prolongs leaves (fun rest depth => rfl) run
  | identifier name =>
      have here (rest : List Token) (depth : Nat) := statementHere_run limit assembly inner
        ⟨.identifier name :: rest, depth⟩
      by_cases isIf : name = "if"
      · simp only [if_pos isIf] at here
        exact branchProlongs.behind (by simp) here run
      by_cases isWhile : name = "while"
      · simp only [if_neg isIf, if_pos isWhile] at here
        exact loopProlongs.behind (by simp) here run
      simp only [if_neg isIf, if_neg isWhile] at here
      rw [here] at run
      cases Prolongs.ofDelimits (assignment_delimits limit assembly) _ _ _ run with
      | unclosed leavesOpen atEnd => exact .unclosed leavesOpen atEnd
      | closed word shape closes same =>
          refine .closed word shape closes fun more noElse => ?_
          rw [List.cons_append, here]
          exact same more noElse
  | _ => simp [statementHere_run, unexpected_run] at run

end

theorem statementWithin_prolongs (assembly : Assembly σ) (levels : Nat) :
    Prolongs (statementWithin limit assembly levels) := by
  induction levels with
  | zero =>
      intro cursor value after run
      cases run
  | succ levels inductionHypothesis =>
      exact (statementHere_prolongs inductionHypothesis
        (statementWithin_leaves assembly levels)).nested

theorem statement_prolongs (limit : Nat) (assembly : Assembly σ) :
    Prolongs (statement limit assembly) := by
  intro cursor value after run
  cases statementWithin_prolongs assembly _ cursor value after run with
  | unclosed leavesOpen atEnd => exact .unclosed leavesOpen atEnd
  | closed word shape closes same => exact .closed word shape closes same

theorem statements_prepend
    {inner : Parser σ} {fuel : Nat} {done values : List σ} {cursor after : Cursor}
    (run : statements inner fuel done cursor = .ok values after) (earlier : List σ) :
    statements inner fuel (done ++ earlier) cursor = .ok (earlier.reverse ++ values) after := by
  induction fuel generalizing done cursor with
  | zero =>
      cases run
      exact congrArg (EStateM.Result.ok · _) List.reverse_append
  | succ fuel inductionHypothesis =>
      rw [statements_run] at run ⊢
      split at run
      next =>
        cases run
        rw [List.reverse_append]
      next =>
        cases run
        rw [List.reverse_append]
      next =>
        obtain ⟨statement, middle, innerRun, restRun⟩ := bind_eq_ok_iff.1 run
        rw [bind_of_ok innerRun]
        exact inductionHypothesis restRun

theorem block_of_lists
    (assembly : Assembly σ) {inner : Parser σ} {cursor after : Cursor} {body : List σ}
    (lists : Lists inner [] cursor (.ok body after)) :
    block assembly inner cursor = .ok (assembly.block body) after := by
  unfold block
  rw [get_bind, bind_of_ok (lists _ (Nat.le_refl _)), pure_run]

/-- The tokens are a main program with this body. -/
def ListsMain (limit : Nat) (tokens : List Token) (body : List Stmt) : Prop :=
  Lists (statement limit (.ofProgram .empty)) [] ⟨tokens, 0⟩ (.ok body ⟨[], 0⟩)

theorem preserves_trivial (limit : Nat) (assembly : Assembly σ) :
    assembly.Preserves limit (fun _ _ => True) where
  block _ := trivial
  assign _ _ := trivial
  branch _ _ _ := trivial
  loop _ _ := trivial
  call _ := trivial

/-- A closing brace that ended the list would have no partner. -/
theorem Listed.goesOn_of_balanced
    {inner : Parser σ} {done values : List σ} {tokens : List Token} {depth : Nat} {after : Cursor}
    (listed : Listed inner done ⟨tokens, depth⟩ values after) (balanced : Balanced tokens)
    (nothing : after.rest = []) {more : List Token} (noElse : NoElse more)
    {outcome : EStateM.Result ParseFailure Cursor (List σ)}
    (lists : Lists inner values.reverse ⟨more, after.depth⟩ outcome) :
    Lists inner done ⟨tokens ++ more, depth⟩ outcome := by
  obtain ⟨matched, noneOpen⟩ := balanced
  cases listed with
  | closed word shape closes _ =>
      obtain rfl : tokens = word := by simpa [nothing] using shape
      have oneMore := openBraces_add matched 1
      rw [noneOpen, closes] at oneMore
      cases oneMore
  | atEnd _ _ goesOn => exact goesOn more outcome noElse lists
  | unclosed _ leavesOpen =>
      have openToo := leavesOpen 0
      rw [noneOpen] at openToo
      cases openToo

section

variable {tokens : List Token} (noProcedures : ∀ name, .procedure name ∉ tokens)
  (nonempty : tokens ≠ [])

include noProcedures

theorem item_eq_main (limit : Nat) (assembly : Assembly σ) (depth : Nat) :
    item limit assembly ⟨tokens, depth⟩ =
      (do return (Program.mainName, ← block assembly (statement limit assembly)) : Parser _)
        ⟨tokens, depth⟩ := by
  rw [item_run]
  split
  next name rest shape =>
    refine absurd ?_ (noProcedures name)
    simp only at shape
    simp [shape]
  next => rfl

include nonempty

/-- Tokens without procedures begin with a main program. -/
theorem items_eq_main (limit : Nat) :
    items limit .ofProgram Program.define tokens.length .empty ⟨tokens, 0⟩ =
      (do
        let main ← block (.ofProgram .empty) (statement limit (.ofProgram .empty))
        items limit .ofProgram Program.define (tokens.length - 1)
          (Program.empty.define Program.mainName main)) ⟨tokens, 0⟩ := by
  have positive := List.length_pos_iff.2 nonempty
  obtain ⟨fuel, length⟩ := Nat.exists_eq_succ_of_ne_zero (Nat.ne_zero_of_lt positive)
  rw [length, items_run, if_neg nonempty]
  cases run : block (.ofProgram .empty) (statement limit (.ofProgram .empty)) ⟨tokens, 0⟩ with
  | ok main after =>
      have itemRun := (item_eq_main noProcedures limit _ 0).trans (bind_of_ok run)
      rw [bind_of_ok itemRun, bind_of_ok run]
      rfl
  | error failure stopped =>
      have itemRun := (item_eq_main noProcedures limit _ 0).trans (bind_of_error run)
      rw [bind_of_error itemRun, bind_of_error run]

theorem ofTokens_of_listsMain {body : List Stmt} (lists : ListsMain limit tokens body) :
    Program.ofTokens limit tokens = .ok (Program.empty.define Program.mainName (.block body)) := by
  unfold Program.ofTokens
  rw [items_eq_main noProcedures nonempty, bind_of_ok (block_of_lists _ lists), items_nil]
  rfl

theorem listsMain_of_ofTokens
    {program : Program} (balanced : Balanced tokens)
    (parsed : Program.ofTokens limit tokens = .ok program) :
    ∃ body, program = Program.empty.define Program.mainName (.block body) ∧
      ∀ more further, NoElse more → ListsMain limit more further →
        ListsMain limit (tokens ++ more) (body ++ further) := by
  have innerLeaves := statement_leaves limit (.ofProgram .empty)
  unfold Program.ofTokens at parsed
  rw [items_eq_main noProcedures nonempty] at parsed
  split at parsed
  next program _ run =>
    cases parsed
    obtain ⟨main, middle, blockRun, itemsRun⟩ := bind_eq_ok_iff.1 run
    have toTheEnd := (block_closes innerLeaves blockRun).toTheEnd balanced.1
    have reads := statement_reads (preserves_trivial limit (.ofProgram .empty)).among
    have sameDepth := (block_reads reads _ _ _ blockRun).1
    obtain ⟨rest, depth⟩ := middle
    simp only at toTheEnd sameDepth
    subst toTheEnd sameDepth
    rw [items_nil] at itemsRun
    cases itemsRun
    unfold block at blockRun
    rw [get_bind] at blockRun
    obtain ⟨body, _, statementsRun, returned⟩ := bind_eq_ok_iff.1 blockRun
    cases returned
    have listed := statements_listed (statement_prolongs limit _) innerLeaves _ (Nat.le_refl _)
      statementsRun
    refine ⟨body, rfl, fun more further noElse lists => ?_⟩
    refine listed.goesOn_of_balanced balanced rfl noElse fun fuel enough => ?_
    have prepended := statements_prepend (lists fuel enough) body.reverse
    rwa [List.nil_append, List.reverse_reverse] at prepended
  next => cases parsed

end

/-- The main program of joined tokens, by those of the parts. -/
inductive JoinsMain : Option Stmt → Option Stmt → Option Stmt → Prop
  | second (main? : Option Stmt) : JoinsMain none main? main?
  | first (main? : Option Stmt) : JoinsMain main? none main?
  | both (body further : List Stmt) :
      JoinsMain (some (.block body)) (some (.block further)) (some (.block (body ++ further)))

theorem ofTokens_append
    {tokens others : List Token} {program other : Program}
    (parsed : Program.ofTokens limit tokens = .ok program)
    (parsedToo : Program.ofTokens limit others = .ok other)
    (noProcedures : ∀ name, .procedure name ∉ tokens) (noneToo : ∀ name, .procedure name ∉ others)
    (balanced : Balanced tokens) (balancedToo : Balanced others) (noElse : NoElse others) :
    ∃ joined, Program.ofTokens limit (tokens ++ others) = .ok joined ∧
      JoinsMain program.main? other.main? joined.main? := by
  by_cases nothing : tokens = []
  · subst nothing
    cases parsed
    exact ⟨other, parsedToo, by simpa [Program.main?] using JoinsMain.second other.main?⟩
  by_cases nothingToo : others = []
  · subst nothingToo
    cases parsedToo
    exact ⟨program, by rwa [List.append_nil],
      by simpa [Program.main?] using JoinsMain.first program.main?⟩
  obtain ⟨body, rfl, goesOn⟩ := listsMain_of_ofTokens noProcedures nothing balanced parsed
  obtain ⟨further, rfl, ends⟩ := listsMain_of_ofTokens noneToo nothingToo balancedToo parsedToo
  have lists : ListsMain limit others further := by
    have atEnd := ends [] [] (by simp [NoElse]) fun fuel _ => by cases fuel <;> rfl
    rwa [List.append_nil, List.append_nil] at atEnd
  have noneAtAll : ∀ name, .procedure name ∉ tokens ++ others := by
    intro name member
    rcases List.mem_append.1 member with here | there
    · exact noProcedures name here
    · exact noneToo name there
  refine ⟨_, ofTokens_of_listsMain noneAtAll (by simp [nothing])
    (goesOn others further noElse lists), ?_⟩
  simpa [Program.main?, Program.find?_define] using JoinsMain.both body further

end Slate.Grammar
