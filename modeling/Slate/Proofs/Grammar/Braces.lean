import Slate.Proofs.Grammar.Statement

/-!
Braces. A statement passes a closing brace only for an opening brace that it passed before, or it
goes to the end of the tokens. So a main program ends before the last token only at a closing brace
without a partner, and tokens without one that do not begin with a definition are a single item.
-/

set_option autoImplicit false

namespace Slate.Grammar

variable {α β σ τ : Type} {limit taken opened : Nat}

/-- Every closing brace has a partner, which stands before it or is one of those already open. -/
def bracesMatch : (opened : Nat) → List Token → Bool
  | _, [] => true
  | opened, .leftBrace :: rest => bracesMatch (opened + 1) rest
  | 0, .rightBrace :: _ => false
  | opened + 1, .rightBrace :: rest => bracesMatch opened rest
  | opened, _ :: rest => bracesMatch opened rest

/-- The braces that are open behind the tokens, of which so many were open before them. -/
def openBraces : (opened : Nat) → List Token → Nat
  | opened, [] => opened
  | opened, .leftBrace :: rest => openBraces (opened + 1) rest
  | opened, .rightBrace :: rest => openBraces (opened - 1) rest
  | opened, _ :: rest => openBraces opened rest

/-- Every closing brace closes one that stands before it, and none is left open. -/
def Balanced (tokens : List Token) : Prop :=
  bracesMatch 0 tokens = true ∧ openBraces 0 tokens = 0

def BraceFree (word : List Token) : Prop :=
  ∀ token ∈ word, token ≠ .leftBrace ∧ token ≠ .rightBrace

theorem bracesMatch_cons
    {token : Token} (noBrace : token ≠ .leftBrace ∧ token ≠ .rightBrace) (opened : Nat)
    (rest : List Token) : bracesMatch opened (token :: rest) = bracesMatch opened rest := by
  cases token <;> cases opened <;> simp_all [bracesMatch]

theorem openBraces_cons
    {token : Token} (noBrace : token ≠ .leftBrace ∧ token ≠ .rightBrace) (opened : Nat)
    (rest : List Token) : openBraces opened (token :: rest) = openBraces opened rest := by
  cases token <;> simp_all [openBraces]

theorem openBraces_append (opened : Nat) (first second : List Token) :
    openBraces opened (first ++ second) = openBraces (openBraces opened first) second := by
  induction first generalizing opened with
  | nil => rfl
  | cons token first inductionHypothesis =>
      cases token <;> exact inductionHypothesis _

/-- Braces that were open before, and that no closing brace reaches, stay open. -/
theorem openBraces_add
    {opened : Nat} {tokens : List Token} (matched : bracesMatch opened tokens = true)
    (outer : Nat) : openBraces (opened + outer) tokens = openBraces opened tokens + outer := by
  fun_induction bracesMatch opened tokens with
  | case1 => rfl
  | case2 opened rest inductionHypothesis =>
      rw [openBraces, openBraces, Nat.add_right_comm]
      exact inductionHypothesis matched
  | case3 => cases matched
  | case4 opened rest inductionHypothesis =>
      have lower : opened + 1 + outer - 1 = opened + outer := by omega
      rw [openBraces, openBraces, lower]
      exact inductionHypothesis matched
  | case5 opened token rest noLeft noneOpen someOpen inductionHypothesis =>
      have noRight : token ≠ .rightBrace := by
        rintro rfl
        cases opened with
        | zero => exact noneOpen rfl rfl
        | succ opened => exact someOpen opened rfl rfl
      rw [openBraces_cons ⟨noLeft, noRight⟩, openBraces_cons ⟨noLeft, noRight⟩]
      exact inductionHypothesis matched

theorem BraceFree.openBraces_eq
    {word : List Token} (braceFree : BraceFree word) (opened : Nat) :
    openBraces opened word = opened := by
  induction word with
  | nil => rfl
  | cons token word inductionHypothesis =>
      obtain ⟨noBrace, wordFree⟩ := List.forall_mem_cons.1 braceFree
      rw [openBraces_cons noBrace, inductionHypothesis wordFree]

theorem BraceFree.bracesMatch_append
    {word : List Token} (braceFree : BraceFree word) (opened : Nat) (rest : List Token) :
    bracesMatch opened (word ++ rest) = bracesMatch opened rest := by
  induction word with
  | nil => rfl
  | cons token word inductionHypothesis =>
      obtain ⟨noBrace, wordFree⟩ := List.forall_mem_cons.1 braceFree
      rw [List.cons_append, bracesMatch_cons noBrace, inductionHypothesis wordFree]

@[simp]
theorem braceFree_nil : BraceFree [] :=
  List.forall_mem_nil _

@[simp]
theorem braceFree_cons {token : Token} {word : List Token} :
    BraceFree (token :: word) ↔
      (token ≠ .leftBrace ∧ token ≠ .rightBrace) ∧ BraceFree word :=
  List.forall_mem_cons

@[simp]
theorem braceFree_append {first second : List Token} :
    BraceFree (first ++ second) ↔ BraceFree first ∧ BraceFree second :=
  List.forall_mem_append

theorem sign_noBrace (op : BinaryOp) : op.sign ≠ .leftBrace ∧ op.sign ≠ .rightBrace := by
  cases op <;> decide

theorem Derivation.braceFree
    {category : Category} {word : List Token} {value : Expr}
    (derivation : Derivation category word value) : BraceFree word := by
  induction derivation with
  | _ => simp_all [sign_noBrace]

/-- A phrase has a token, and no brace. -/
theorem Derivation.nonempty_braceFree
    {category : Category} {word : List Token} {value : Expr}
    (derivation : Derivation category word value) : 1 ≤ word.length ∧ BraceFree word := by
  obtain ⟨token, rest, rfl, _⟩ := derivation.begins
  exact ⟨Nat.le_add_left 1 rest.length, derivation.braceFree⟩

/-- At least so many tokens were taken, and among those left behind no closing brace has lost its
partner. -/
structure Left (taken : Nat) (cursor after : Cursor) : Prop where
  shorter : after.rest.length + taken ≤ cursor.rest.length
  partners : ∀ opened, bracesMatch opened cursor.rest → bracesMatch opened after.rest

theorem Left.weaken
    {cursor after : Cursor} (left : Left taken cursor after) {fewer : Nat}
    (noMore : fewer ≤ taken) : Left fewer cursor after :=
  ⟨Nat.le_trans (Nat.add_le_add_left noMore _) left.shorter, left.partners⟩

/-- This is so after every success of the parser. -/
def Leaves (taken : Nat) (parser : Parser α) : Prop :=
  ∀ cursor value after, parser cursor = .ok value after → Left taken cursor after

namespace Leaves

variable {parser : Parser α}

theorem weaken {fewer : Nat} (leaves : Leaves taken parser) (noMore : fewer ≤ taken) :
    Leaves fewer parser :=
  fun cursor value after run => (leaves cursor value after run).weaken noMore

theorem pure (value : α) : Leaves 0 (Pure.pure value : Parser α) := by
  intro cursor result after run
  cases run
  exact ⟨Nat.le_refl _, fun _ matched => matched⟩

theorem bind
    {next : α → Parser β} (leaves : Leaves taken parser)
    (nextLeaves : ∀ value, Leaves 0 (next value)) : Leaves taken (parser >>= next) := by
  intro cursor result after run
  obtain ⟨value, middle, firstRun, secondRun⟩ := bind_eq_ok_iff.1 run
  have first := leaves _ _ _ firstRun
  have second := nextLeaves value _ _ _ secondRun
  refine ⟨?_, fun opened matched => second.partners opened (first.partners opened matched)⟩
  exact Nat.le_trans (Nat.add_le_add_right second.shorter taken) first.shorter

theorem map (leaves : Leaves taken parser) (build : α → β) :
    Leaves taken (do return build (← parser)) :=
  leaves.bind fun value => pure (build value)

/-- A word without braces takes no partner away. -/
theorem ofReads
    {phrase : Nat → List Token → α → Prop} (reads : Reads parser phrase)
    (plain : ∀ {depth word value}, phrase depth word value → taken ≤ word.length ∧ BraceFree word) :
    Leaves taken parser := by
  intro cursor value after run
  obtain ⟨_, word, shape, holds⟩ := reads cursor value after run
  obtain ⟨long, braceFree⟩ := plain holds
  refine ⟨?_, fun opened matched => ?_⟩
  · rw [shape, List.length_append, Nat.add_comm]
    exact Nat.add_le_add_right long _
  · rwa [shape, braceFree.bracesMatch_append] at matched

theorem behind
    (leaves : Leaves taken parser) {token : Token}
    (noBrace : token ≠ .leftBrace ∧ token ≠ .rightBrace) {rest : List Token}
    {cursor after : Cursor} {value : α} (shape : cursor.rest = token :: rest)
    (run : parser ⟨rest, cursor.depth⟩ = .ok value after) : Left 1 cursor after := by
  have step := leaves _ _ _ run
  refine ⟨?_, fun opened matched => step.partners opened ?_⟩
  · rw [shape]
    exact Nat.succ_le_succ (Nat.le_of_add_right_le step.shorter)
  · rwa [shape, bracesMatch_cons noBrace] at matched

theorem ifNext
    {other : Parser α} {token : Token} (noBrace : token ≠ .leftBrace ∧ token ≠ .rightBrace)
    (leaves : Leaves 0 parser) (otherLeaves : Leaves 0 other) :
    Leaves 0 (do if (← peek) = some token then advance; parser else other) := by
  intro cursor value after run
  by_cases ahead : cursor.rest.head? = some token
  · obtain ⟨rest, shape⟩ := List.head?_eq_some_iff.1 ahead
    rw [peek_bind, if_pos ahead, advance_bind, shape, List.tail_cons] at run
    exact (leaves.behind noBrace shape run).weaken (Nat.zero_le 1)
  · rw [ifNext_run_of_ne _ _ ahead] at run
    exact otherLeaves cursor value after run

theorem expect
    {token : Token} (noBrace : token ≠ .leftBrace ∧ token ≠ .rightBrace) (expected : Expected) :
    Leaves 0 (Grammar.expect token expected) := by
  refine ofReads (Reads.expect token expected) ?_
  rintro _ _ _ rfl
  exact ⟨Nat.zero_le _, by simpa using noBrace⟩

theorem nested (leaves : Leaves taken parser) : Leaves taken (Grammar.nested limit parser) := by
  intro cursor value after run
  obtain ⟨_, inside, insideRun, rfl⟩ := nested_eq_ok run
  have step := leaves _ _ _ insideRun
  exact ⟨step.shorter, step.partners⟩

end Leaves

theorem FitsInside.braceFree
    {depth : Nat} {category : Category} {word : List Token} {value : Expr}
    (inside : FitsInside limit category depth word value) : BraceFree word := by
  obtain ⟨derivation, _⟩ := inside.derivation
  exact derivation.braceFree

theorem Leaves.ofFits
    {parser : Parser Expr} {category : Category} (reads : Reads parser (Fits limit category)) :
    Leaves 1 parser := by
  refine Leaves.ofReads reads ?_
  rintro depth word value ⟨derivation, _⟩
  exact derivation.nonempty_braceFree

theorem expression_leaves (limit : Nat) : Leaves 1 (expression limit) := by
  refine Leaves.ofReads (expression_reads limit) ?_
  rintro depth word value ⟨_, derivation, _⟩
  exact derivation.nonempty_braceFree

theorem condition_leaves (limit : Nat) : Leaves 1 (condition limit) := by
  refine Leaves.ofReads (parenthesized_reads (ofRank_reads limit)) ?_
  rintro depth _ value ⟨inside, rfl, fits⟩
  exact ⟨Nat.le_add_left 1 _, by simpa using fits.braceFree⟩

theorem reference_leaves (limit : Nat) : Leaves 1 (reference limit (ofRank limit)) := by
  refine Leaves.ofReads (reference_reads (ofRank_reads limit)) ?_
  rintro depth word ref ⟨derivation, _⟩
  exact derivation.nonempty_braceFree

theorem compoundOp?_noBrace
    {token : Token} {op : BinaryOp} (found : compoundOp? token = some op) :
    token ≠ .leftBrace ∧ token ≠ .rightBrace := by
  constructor
  · rintro rfl
    cases found
  · rintro rfl
    cases found

theorem assignedValue_leaves (limit : Nat) (target : Ref) :
    Leaves 0 (assignedValue limit target) := by
  intro cursor value after run
  refine Left.weaken ?_ (Nat.zero_le 1)
  rw [assignedValue_run] at run
  split at run
  next rest shape => exact (expression_leaves limit).behind (by decide) shape run
  next rest shape => exact (Leaves.pure _).behind (by decide) shape run
  next rest shape => exact (Leaves.pure _).behind (by decide) shape run
  next token rest _ _ _ shape =>
    split at run
    next op found =>
      exact ((expression_leaves limit).map _).behind (compoundOp?_noBrace found) shape run
    next => cases run
  next => simp [unexpected_run] at run

section

variable (assembly : Assembly σ) {inner : Parser σ}

theorem assignment_leaves (limit : Nat) : Leaves 1 (assignment limit assembly) := by
  unfold assignment
  refine (reference_leaves limit).bind fun target => ?_
  refine (assignedValue_leaves limit target).bind fun value => ?_
  exact (Leaves.expect (by decide) _).map _

theorem call_leaves (name : String) : Leaves 0 (call assembly name) := by
  unfold call
  refine (Leaves.expect (by decide) _).bind fun _ => ?_
  cases assembly.call? name with
  | none =>
      intro cursor value after run
      cases run
  | some body => exact Leaves.pure body

/-- The statements between two cursors are a block. With the brace that opened it, all partners are
left behind. Without such a brace it goes to the end, unless a closing brace has no partner. -/
structure Closes (cursor after : Cursor) : Prop where
  noLonger : after.rest.length ≤ cursor.rest.length
  partners : ∀ opened, bracesMatch (opened + 1) cursor.rest → bracesMatch opened after.rest
  toTheEnd : bracesMatch 0 cursor.rest → after.rest = []

theorem Closes.ofEnd {cursor : Cursor} (nothing : cursor.rest = []) : Closes cursor cursor := by
  refine ⟨Nat.le_refl _, fun opened _ => ?_, fun _ => nothing⟩
  rw [nothing]
  rfl

variable {assembly} (innerLeaves : Leaves 1 inner)

include innerLeaves

/-- The fuel is enough for all tokens, since every statement takes one. -/
theorem statements_close
    (fuel : Nat) (done : List σ) {cursor after : Cursor} {values : List σ}
    (enough : cursor.rest.length ≤ fuel)
    (run : statements inner fuel done cursor = .ok values after) : Closes cursor after := by
  induction fuel generalizing done cursor with
  | zero =>
      cases run
      exact .ofEnd (List.eq_nil_of_length_eq_zero (Nat.le_zero.1 enough))
  | succ fuel inductionHypothesis =>
      rw [statements_run] at run
      split at run
      next nothing =>
        cases run
        exact .ofEnd nothing
      next rest shape =>
        cases run
        refine ⟨?_, fun opened matched => ?_, fun matched => ?_⟩
        · rw [shape]
          exact Nat.le_succ _
        · rwa [shape] at matched
        · rw [shape] at matched
          cases matched
      next =>
        obtain ⟨statement, middle, innerRun, restRun⟩ := bind_eq_ok_iff.1 run
        have first := innerLeaves _ _ _ innerRun
        have fewer : middle.rest.length ≤ fuel := by
          have shorter := first.shorter
          omega
        have further := inductionHypothesis _ fewer restRun
        refine ⟨?_, fun opened matched => ?_, fun matched => ?_⟩
        · exact Nat.le_trans further.noLonger (Nat.le_of_succ_le first.shorter)
        · exact further.partners opened (first.partners _ matched)
        · exact further.toTheEnd (first.partners 0 matched)

theorem block_closes
    {cursor after : Cursor} {value : σ} (run : block assembly inner cursor = .ok value after) :
    Closes cursor after := by
  unfold block at run
  rw [get_bind] at run
  obtain ⟨body, middle, statementsRun, returned⟩ := bind_eq_ok_iff.1 run
  cases returned
  exact statements_close innerLeaves _ [] (Nat.le_refl _) statementsRun

theorem branch_leaves : Leaves 1 (branch limit assembly inner) := by
  have inside : Leaves 0 inner := innerLeaves.weaken (Nat.zero_le 1)
  unfold branch
  refine (condition_leaves limit).bind fun condition => inside.bind fun accepted => ?_
  exact Leaves.ifNext (by decide) (inside.map _) (Leaves.pure _)

theorem loop_leaves : Leaves 1 (loop limit assembly inner) := by
  unfold loop
  exact (condition_leaves limit).bind fun condition =>
    (innerLeaves.weaken (Nat.zero_le 1)).map _

theorem statementHere_leaves : Leaves 1 (statementHere limit assembly inner) := by
  intro cursor value after run
  rw [statementHere_run] at run
  split at run
  next name rest shape => exact (call_leaves assembly name).behind (by simp) shape run
  next rest shape =>
    have closes := block_closes innerLeaves run
    refine ⟨?_, fun opened matched => closes.partners opened ?_⟩
    · rw [shape]
      exact Nat.succ_le_succ closes.noLonger
    · simpa only [shape, bracesMatch] using matched
  next name rest shape =>
    split at run
    next => exact (branch_leaves innerLeaves).behind (by simp) shape run
    next =>
      split at run
      next => exact (loop_leaves innerLeaves).behind (by simp) shape run
      next => exact assignment_leaves assembly limit cursor value after run
  next => simp [unexpected_run] at run

end

theorem statementWithin_leaves (assembly : Assembly σ) (levels : Nat) :
    Leaves 1 (statementWithin limit assembly levels) := by
  induction levels with
  | zero =>
      intro cursor value after run
      cases run
  | succ levels inductionHypothesis => exact (statementHere_leaves inductionHypothesis).nested

theorem statement_leaves (limit : Nat) (assembly : Assembly σ) :
    Leaves 1 (statement limit assembly) := by
  intro cursor value after run
  exact statementWithin_leaves assembly _ cursor value after run

/-- A main program whose closing braces all have partners goes to the end of the tokens. -/
theorem item_main_ends
    {assembly : Assembly σ} {cursor after : Cursor} {defined : String × σ}
    (noDefinition : ∀ name, ¬ [.procedure name, .colon] <+: cursor.rest)
    (matched : bracesMatch 0 cursor.rest)
    (run : item limit assembly cursor = .ok defined after) : after.rest = [] := by
  rw [item_run] at run
  split at run
  next name rest shape => exact absurd ⟨rest, shape.symm⟩ (noDefinition name)
  next =>
    obtain ⟨body, middle, blockRun, returned⟩ := bind_eq_ok_iff.1 run
    cases returned
    exact (block_closes (statement_leaves limit assembly) blockRun).toTheEnd matched

/-- Such tokens are one item, or none. -/
theorem items_main_single
    {assembly : τ → Assembly σ} {enter : τ → String → σ → τ} {fuel : Nat} {table result : τ}
    {cursor after : Cursor} (noDefinition : ∀ name, ¬ [.procedure name, .colon] <+: cursor.rest)
    (matched : bracesMatch 0 cursor.rest)
    (run : items limit assembly enter fuel table cursor = .ok result after) :
    result = table ∨ ∃ name body, result = enter table name body := by
  cases fuel with
  | zero =>
      cases run
      exact .inl rfl
  | succ fuel =>
      rw [items_run] at run
      split at run
      next =>
        cases run
        exact .inl rfl
      next =>
        obtain ⟨⟨name, body⟩, middle, itemRun, restRun⟩ := bind_eq_ok_iff.1 run
        have nothing := item_main_ends noDefinition matched itemRun
        refine .inr ⟨name, body, ?_⟩
        cases fuel with
        | zero =>
            cases restRun
            rfl
        | succ fuel =>
            rw [items_run, if_pos nothing] at restRun
            cases restRun
            rfl

end Slate.Grammar
