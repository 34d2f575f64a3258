import Slate.Proofs.Grammar.Completeness
import Slate.Proofs.Grammar.Statement

/-!
Statements and programs that the parsers accept. A statement shows its own end, so a parser passes
its tokens whatever stands behind them. What is passed by the parts is passed by the whole, one
level further out.
-/

set_option autoImplicit false

namespace Slate.Grammar

variable {α σ : Type}

/-- The parser passes the word at the given depth, whatever follows, and returns the value. -/
def Passes (parser : Parser α) (depth : Nat) (word : List Token) (value : α) : Prop :=
  ∀ rest, parser ⟨word ++ rest, depth⟩ = .ok value ⟨rest, depth⟩

theorem Passes.bind
    {β : Type} {parser : Parser α} {next : α → Parser β} {depth : Nat} {word further : List Token}
    {value : α} {result : β} (passes : Passes parser depth word value)
    (nextPasses : Passes (next value) depth further result) :
    Passes (parser >>= next) depth (word ++ further) result := by
  intro rest
  rw [List.append_assoc, bind_of_ok (passes (further ++ rest))]
  exact nextPasses rest

theorem Passes.map
    {β : Type} {parser : Parser α} {depth : Nat} {word : List Token} {value : α}
    (passes : Passes parser depth word value) (build : α → β) :
    Passes (do return build (← parser)) depth word (build value) :=
  fun rest => bind_of_ok (passes rest)

theorem Passes.nested
    {limit : Nat} {parser : Parser α} {depth : Nat} {word : List Token} {value : α}
    (below : depth < limit) (passes : Passes parser (depth + 1) word value) :
    Passes (Grammar.nested limit parser) depth word value :=
  fun rest => nested_run below (passes rest)

section

variable {limit depth : Nat} {word : List Token} {value : Expr}

theorem condition_passes
    (derivation : Derivation .choice word value) (room : derivation.need < limit - depth) :
    Passes (condition limit) depth (.leftParen :: (word ++ [.rightParen])) value :=
  fun rest => parenthesized_run derivation (ofRank_accepts limit _) depth rest room

theorem expression_before_semicolon
    (derivation : Derivation .choice word value) (room : derivation.need < limit - depth)
    (rest : List Token) :
    expression limit ⟨word ++ .semicolon :: rest, depth⟩ = .ok value ⟨.semicolon :: rest, depth⟩ :=
  expression_run derivation room (.cons _ (by decide))

variable {target : Ref} {first : List Token} {assembly : Assembly σ}
  (targetDerivation : Derivation .reference first (.reference target))
  (targetRoom : targetDerivation.need ≤ limit - depth)

include targetRoom

/-- An assignment is passed where the tokens between its target and the semicolon are. -/
theorem assignment_passes
    {sign : Token} {further : List Token} (foreign : sign ≠ .at)
    (assigned : ∀ rest,
      assignedValue limit target ⟨sign :: (further ++ .semicolon :: rest), depth⟩ =
        .ok value ⟨.semicolon :: rest, depth⟩) :
    Passes (assignment limit assembly) depth (first ++ sign :: (further ++ [.semicolon]))
      (assembly.assign target value) := by
  intro rest
  have stops : Stops .reference (sign :: (further ++ .semicolon :: rest)) :=
    .cons _ (by simpa [Category.continuations] using foreign)
  have targetRun := reference_run targetDerivation targetRoom stops
  unfold assignment
  rw [List.append_assoc, List.cons_append, List.append_assoc, List.singleton_append,
    bind_of_ok targetRun, bind_of_ok (assigned rest), expect_bind, pure_run]

theorem assignment_set_passes
    (derivation : Derivation .choice word value) (room : derivation.need < limit - depth) :
    Passes (assignment limit assembly) depth (first ++ .assign :: (word ++ [.semicolon]))
      (assembly.assign target value) := by
  apply assignment_passes targetDerivation targetRoom (by decide)
  intro rest
  rw [assignedValue_run]
  exact expression_before_semicolon derivation room rest

theorem assignment_compound_passes
    {sign : Token} {op : BinaryOp} (compound : compoundOp? sign = some op)
    (derivation : Derivation .choice word value) (room : derivation.need < limit - depth) :
    Passes (assignment limit assembly) depth (first ++ sign :: (word ++ [.semicolon]))
      (assembly.assign target (.binary op (.reference target) value)) := by
  have foreign : sign ≠ .at := by
    rintro rfl
    cases compound
  apply assignment_passes targetDerivation targetRoom foreign
  intro rest
  have valueRun := expression_before_semicolon derivation room rest
  rw [assignedValue_run]
  cases sign <;> cases compound <;> exact bind_of_ok valueRun

end

section

variable {limit depth : Nat} {word : List Token} {value : Expr} {assembly : Assembly σ}
  {inner : Parser σ}

theorem branch_passes
    (derivation : Derivation .choice word value) (room : derivation.need < limit - depth)
    {acceptedWord rejectedWord : List Token} {accepted rejected : σ}
    (acceptedPasses : Passes inner depth acceptedWord accepted)
    (rejectedPasses : Passes inner depth rejectedWord rejected) :
    Passes (branch limit assembly inner) depth
      ((.leftParen :: (word ++ [.rightParen])) ++
        (acceptedWord ++ .identifier "else" :: rejectedWord))
      (assembly.branch value accepted rejected) := by
  refine (condition_passes derivation room).bind (acceptedPasses.bind fun rest => ?_)
  rw [List.cons_append, ifNext_run]
  exact (rejectedPasses.map _) rest

theorem loop_passes
    (derivation : Derivation .choice word value) (room : derivation.need < limit - depth)
    {bodyWord : List Token} {body : σ} (bodyPasses : Passes inner depth bodyWord body) :
    Passes (loop limit assembly inner) depth ((.leftParen :: (word ++ [.rightParen])) ++ bodyWord)
      (assembly.loop value body) :=
  (condition_passes derivation room).bind (bodyPasses.map _)

/-- The word begins with a token that a statement may begin with. -/
def BeginsStatement (word : List Token) : Prop :=
  ∃ token further, word = token :: further ∧
    (token = .leftBrace ∨ ∃ name, token = .identifier name)

/-- The parser passes every word and returns its value, and every word begins like a statement. -/
def PassesEach (inner : Parser σ) (depth : Nat) (parts : List (List Token × σ)) : Prop :=
  ∀ part ∈ parts, Passes inner depth part.1 part.2 ∧ BeginsStatement part.1

theorem length_le_length_flatMap
    {parts : List (List Token × σ)}
    (each : PassesEach inner depth parts) :
    parts.length ≤ (parts.flatMap Prod.fst).length := by
  induction parts with
  | nil => exact Nat.le_refl _
  | cons part parts inductionHypothesis =>
      obtain ⟨⟨_, token, further, shape, _⟩, others⟩ := List.forall_mem_cons.1 each
      have bound := inductionHypothesis others
      rw [List.flatMap_cons, shape]
      simp only [List.length_cons, List.length_append]
      omega

/-- Statements one after the other, up to the brace or the end of the tokens behind them. -/
theorem statements_pass
    {parts : List (List Token × σ)} {ending after : List Token}
    (ends : ending = .rightBrace :: after ∨ ending = [] ∧ after = [])
    (each : PassesEach inner depth parts)
    {fuel : Nat} (enough : parts.length + ending.length ≤ fuel) (done : List σ) :
    statements inner fuel done ⟨parts.flatMap Prod.fst ++ ending, depth⟩ =
      .ok (done.reverse ++ parts.map Prod.snd) ⟨after, depth⟩ := by
  induction parts generalizing fuel done with
  | nil =>
      rw [List.map_nil, List.append_nil, List.flatMap_nil, List.nil_append]
      cases fuel with
      | zero =>
          -- The fuel counts the tokens behind the statements too, so it is gone at the end only.
          rcases ends with rfl | ⟨rfl, rfl⟩
          · cases enough
          · rfl
      | succ fuel =>
          rw [statements_run]
          rcases ends with rfl | ⟨rfl, rfl⟩ <;> rfl
  | cons part parts inductionHypothesis =>
      obtain ⟨⟨passes, token, further, shape, begins⟩, others⟩ := List.forall_mem_cons.1 each
      rw [List.length_cons, Nat.add_right_comm] at enough
      obtain ⟨fuel, rfl⟩ := Nat.exists_eq_succ_of_ne_zero (Nat.ne_zero_of_lt enough)
      have partRun := passes (parts.flatMap Prod.fst ++ ending)
      have restRun := inductionHypothesis others (Nat.le_of_succ_le_succ enough) (part.2 :: done)
      rw [List.flatMap_cons, List.append_assoc, statements_run]
      split
      next nothing =>
        rw [shape] at nothing
        cases nothing
      next rest closing =>
        rw [shape] at closing
        cases closing
        rcases begins with isBrace | ⟨name, isName⟩
        · cases isBrace
        · cases isName
      next =>
        rw [bind_of_ok partRun, restRun]
        simp

theorem block_run
    {parts : List (List Token × σ)} {ending after : List Token}
    (ends : ending = .rightBrace :: after ∨ ending = [] ∧ after = [])
    (each : PassesEach inner depth parts) :
    block assembly inner ⟨parts.flatMap Prod.fst ++ ending, depth⟩ =
      .ok (assembly.block (parts.map Prod.snd)) ⟨after, depth⟩ := by
  have bound := length_le_length_flatMap each
  have enough : parts.length + ending.length ≤ (parts.flatMap Prod.fst ++ ending).length := by
    rw [List.length_append]
    omega
  unfold block
  rw [get_bind, bind_of_ok (statements_pass ends each enough []), pure_run]
  rfl

theorem statementHere_block_passes
    {parts : List (List Token × σ)}
    (each : PassesEach inner depth parts) :
    Passes (statementHere limit assembly inner) depth
      (.leftBrace :: (parts.flatMap Prod.fst ++ [.rightBrace]))
      (assembly.block (parts.map Prod.snd)) := by
  intro rest
  rw [statementHere_run, List.cons_append, List.append_assoc]
  exact block_run (.inl rfl) each

theorem statementHere_branch_passes
    {word : List Token} {statement : σ}
    (passes : Passes (branch limit assembly inner) depth word statement) :
    Passes (statementHere limit assembly inner) depth (.identifier "if" :: word) statement := by
  intro rest
  rw [statementHere_run]
  exact passes rest

theorem statementHere_loop_passes
    {word : List Token} {statement : σ}
    (passes : Passes (loop limit assembly inner) depth word statement) :
    Passes (statementHere limit assembly inner) depth (.identifier "while" :: word) statement := by
  intro rest
  rw [statementHere_run]
  exact passes rest

theorem statementHere_assignment_passes
    {name : String} {word : List Token} {statement : σ} (notIf : name ≠ "if")
    (notWhile : name ≠ "while")
    (passes : Passes (assignment limit assembly) depth (.identifier name :: word) statement) :
    Passes (statementHere limit assembly inner) depth (.identifier name :: word) statement := by
  intro rest
  rw [statementHere_run]
  simp only [List.cons_append, if_neg notIf, if_neg notWhile]
  exact passes rest

/-- A statement with all the levels up to the limit. -/
theorem statement_passes
    {word : List Token} {statement : σ} (below : depth < limit)
    (passes : Passes
      (statementHere limit assembly (statementWithin limit assembly (limit - (depth + 1))))
      (depth + 1) word statement) :
    Passes (Grammar.statement limit assembly) depth word statement := by
  have levels : limit - depth = limit - (depth + 1) + 1 := by omega
  intro rest
  unfold Grammar.statement
  rw [get_bind, levels]
  exact Passes.nested below passes rest

end

section

variable {limit : Nat} {program : Program}

theorem item_definition_run
    {assembly : Assembly σ} {word : List Token} {body : σ}
    (passes : Passes (statement limit assembly) 0 word body) (name : String) (rest : List Token) :
    item limit assembly ⟨.procedure name :: .colon :: (word ++ rest), 0⟩ =
      .ok (name, body) ⟨rest, 0⟩ := by
  rw [item_run]
  exact (passes.map _) rest

theorem item_main_run
    {assembly : Assembly σ} {parts : List (List Token × σ)}
    (each : PassesEach (statement limit assembly) 0 parts) :
    item limit assembly ⟨parts.flatMap Prod.fst, 0⟩ =
      .ok (Program.mainName, assembly.block (parts.map Prod.snd)) ⟨[], 0⟩ := by
  have mainRun : block assembly (statement limit assembly) ⟨parts.flatMap Prod.fst ++ [], 0⟩ = _ :=
    block_run (.inr ⟨rfl, rfl⟩) each
  rw [List.append_nil] at mainRun
  rw [item_run]
  split
  next name rest shape =>
    cases parts with
    | nil => cases shape
    | cons part parts =>
        obtain ⟨_, token, further, partShape, begins⟩ := each part List.mem_cons_self
        rw [List.flatMap_cons, partShape] at shape
        rcases begins with rfl | ⟨variableName, rfl⟩
        · cases shape
        · cases shape
  next => exact bind_of_ok mainRun

theorem items_nil (fuel depth : Nat) :
    items limit .ofProgram Program.define fuel program ⟨[], depth⟩ = .ok program ⟨[], depth⟩ := by
  cases fuel <;> rfl

/-- Enters the statements outside all procedures, if there are any. -/
def enterMain (program : Program) (main : List Stmt) : Program :=
  if main = [] then program else program.define Program.mainName (.block main)

/-- Definitions and then main statements, all of which pass, make a program. -/
theorem items_pass
    {definitions : List (String × List Token × Stmt)} {main : List (List Token × Stmt)}
    (each : ∀ defined ∈ definitions, ∀ program,
      Passes (statement limit (.ofProgram program)) 0 defined.2.1 defined.2.2)
    (mainEach : ∀ program, PassesEach (statement limit (.ofProgram program)) 0 main)
    {fuel : Nat} (enough : definitions.length + main.length ≤ fuel) (program : Program) :
    items limit .ofProgram Program.define fuel program
        ⟨definitions.flatMap (fun defined => .procedure defined.1 :: .colon :: defined.2.1) ++
          main.flatMap Prod.fst, 0⟩ =
      .ok (enterMain
        (definitions.foldl (fun table defined => table.define defined.1 defined.2.2) program)
        (main.map Prod.snd)) ⟨[], 0⟩ := by
  induction definitions generalizing program fuel with
  | nil =>
      cases main with
      | nil => exact items_nil fuel 0
      | cons part parts =>
          rw [List.length_nil, Nat.zero_add] at enough
          obtain ⟨fuel, rfl⟩ := Nat.exists_eq_succ_of_ne_zero (Nat.ne_zero_of_lt enough)
          have mainRun := item_main_run (mainEach program)
          obtain ⟨_, token, further, shape, _⟩ := mainEach program part List.mem_cons_self
          have notEmpty : (part :: parts).flatMap Prod.fst ≠ [] := by
            rw [List.flatMap_cons, shape]
            exact List.cons_ne_nil _ _
          rw [List.flatMap_nil, List.nil_append, items_run, if_neg notEmpty, bind_of_ok mainRun,
            items_nil]
          rfl
  | cons defined definitions inductionHypothesis =>
      obtain ⟨definedPasses, others⟩ := List.forall_mem_cons.1 each
      rw [List.length_cons, Nat.add_right_comm] at enough
      obtain ⟨fuel, rfl⟩ := Nat.exists_eq_succ_of_ne_zero (Nat.ne_zero_of_lt enough)
      have itemRun := item_definition_run (definedPasses program) defined.1
        (definitions.flatMap (fun defined => .procedure defined.1 :: .colon :: defined.2.1) ++
          main.flatMap Prod.fst)
      have itemsRun := inductionHypothesis others (Nat.le_of_succ_le_succ enough)
        (program.define defined.1 defined.2.2)
      simp only [List.flatMap_cons, List.cons_append, List.append_assoc]
      rw [items_run, if_neg (List.cons_ne_nil _ _), bind_of_ok itemRun, itemsRun]
      rfl

theorem length_le_length_definitions (definitions : List (String × List Token × Stmt)) :
    definitions.length ≤ (definitions.flatMap
      (fun defined => .procedure defined.1 :: .colon :: defined.2.1)).length := by
  induction definitions with
  | nil => exact Nat.le_refl _
  | cons defined definitions inductionHypothesis =>
      rw [List.flatMap_cons, List.length_append, List.length_cons, List.length_cons,
        List.length_cons]
      omega

theorem ofTokens_pass
    {definitions : List (String × List Token × Stmt)} {main : List (List Token × Stmt)}
    (each : ∀ defined ∈ definitions, ∀ program,
      Passes (statement limit (.ofProgram program)) 0 defined.2.1 defined.2.2)
    (mainEach : ∀ program, PassesEach (statement limit (.ofProgram program)) 0 main) :
    Program.ofTokens limit
        (definitions.flatMap (fun defined => .procedure defined.1 :: .colon :: defined.2.1) ++
          main.flatMap Prod.fst) =
      .ok (enterMain
        (definitions.foldl (fun table defined => table.define defined.1 defined.2.2) .empty)
        (main.map Prod.snd)) := by
  have definitionsBound := length_le_length_definitions definitions
  have mainBound := length_le_length_flatMap (mainEach .empty)
  have run := items_pass each mainEach (Nat.add_le_add definitionsBound mainBound) .empty
  rw [← List.length_append] at run
  unfold Program.ofTokens
  rw [run]

end

end Slate.Grammar
