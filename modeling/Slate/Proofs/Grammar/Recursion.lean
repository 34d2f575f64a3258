import Slate.Proofs.Grammar.Congruence

/-!
How the parsers call each other. A call inside a construct or a link stands behind a token that was
passed, at a depth no lower than that of the construct. So the calls below some cursor go no deeper
than there are tokens left, nor deeper than the limit, and as many levels of recursion are as good
as any larger number. Without a bound on the levels the parsers satisfy the equations of the
grammar: each is written with the others themselves.

The same induction shows how a parser ends. A value comes with a suffix of the tokens and with the
depth of the start. A failure is met no higher up, and further in where it broke off a chain.
-/

set_option autoImplicit false

namespace Slate.Grammar

variable {α β σ : Type} {limit depth tokens opens : Nat}

/-- How a run from some cursor ends: with a value at the same depth and a suffix of the tokens, or
with a failure no higher up. -/
inductive Orderly (cursor : Cursor) : EStateM.Result ParseFailure Cursor α → Prop
  | value {result : α} {after : Cursor} (sameDepth : after.depth = cursor.depth)
      (suffix : after.rest <:+ cursor.rest) : Orderly cursor (.ok result after)
  | failure {cause : ParseFailure} {stopped : Cursor} (noHigher : cursor.depth ≤ stopped.depth) :
      Orderly cursor (.error cause stopped)

/-- More tokens were passed before. -/
theorem Orderly.behind
    {cursor middle : Cursor} {outcome : EStateM.Result ParseFailure Cursor α}
    (orderly : Orderly middle outcome) (sameDepth : middle.depth = cursor.depth)
    (suffix : middle.rest <:+ cursor.rest) : Orderly cursor outcome := by
  cases orderly with
  | value depth rest => exact .value (depth.trans sameDepth) (rest.trans suffix)
  | failure noHigher => exact .failure (sameDepth ▸ noHigher)

theorem Orderly.unmoved (cursor : Cursor) (value : α) : Orderly cursor (.ok value cursor) :=
  .value rfl (List.suffix_refl _)

/-- The parser ends so wherever it begins. -/
def EndsOrderly (parser : Parser α) : Prop :=
  ∀ cursor, Orderly cursor (parser cursor)

/-- Two parsers end in the same way, and orderly, at the given depth or further in and with so many
tokens at most, of which the levels that the parsers open before they pass a token are set off. -/
def Coincide (depth tokens opens : Nat) (parser other : Parser α) : Prop :=
  ∀ cursor, depth ≤ cursor.depth → cursor.rest.length + opens ≤ tokens →
    parser cursor = other cursor ∧ Orderly cursor (parser cursor)

theorem EndsOrderly.coincide {parser : Parser α} (orderly : EndsOrderly parser) :
    Coincide depth tokens opens parser parser :=
  fun cursor _ _ => ⟨rfl, orderly cursor⟩

theorem EndsOrderly.of_coincide
    {parser : Parser α} (coincide : ∀ tokens, Coincide 0 tokens opens parser parser) :
    EndsOrderly parser :=
  fun cursor => (coincide _ cursor (Nat.zero_le _) (Nat.le_refl _)).2

namespace Coincide

variable {parser other : Parser α}

theorem mono
    (coincide : Coincide depth tokens opens parser other) {more : Nat} (noLess : opens ≤ more) :
    Coincide depth tokens more parser other :=
  fun cursor deep few =>
    coincide cursor deep (Nat.le_trans (Nat.add_le_add_left noLess _) few)

theorem pure (value : α) :
    Coincide depth tokens opens (Pure.pure value : Parser α) (Pure.pure value) :=
  fun cursor _ _ => ⟨rfl, .unmoved cursor value⟩

theorem bind
    {next otherNext : α → Parser β} (coincide : Coincide depth tokens opens parser other)
    (nextCoincide : ∀ value, Coincide depth tokens opens (next value) (otherNext value)) :
    Coincide depth tokens opens (parser >>= next) (other >>= otherNext) := by
  intro cursor deep few
  obtain ⟨same, orderly⟩ := coincide cursor deep few
  generalize run : parser cursor = outcome at same orderly
  cases orderly with
  | @value result after sameDepth suffix =>
      have noLonger := suffix.length_le
      obtain ⟨nextSame, nextOrderly⟩ := nextCoincide result after (by omega) (by omega)
      rw [bind_of_ok run, bind_of_ok same.symm]
      exact ⟨nextSame, nextOrderly.behind sameDepth suffix⟩
  | failure noHigher =>
      rw [bind_of_error run, bind_of_error same.symm]
      exact ⟨rfl, .failure noHigher⟩

theorem map (coincide : Coincide depth tokens opens parser other) (build : α → β) :
    Coincide depth tokens opens (do return build (← parser)) (do return build (← other)) :=
  coincide.bind fun value => pure (build value)

/-- The token that is passed makes up for a level behind it. -/
theorem look
    {next otherNext : Option Token → Parser α} {opens : Bool}
    (atEnd : Coincide depth tokens opens.toNat (next none) (otherNext none))
    (ahead : ∀ token, Ahead (fun opens _ _ => Coincide depth tokens opens.toNat) opens
      (next (some token)) (otherNext (some token))) :
    Coincide depth tokens opens.toNat (peek >>= next) (peek >>= otherNext) := by
  intro ⟨rest, start⟩ deep few
  cases rest with
  | nil => exact atEnd ⟨[], start⟩ deep few
  | cons token rest =>
      have step := ahead token
      rw [peek_bind, peek_bind, List.head?_cons]
      generalize next (some token) = parser at step
      generalize otherNext (some token) = other at step
      cases step with
      | here coincide => exact coincide ⟨token :: rest, start⟩ deep few
      | behind coincide =>
          obtain ⟨same, orderly⟩ := coincide ⟨rest, start⟩ deep (Nat.le_of_add_right_le few)
          exact ⟨same, orderly.behind rfl (List.suffix_cons token rest)⟩

/-- A level that is opened is set off against the tokens. -/
theorem nested
    (limit : Nat) (coincide : Coincide (depth + 1) tokens 0 parser other) :
    Coincide depth (tokens + 1) 1 (Grammar.nested limit parser) (Grammar.nested limit other) := by
  intro cursor deep few
  obtain ⟨same, orderly⟩ := coincide ⟨cursor.rest, cursor.depth + 1⟩ (Nat.succ_le_succ deep)
    (Nat.le_of_succ_le_succ few)
  unfold Grammar.nested
  split
  next => exact ⟨rfl, .failure (Nat.le_refl _)⟩
  next =>
    rw [← same]
    refine ⟨rfl, ?_⟩
    generalize parser ⟨cursor.rest, cursor.depth + 1⟩ = outcome at orderly
    cases orderly with
    | value sameDepth suffix => exact .value (Nat.sub_eq_of_eq_add sameDepth) suffix
    | failure noHigher =>
        -- The level is given back after a failure too, and no more than it was opened.
        exact .failure (Nat.le_sub_of_add_le noHigher)

end Coincide

section

variable {link? : Token → Option (α → β → α)} {operand other : Parser β}
  (coincide : Coincide depth tokens 0 operand other)

include coincide

/-- One link opens a level, which stays charged for what follows its operand. Seen from the start of
the chain, the operand takes tokens and no level. -/
theorem link_coincide
    {next otherNext : β → Parser α} {start charged : Nat} {rest : List Token}
    (deep : depth ≤ start) (noHigher : start ≤ charged) (few : rest.length ≤ tokens)
    (follow : ∀ right further, further.length ≤ tokens →
      next right ⟨further, charged + 1⟩ = otherNext right ⟨further, charged + 1⟩ ∧
        Orderly ⟨further, start⟩ (next right ⟨further, charged + 1⟩)) :
    (descend limit >>= fun _ => operand >>= next) ⟨rest, charged⟩ =
        (descend limit >>= fun _ => other >>= otherNext) ⟨rest, charged⟩ ∧
      Orderly ⟨rest, start⟩ ((descend limit >>= fun _ => operand >>= next) ⟨rest, charged⟩) := by
  by_cases met : limit ≤ charged
  · rw [bind_of_error (descend_of_met met rest), bind_of_error (descend_of_met met rest)]
    exact ⟨rfl, .failure noHigher⟩
  rw [descend_bind _ (Nat.not_le.1 met), descend_bind _ (Nat.not_le.1 met)]
  obtain ⟨same, orderly⟩ := coincide ⟨rest, charged + 1⟩ (by simp only; omega) few
  generalize run : operand ⟨rest, charged + 1⟩ = outcome at same orderly
  cases orderly with
  | @value right after sameDepth suffix =>
      obtain ⟨further, _⟩ := after
      obtain rfl := sameDepth
      obtain ⟨nextSame, nextOrderly⟩ :=
        follow right further (Nat.le_trans suffix.length_le few)
      rw [bind_of_ok run, bind_of_ok same.symm]
      exact ⟨nextSame, nextOrderly.behind rfl suffix⟩
  | failure deeper =>
      rw [bind_of_error run, bind_of_error same.symm]
      exact ⟨rfl, .failure (Nat.le_trans (Nat.le_succ_of_le noHigher) deeper)⟩

/-- All the links are given back at the end of the chain, unless an operand fails. -/
theorem chain_coincide
    (fuel links : Nat) (left : α) {start : Nat} {rest : List Token} (deep : depth ≤ start)
    (few : rest.length ≤ tokens) :
    chain limit link? operand fuel links left ⟨rest, start + links⟩ =
        chain limit link? other fuel links left ⟨rest, start + links⟩ ∧
      Orderly ⟨rest, start⟩
        (chain limit link? operand fuel links left ⟨rest, start + links⟩) := by
  induction fuel generalizing links left rest with
  | zero => exact ⟨rfl, .failure (Nat.le_add_right _ _)⟩
  | succ fuel inductionHypothesis =>
      have complete (rest : List Token) :
          Orderly ⟨rest, start⟩ (.ok left ⟨rest, start + links - links⟩) := by
        rw [Nat.add_sub_cancel]
        exact .unmoved _ left
      cases rest with
      | nil => exact ⟨rfl, complete []⟩
      | cons token rest =>
          cases isLink : link? token with
          | none =>
              rw [chain_run_of_none isLink, chain_run_of_none isLink]
              exact ⟨rfl, complete _⟩
          | some extend =>
              have follow (right : β) (further : List Token) (fewer : further.length ≤ tokens) :=
                inductionHypothesis (links + 1) (extend left right) fewer
              rw [chain_run_of_some isLink, chain_run_of_some isLink]
              obtain ⟨same, orderly⟩ := link_coincide coincide deep (Nat.le_add_right start links)
                (Nat.le_of_succ_le few) follow
              exact ⟨same, orderly.behind rfl (List.suffix_cons token rest)⟩

theorem leftChain_coincide (first : α) :
    Coincide depth tokens 0 (leftChain limit link? operand first)
      (leftChain limit link? other first) := by
  intro cursor deep few
  unfold leftChain
  rw [get_bind, get_bind]
  exact chain_coincide coincide _ 0 first deep few

end

theorem Coincide.congruence (limit depth tokens : Nat) :
    Congruence limit limit fun opens _ _ => Coincide depth tokens opens.toNat where
  opening coincide := coincide.mono (Nat.zero_le 1)
  unending coincide := coincide
  pure := Coincide.pure
  bind := Coincide.bind
  unexpected expected cursor _ _ := by
    rw [unexpected_run]
    exact ⟨rfl, .failure (Nat.le_refl _)⟩
  throw _ _ _ _ := ⟨rfl, .failure (Nat.le_refl _)⟩
  look := Coincide.look
  leftChain := leftChain_coincide

theorem block_coincide
    {assembly : Assembly σ} {inner other : Parser σ}
    (coincide : Coincide depth tokens 1 inner other) :
    Coincide depth tokens 1 (block assembly inner) (block assembly other) := by
  intro cursor deep few
  have loops := (Coincide.congruence 0 depth tokens).statements coincide cursor.rest.length []
  unfold block
  rw [get_bind, get_bind]
  exact loops.map _ cursor deep few

/-- So many levels of recursion reach up to the limit, or are as many as there may be tokens. -/
def Enough (limit depth tokens levels : Nat) : Prop :=
  limit ≤ levels + depth ∨ tokens ≤ levels

theorem Enough.mono
    {levels deeper less : Nat} (enough : Enough limit depth tokens levels)
    (deep : depth ≤ deeper) (few : less ≤ tokens) : Enough limit deeper less levels := by
  unfold Enough at enough ⊢
  omega

/-- Below the limit the first level is there, and enough levels remain behind the first token. -/
theorem Enough.exists_succ
    {levels : Nat} (enough : Enough limit depth (tokens + 1) levels) (below : depth < limit) :
    ∃ less, levels = less + 1 ∧ Enough limit (depth + 1) tokens less := by
  unfold Enough at enough ⊢
  exact ⟨levels - 1, by omega, by omega⟩

theorem enough_to_limit (limit depth tokens : Nat) : Enough limit depth tokens (limit - depth) :=
  .inl (by omega)

section

variable {ι : Type}

/-- The body of a recursion is run one nesting level further in, with one level of recursion less
for its own calls, and calls nothing before it has passed a token. -/
structure Recurs (limit : Nat) (body : (ι → Parser α) → ι → Parser α)
    (calls : Nat → ι → Parser α) : Prop where
  out (index : ι) : calls 0 index = tooDeep limit
  call (levels : Nat) (index : ι) :
    calls (levels + 1) index = nested limit (body (calls levels) index)
  behind {depth tokens : Nat} {inner other : ι → Parser α} :
    (∀ index, Coincide depth tokens 1 (inner index) (other index)) →
      ∀ index, Coincide depth tokens 0 (body inner index) (body other index)

/-- The recursion with all the levels up to the limit. -/
def tied (limit : Nat) (calls : Nat → ι → Parser α) (index : ι) : Parser α := do
  calls (limit - (← get).depth) index

namespace Recurs

variable {body : (ι → Parser α) → ι → Parser α} {calls : Nat → ι → Parser α}
  (recurs : Recurs limit body calls)

include recurs

theorem calls_of_met
    (levels : Nat) (index : ι) {cursor : Cursor} (met : limit ≤ cursor.depth) :
    calls levels index cursor = .error (.tooDeep limit) cursor := by
  cases levels with
  | zero =>
      rw [recurs.out]
      rfl
  | succ levels => rw [recurs.call, nested, if_pos met]

/-- The induction is on the tokens, since every call inside stands behind one. -/
theorem coincide
    {levels more : Nat} (enough : Enough limit depth tokens levels)
    (enoughToo : Enough limit depth tokens more) (index : ι) :
    Coincide depth tokens 1 (calls levels index) (calls more index) := by
  induction tokens generalizing depth levels more index with
  | zero => exact fun cursor _ few => absurd few (Nat.not_succ_le_zero _)
  | succ tokens inductionHypothesis =>
      by_cases met : limit ≤ depth
      · intro cursor deep _
        have fails (levels : Nat) := recurs.calls_of_met levels index (Nat.le_trans met deep)
        rw [fails levels, fails more]
        exact ⟨rfl, .failure (Nat.le_refl _)⟩
      obtain ⟨levels, rfl, inside⟩ := enough.exists_succ (Nat.not_le.1 met)
      obtain ⟨more, rfl, insideToo⟩ := enoughToo.exists_succ (Nat.not_le.1 met)
      rw [recurs.call, recurs.call]
      exact (recurs.behind (inductionHypothesis inside insideToo) index).nested limit

theorem coincide_tied
    {levels : Nat} (enough : Enough limit depth tokens levels) (index : ι) :
    Coincide depth tokens 1 (calls levels index) (tied limit calls index) := by
  intro cursor deep few
  exact recurs.coincide (enough.mono deep few) (enough_to_limit _ _ _) index cursor (Nat.le_refl _)
    (Nat.le_refl _)

theorem tied_orderly (index : ι) : EndsOrderly (tied limit calls index) := by
  intro cursor
  have enough := enough_to_limit limit cursor.depth (cursor.rest.length + 1)
  exact (recurs.coincide enough enough index cursor (Nat.le_refl _) (Nat.le_refl _)).2

theorem body_orderly (index : ι) : EndsOrderly (body (tied limit calls) index) :=
  .of_coincide fun _ => recurs.behind (fun index => (recurs.tied_orderly index).coincide) index

/-- No more levels of recursion are needed than there are tokens, and one. -/
theorem tied_run (index : ι) (cursor : Cursor) :
    tied limit calls index cursor = calls (cursor.rest.length + 1) index cursor :=
  (recurs.coincide_tied (.inr (Nat.le_refl _)) index cursor (Nat.le_refl _)
    (Nat.le_refl _)).1.symm

/-- The recursion solves its own equation, which has no bound on the levels. -/
theorem tied_eq_nested (index : ι) :
    tied limit calls index = nested limit (body (tied limit calls) index) := by
  funext cursor
  by_cases met : limit ≤ cursor.depth
  · rw [nested, if_pos met]
    exact recurs.calls_of_met _ index met
  · have enough := enough_to_limit limit cursor.depth (cursor.rest.length + 1)
    obtain ⟨levels, shape, inside⟩ := enough.exists_succ (Nat.not_le.1 met)
    have unfolded : tied limit calls index cursor =
        nested limit (body (calls levels) index) cursor := by
      unfold tied
      rw [get_bind, shape, recurs.call]
    rw [unfolded]
    exact ((recurs.behind (recurs.coincide_tied inside) index).nested limit cursor (Nat.le_refl _)
      (Nat.le_refl _)).1

end Recurs

end

theorem within_recurs (limit : Nat) : Recurs limit (ranked limit) (within limit) where
  out _ := rfl
  call _ _ := rfl
  behind coincide := (Coincide.congruence limit _ _).ranked coincide

theorem ofRank_orderly (limit : Nat) (rank : Rank) : EndsOrderly (ofRank limit rank) :=
  (within_recurs limit).tied_orderly rank

theorem ofRank_run (limit : Nat) (rank : Rank) (cursor : Cursor) :
    ofRank limit rank cursor = within limit (cursor.rest.length + 1) rank cursor :=
  (within_recurs limit).tied_run rank cursor

/-- The grammar of a rank is written with the grammars of the ranks. -/
theorem ofRank_eq_nested (limit : Nat) (rank : Rank) :
    ofRank limit rank = nested limit (ranked limit (ofRank limit) rank) :=
  (within_recurs limit).tied_eq_nested rank

theorem ranked_orderly (limit : Nat) (rank : Rank) :
    EndsOrderly (ranked limit (ofRank limit) rank) :=
  (within_recurs limit).body_orderly rank

section

variable (assembly : Assembly σ)

theorem statementWithin_recurs (limit : Nat) :
    Recurs limit (fun (inner : Unit → Parser σ) _ => statementHere limit assembly (inner ()))
      (fun levels _ => statementWithin limit assembly levels) where
  out _ := rfl
  call _ _ := rfl
  behind coincide _ :=
    (Coincide.congruence limit _ _).statementHere (fun rank => (ofRank_orderly limit rank).coincide)
      (coincide ()) (block_coincide (coincide ()))

theorem statement_orderly (limit : Nat) : EndsOrderly (statement limit assembly) :=
  (statementWithin_recurs assembly limit).tied_orderly ()

theorem statement_run (limit : Nat) (cursor : Cursor) :
    statement limit assembly cursor =
      statementWithin limit assembly (cursor.rest.length + 1) cursor :=
  (statementWithin_recurs assembly limit).tied_run () cursor

/-- A statement is written with statements. -/
theorem statement_eq_nested (limit : Nat) :
    statement limit assembly =
      nested limit (statementHere limit assembly (statement limit assembly)) :=
  (statementWithin_recurs assembly limit).tied_eq_nested ()

theorem statementHere_orderly (limit : Nat) :
    EndsOrderly (statementHere limit assembly (statement limit assembly)) :=
  (statementWithin_recurs assembly limit).body_orderly ()

end

/-- The parsers of the grammar, by what they return. -/
inductive Part (σ : Type) : Type → Type
  | block : Part σ σ
  | statement : Part σ σ
  | branch : Part σ σ
  | loop : Part σ σ
  | assignment : Part σ σ
  | condition : Part σ Expr
  | expression : Part σ Expr
  | choice : Part σ Expr
  | disjunction : Part σ Expr
  | conjunction : Part σ Expr
  | negation : Part σ Expr
  | comparison : Part σ Expr
  | sum : Part σ Expr
  | product : Part σ Expr
  | primary : Part σ Expr
  | parenthesized : Part σ Expr
  | index : Part σ Expr
  | reference : Part σ Ref

namespace Part

/-- The parser of a part, written with the parsers of the other parts. -/
def parser (limit : Nat) (assembly : Assembly σ) : {α : Type} → Part σ α → Parser α
  | _, .block => Grammar.block assembly (Grammar.statement limit assembly)
  | _, .statement => Grammar.statement limit assembly
  | _, .branch => Grammar.branch limit assembly (Grammar.statement limit assembly)
  | _, .loop => Grammar.loop limit assembly (Grammar.statement limit assembly)
  | _, .assignment => Grammar.assignment limit assembly
  | _, .condition => Grammar.condition limit
  | _, .expression => Grammar.expression limit
  | _, .choice => Grammar.choice limit (ofRank limit)
  | _, .disjunction => Grammar.disjunction limit (ofRank limit)
  | _, .conjunction => Grammar.conjunction limit (ofRank limit)
  | _, .negation => Grammar.negation limit (ofRank limit)
  | _, .comparison => Grammar.comparison limit (ofRank limit)
  | _, .sum => Grammar.sum limit (ofRank limit)
  | _, .product => Grammar.product limit (ofRank limit)
  | _, .primary => Grammar.primary limit (ofRank limit)
  | _, .parenthesized => Grammar.parenthesized (ofRank limit)
  | _, .index => Grammar.index (ofRank limit)
  | _, .reference => Grammar.reference limit (ofRank limit)

/-- How many tokens a part has at least. A block may be empty, for the brace that opens it is passed
before. -/
def fewest : {α : Type} → Part σ α → Nat
  | _, .block => 0
  | _, _ => 1

theorem orderly (limit : Nat) (assembly : Assembly σ) (part : Part σ α) :
    EndsOrderly (part.parser limit assembly) := by
  have congruence (tokens : Nat) := Coincide.congruence limit 0 tokens
  have ranks {tokens : Nat} (rank : Rank) :
      Coincide 0 tokens 1 (ofRank limit rank) (ofRank limit rank) :=
    (ofRank_orderly limit rank).coincide
  have inner {tokens : Nat} :
      Coincide 0 tokens 1 (Grammar.statement limit assembly) (Grammar.statement limit assembly) :=
    (statement_orderly assembly limit).coincide
  cases part with
  | block => exact .of_coincide fun _ => block_coincide inner
  | statement => exact statement_orderly assembly limit
  | branch => exact .of_coincide fun tokens => (congruence tokens).branch ranks inner
  | loop => exact .of_coincide fun tokens => (congruence tokens).loop ranks inner
  | assignment => exact .of_coincide fun tokens => (congruence tokens).assignment ranks assembly
  | condition => exact .of_coincide fun tokens => (congruence tokens).parenthesized ranks
  | expression => exact ofRank_orderly limit .choice
  | choice => exact .of_coincide fun tokens => (congruence tokens).choice ranks
  | disjunction => exact .of_coincide fun tokens => (congruence tokens).disjunction ranks
  | conjunction => exact .of_coincide fun tokens => (congruence tokens).conjunction ranks
  | negation => exact .of_coincide fun tokens => (congruence tokens).negation ranks
  | comparison => exact .of_coincide fun tokens => (congruence tokens).comparison ranks
  | sum => exact .of_coincide fun tokens => (congruence tokens).sum ranks
  | product => exact .of_coincide fun tokens => (congruence tokens).product ranks
  | primary => exact .of_coincide fun tokens => (congruence tokens).primary ranks
  | parenthesized => exact .of_coincide fun tokens => (congruence tokens).parenthesized ranks
  | index => exact .of_coincide fun tokens => (congruence tokens).index ranks
  | reference => exact .of_coincide fun tokens => (congruence tokens).reference ranks

end Part

end Slate.Grammar
