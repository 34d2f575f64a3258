import Slate.Proofs.Grammar.Derivation

/-!
Whatever the parsers of expressions accept has a derivation. A successful run passes a word of
tokens and comes back to the depth where it began, and the derivation of the word takes no more
levels than there are from that depth up to the limit.
-/

set_option autoImplicit false

namespace Slate.Grammar

variable {α β : Type}

/-- Every success of the parser passes a word for which `phrase` holds at the depth of the start,
and ends at that depth. -/
def Reads (parser : Parser α) (phrase : Nat → List Token → α → Prop) : Prop :=
  ∀ cursor value after, parser cursor = .ok value after →
    after.depth = cursor.depth ∧
      ∃ word, cursor.rest = word ++ after.rest ∧ phrase cursor.depth word value

/-- The word is a phrase of the category whose levels, from the given depth on, are within the
limit. -/
def Fits (limit : Nat) (category : Category) (depth : Nat) (word : List Token) (value : Expr) :
    Prop :=
  ∃ derivation : Derivation category word value, derivation.need ≤ limit - depth

/-- The same for a chain with the given number of links. -/
def FitsChain (limit : Nat) (category : Category) (depth links : Nat) (word : List Token)
    (value : Expr) : Prop :=
  ∃ derivation : Derivation category word value,
    derivation.links = links ∧ derivation.need ≤ limit - depth

/-- The word fits one level further in. -/
def FitsInside (limit : Nat) (category : Category) (depth : Nat) (word : List Token)
    (value : Expr) : Prop :=
  depth < limit ∧ Fits limit category (depth + 1) word value

theorem FitsInside.derivation
    {limit depth : Nat} {category : Category} {word : List Token} {value : Expr}
    (inside : FitsInside limit category depth word value) :
    ∃ derivation : Derivation category word value, derivation.need + 1 ≤ limit - depth := by
  rcases inside with ⟨below, derivation, fits⟩
  exact ⟨derivation, by omega⟩

namespace Reads

variable {parser : Parser α} {phrase : Nat → List Token → α → Prop}

theorem weaken
    {weaker : Nat → List Token → α → Prop} (reads : Reads parser phrase)
    (implies : ∀ depth word value, phrase depth word value → weaker depth word value) :
    Reads parser weaker := by
  intro cursor value after run
  rcases reads cursor value after run with ⟨sameDepth, word, shape, holds⟩
  exact ⟨sameDepth, word, shape, implies _ _ _ holds⟩

theorem pure (value : α) :
    Reads (Pure.pure value) (fun _ word result => word = [] ∧ result = value) := by
  intro cursor result after run
  cases run
  exact ⟨rfl, [], rfl, rfl, rfl⟩

/-- Two parsers in sequence pass the two words one after the other. -/
theorem bind
    {next : α → Parser β} {follow : α → Nat → List Token → β → Prop}
    (reads : Reads parser phrase) (followReads : ∀ value, Reads (next value) (follow value)) :
    Reads (parser >>= next) (fun depth word result =>
      ∃ value first second, word = first ++ second ∧ phrase depth first value ∧
        follow value depth second result) := by
  intro cursor result after run
  rcases bind_eq_ok_iff.mp run with ⟨value, middle, firstRun, secondRun⟩
  rcases reads _ _ _ firstRun with ⟨firstDepth, first, firstShape, firstHolds⟩
  rcases followReads value _ _ _ secondRun with ⟨secondDepth, second, secondShape, secondHolds⟩
  rw [firstDepth] at secondDepth secondHolds
  refine ⟨secondDepth, first ++ second, ?_, value, first, second, rfl, firstHolds, secondHolds⟩
  rw [firstShape, secondShape, List.append_assoc]

theorem map (reads : Reads parser phrase) (build : α → β) :
    Reads (do return build (← parser))
      (fun depth word result => ∃ value, phrase depth word value ∧ result = build value) := by
  refine (reads.bind fun value => Reads.pure (build value)).weaken ?_
  rintro depth word result ⟨value, first, _, rfl, holds, rfl, rfl⟩
  exact ⟨value, by simpa using holds, rfl⟩

theorem expect (token : Token) (expected : Expected) :
    Reads (Grammar.expect token expected) (fun _ word _ => word = [token]) := by
  intro cursor value after run
  rcases expect_eq_ok run with ⟨shape, sameDepth⟩
  exact ⟨sameDepth, [token], shape, rfl⟩

/-- One token of lookahead decides between two parsers, and the first of them passes it. -/
theorem ifNext
    {other : Parser α} {otherPhrase : Nat → List Token → α → Prop} (token : Token)
    (reads : Reads parser phrase) (otherReads : Reads other otherPhrase) :
    Reads (do if (← peek) = some token then advance; parser else other)
      (fun depth word value =>
        (∃ further, word = token :: further ∧ phrase depth further value) ∨
          otherPhrase depth word value) := by
  intro cursor value after run
  rw [peek_bind] at run
  split at run
  next found =>
    rw [advance_bind] at run
    rcases reads _ _ _ run with ⟨sameDepth, further, shape, holds⟩
    rcases List.head?_eq_some_iff.mp found with ⟨rest, restShape⟩
    simp only [restShape, List.tail_cons] at shape
    exact ⟨sameDepth, token :: further, by rw [restShape, shape]; rfl, .inl ⟨further, rfl, holds⟩⟩
  next =>
    rcases otherReads _ _ _ run with ⟨sameDepth, word, shape, holds⟩
    exact ⟨sameDepth, word, shape, .inr holds⟩

/-- A parser that goes on behind the token at the head. -/
theorem behind
    (reads : Reads parser phrase) {token : Token} {rest : List Token} {cursor after : Cursor}
    {value : α} (shape : cursor.rest = token :: rest)
    (run : parser ⟨rest, cursor.depth⟩ = .ok value after) :
    after.depth = cursor.depth ∧
      ∃ word, cursor.rest = token :: word ++ after.rest ∧ phrase cursor.depth word value := by
  rcases reads _ _ _ run with ⟨sameDepth, word, restShape, holds⟩
  simp only at sameDepth restShape holds
  exact ⟨sameDepth, word, by rw [shape, restShape]; rfl, holds⟩

theorem nested (limit : Nat) (reads : Reads parser phrase) :
    Reads (Grammar.nested limit parser)
      (fun depth word value => depth < limit ∧ phrase (depth + 1) word value) := by
  intro cursor value after run
  rcases nested_eq_ok run with ⟨below, inside, insideRun, rfl⟩
  rcases reads _ _ _ insideRun with ⟨sameDepth, word, shape, holds⟩
  exact ⟨by simp only at sameDepth ⊢; omega, word, shape, below, holds⟩

end Reads

section

variable {limit : Nat} {link? : Token → Option (α → β → α)} {operand : Parser β}
  {phrase : Nat → List Token → β → Prop}

/-- What one link preserves, a whole chain preserves. The invariant speaks of the links so far,
the word passed so far and its value. -/
theorem chain_reads
    (reads : Reads operand phrase) {start : Nat} {invariant : Nat → List Token → α → Prop}
    (step : ∀ {links word left token extend further right},
      invariant links word left → link? token = some extend → start + links < limit →
      phrase (start + links + 1) further right →
      invariant (links + 1) (word ++ token :: further) (extend left right))
    (fuel links : Nat) {left value : α} {word : List Token} {cursor after : Cursor}
    (begins : invariant links word left) (atDepth : cursor.depth = start + links)
    (run : chain limit link? operand fuel links left cursor = .ok value after) :
    after.depth = start ∧
      ∃ total further, cursor.rest = further ++ after.rest ∧
        invariant total (word ++ further) value := by
  induction fuel generalizing links left word cursor with
  | zero => cases run
  | succ fuel inductionHypothesis =>
      unfold chain at run
      rw [peek_bind] at run
      cases found : cursor.rest.head?.bind link? with
      | none =>
          simp only [found, ascend_bind, pure_run, EStateM.Result.ok.injEq] at run
          rcases run with ⟨rfl, rfl⟩
          exact ⟨by simp only; omega, links, [], rfl, by simpa using begins⟩
      | some extend =>
          simp only [found, advance_bind] at run
          rcases bind_eq_ok_iff.mp run with ⟨_, below, descended, linkRun⟩
          rcases descend_eq_ok descended with ⟨within, rfl⟩
          rcases bind_eq_ok_iff.mp linkRun with ⟨right, middle, operandRun, chainRun⟩
          rcases reads _ _ _ operandRun with ⟨sameDepth, further, shape, holds⟩
          rcases Option.bind_eq_some_iff.mp found with ⟨token, headToken, linkToken⟩
          rcases List.head?_eq_some_iff.mp headToken with ⟨rest, restShape⟩
          simp only [restShape, List.tail_cons, atDepth] at within sameDepth shape holds
          -- The operand was read behind this link too, one level further in than the links before.
          have extended := step begins linkToken within holds
          rcases inductionHypothesis (links + 1) extended (by omega) chainRun with
            ⟨ended, total, remaining, remainingShape, kept⟩
          refine ⟨ended, total, token :: (further ++ remaining), ?_, ?_⟩
          · rw [restShape, shape, remainingShape]
            simp
          · simpa using kept

theorem leftChain_reads
    {first : Parser α} {firstPhrase : Nat → List Token → α → Prop}
    (firstReads : Reads first firstPhrase) (reads : Reads operand phrase)
    (invariant : Nat → Nat → List Token → α → Prop)
    (begins : ∀ {start word value}, firstPhrase start word value → invariant start 0 word value)
    (step : ∀ {start links word left token extend further right},
      invariant start links word left → link? token = some extend → start + links < limit →
      phrase (start + links + 1) further right →
      invariant start (links + 1) (word ++ token :: further) (extend left right)) :
    Reads (do leftChain limit link? operand (← first))
      (fun start word value => ∃ links, invariant start links word value) := by
  intro cursor value after run
  rcases bind_eq_ok_iff.mp run with ⟨left, middle, firstRun, chainRun⟩
  rcases firstReads _ _ _ firstRun with ⟨firstDepth, word, firstShape, firstHolds⟩
  unfold leftChain at chainRun
  rw [get_bind] at chainRun
  rcases chain_reads reads step _ 0 (begins firstHolds) firstDepth chainRun with
    ⟨sameDepth, links, further, shape, kept⟩
  exact ⟨sameDepth, word ++ further, by rw [firstShape, shape, List.append_assoc], links, kept⟩

end

theorem comparisonOp?_eq_some {token : Token} {op : BinaryOp}
    (found : comparisonOp? token = some op) : op.category = .comparison ∧ token = op.sign := by
  cases token <;> cases found <;> exact ⟨rfl, rfl⟩

theorem sumOp?_eq_some {token : Token} {op : BinaryOp}
    (found : sumOp? token = some op) : op.category = .sum ∧ token = op.sign := by
  cases token <;> cases found <;> exact ⟨rfl, rfl⟩

theorem productOp?_eq_some {token : Token} {op : BinaryOp}
    (found : productOp? token = some op) : op.category = .product ∧ token = op.sign := by
  cases token <;> cases found <;> exact ⟨rfl, rfl⟩

theorem plainVariable_run (cursor : Cursor) :
    plainVariable cursor =
      match cursor.rest with
      | .identifier name :: rest => .ok (.plain name) ⟨rest, cursor.depth⟩
      | _ => unexpected .variableName cursor := by
  rcases cursor with ⟨_ | ⟨token, rest⟩, depth⟩
  · rfl
  · cases token <;> rfl

theorem plainVariable_reads :
    Reads plainVariable
      (fun _ word ref => ∃ name, word = [.identifier name] ∧ ref = .plain name) := by
  intro cursor value after run
  rw [plainVariable_run] at run
  split at run
  next name rest shape =>
    cases run
    exact ⟨rfl, [.identifier name], shape, name, rfl, rfl⟩
  next => simp [unexpected_run] at run

section

variable {limit : Nat} {inner : Rank → Parser Expr}

theorem index_run (cursor : Cursor) :
    index inner cursor =
      match cursor.rest with
      | .number value :: rest => .ok (.literal value) ⟨rest, cursor.depth⟩
      | .leftParen :: _ => parenthesized inner cursor
      | _ => (do return Expr.reference (← plainVariable) : Parser Expr) cursor := by
  rcases cursor with ⟨_ | ⟨token, rest⟩, depth⟩
  · rfl
  · cases token <;> rfl

theorem primary_run (cursor : Cursor) :
    primary limit inner cursor =
      match cursor.rest with
      | .number value :: rest => .ok (.literal value) ⟨rest, cursor.depth⟩
      | .leftParen :: _ => parenthesized inner cursor
      | _ => (do return Expr.reference (← reference limit inner) : Parser Expr) cursor := by
  rcases cursor with ⟨_ | ⟨token, rest⟩, depth⟩
  · rfl
  · cases token <;> rfl

variable (innerReads : ∀ rank, Reads (inner rank) (FitsInside limit rank.category))

include innerReads

theorem parenthesized_reads :
    Reads (parenthesized inner) (fun depth word value =>
      ∃ inside, word = .leftParen :: (inside ++ [.rightParen]) ∧
        FitsInside limit .choice depth inside value) := by
  unfold parenthesized
  refine ((Reads.expect _ _).bind fun _ => (innerReads .choice).bind fun value =>
    (Reads.expect _ _).bind fun _ => Reads.pure value).weaken ?_
  rintro depth word value
    ⟨_, _, _, rfl, rfl, inside, first, _, rfl, fits, _, _, _, rfl, rfl, rfl, rfl⟩
  exact ⟨first, by simp, fits⟩

theorem index_reads : Reads (index inner) (Fits limit .index) := by
  intro cursor value after run
  rw [index_run] at run
  split at run
  next number rest shape =>
    cases run
    exact ⟨rfl, [.number number], shape, .indexNumber number, Nat.zero_le _⟩
  next =>
    refine (parenthesized_reads innerReads).weaken ?_ cursor value after run
    rintro depth word value ⟨inside, rfl, fits⟩
    rcases fits.derivation with ⟨derivation, bound⟩
    exact ⟨.indexParenthesized derivation, bound⟩
  next =>
    refine (plainVariable_reads.map Expr.reference).weaken ?_ cursor value after run
    rintro depth word value ⟨_, ⟨name, rfl, rfl⟩, rfl⟩
    exact ⟨.indexVariable name, Nat.zero_le _⟩

theorem reference_reads :
    Reads (reference limit inner)
      (fun depth word ref => Fits limit .reference depth word (.reference ref)) := by
  unfold reference
  refine (leftChain_reads plainVariable_reads (index_reads innerReads)
    (fun start links word ref => FitsChain limit .reference start links word (.reference ref))
    ?_ ?_).weaken ?_
  · rintro start word ref ⟨name, rfl, rfl⟩
    exact ⟨.plain name, rfl, Nat.zero_le _⟩
  · rintro start links word base token extend further index ⟨before, rfl, bound⟩ linkToken below
      ⟨last, lastBound⟩
    split at linkToken
    next isAt =>
      subst isAt
      cases linkToken
      refine ⟨.indexed before last, rfl, ?_⟩
      simp only [Derivation.need]
      omega
    next => cases linkToken
  · rintro depth word ref ⟨links, derivation, _, bound⟩
    exact ⟨derivation, bound⟩

theorem primary_reads : Reads (primary limit inner) (Fits limit .primary) := by
  intro cursor value after run
  rw [primary_run] at run
  split at run
  next number rest shape =>
    cases run
    exact ⟨rfl, [.number number], shape, .number number, Nat.zero_le _⟩
  next =>
    refine (parenthesized_reads innerReads).weaken ?_ cursor value after run
    rintro depth word value ⟨inside, rfl, fits⟩
    rcases fits.derivation with ⟨derivation, bound⟩
    exact ⟨.parenthesized derivation, bound⟩
  next =>
    refine ((reference_reads innerReads).map Expr.reference).weaken ?_ cursor value after run
    rintro depth word value ⟨ref, ⟨derivation, bound⟩, rfl⟩
    exact ⟨.ofReference derivation, bound⟩

theorem product_reads : Reads (product limit inner) (Fits limit .product) := by
  unfold product
  refine (leftChain_reads (primary_reads innerReads) (primary_reads innerReads)
    (FitsChain limit .product) ?_ ?_).weaken ?_
  · rintro start word value ⟨derivation, bound⟩
    exact ⟨.ofPrimary derivation, rfl, bound⟩
  · rintro start links word left token extend further right ⟨before, rfl, bound⟩ linkToken below
      ⟨last, lastBound⟩
    rcases Option.map_eq_some_iff.mp linkToken with ⟨op, opToken, rfl⟩
    rcases productOp?_eq_some opToken with ⟨multiplies, rfl⟩
    refine ⟨.multiply op multiplies before last, rfl, ?_⟩
    simp only [Derivation.need]
    omega
  · rintro depth word value ⟨links, derivation, _, bound⟩
    exact ⟨derivation, bound⟩

theorem sum_reads : Reads (sum limit inner) (Fits limit .sum) := by
  unfold sum
  refine (leftChain_reads (product_reads innerReads) (product_reads innerReads)
    (FitsChain limit .sum) ?_ ?_).weaken ?_
  · rintro start word value ⟨derivation, bound⟩
    exact ⟨.ofProduct derivation, rfl, bound⟩
  · rintro start links word left token extend further right ⟨before, rfl, bound⟩ linkToken below
      ⟨last, lastBound⟩
    rcases Option.map_eq_some_iff.mp linkToken with ⟨op, opToken, rfl⟩
    rcases sumOp?_eq_some opToken with ⟨adds, rfl⟩
    refine ⟨.add op adds before last, rfl, ?_⟩
    simp only [Derivation.need]
    omega
  · rintro depth word value ⟨links, derivation, _, bound⟩
    exact ⟨derivation, bound⟩

theorem comparison_reads : Reads (comparison limit inner) (Fits limit .comparison) := by
  intro cursor value after run
  unfold comparison at run
  rcases bind_eq_ok_iff.mp run with ⟨left, middle, leftRun, signRun⟩
  rcases sum_reads innerReads _ _ _ leftRun with
    ⟨leftDepth, first, firstShape, leftDerivation, leftBound⟩
  rw [peek_bind] at signRun
  cases found : middle.rest.head?.bind comparisonOp? with
  | none =>
      simp only [found, pure_run, EStateM.Result.ok.injEq] at signRun
      rcases signRun with ⟨rfl, rfl⟩
      exact ⟨leftDepth, first, firstShape, .ofSum leftDerivation, leftBound⟩
  | some op =>
      simp only [found, advance_bind] at signRun
      rcases bind_eq_ok_iff.mp signRun with ⟨right, _, rightRun, done⟩
      cases done
      rcases sum_reads innerReads _ _ _ rightRun with
        ⟨rightDepth, second, secondShape, rightDerivation, rightBound⟩
      rcases Option.bind_eq_some_iff.mp found with ⟨token, headToken, opToken⟩
      rcases comparisonOp?_eq_some opToken with ⟨compares, rfl⟩
      rcases List.head?_eq_some_iff.mp headToken with ⟨rest, restShape⟩
      simp only [restShape, List.tail_cons, leftDepth] at rightDepth secondShape rightBound
      refine ⟨rightDepth, first ++ op.sign :: second, ?_,
        .compare op compares leftDerivation rightDerivation, ?_⟩
      · rw [firstShape, restShape, secondShape]
        simp
      · simp only [Derivation.need]
        omega

theorem negation_reads : Reads (negation limit inner) (Fits limit .negation) := by
  unfold negation
  refine (Reads.ifNext .bang ((innerReads .negation).map (Expr.unary .not))
    (comparison_reads innerReads)).weaken ?_
  rintro depth word value (⟨further, rfl, operand, inside, rfl⟩ | ⟨derivation, bound⟩)
  · rcases inside.derivation with ⟨derivation, bound⟩
    exact ⟨.not derivation, bound⟩
  · exact ⟨.ofComparison derivation, bound⟩

theorem conjunction_reads : Reads (conjunction limit inner) (Fits limit .conjunction) := by
  unfold conjunction
  refine ((negation_reads innerReads).bind fun left =>
    Reads.ifNext .and ((innerReads .conjunction).map (Expr.binary .and left))
      (Reads.pure left)).weaken ?_
  rintro depth word value ⟨left, first, _, rfl, ⟨leftDerivation, leftBound⟩,
    ⟨second, rfl, right, inside, rfl⟩ | ⟨rfl, rfl⟩⟩
  · rcases inside.derivation with ⟨rightDerivation, rightBound⟩
    exact ⟨.and leftDerivation rightDerivation, Nat.max_le.mpr ⟨leftBound, rightBound⟩⟩
  · rw [List.append_nil]
    exact ⟨.ofNegation leftDerivation, leftBound⟩

theorem disjunction_reads : Reads (disjunction limit inner) (Fits limit .disjunction) := by
  unfold disjunction
  refine ((conjunction_reads innerReads).bind fun left =>
    Reads.ifNext .or ((innerReads .disjunction).map (Expr.binary .or left))
      (Reads.pure left)).weaken ?_
  rintro depth word value ⟨left, first, _, rfl, ⟨leftDerivation, leftBound⟩,
    ⟨second, rfl, right, inside, rfl⟩ | ⟨rfl, rfl⟩⟩
  · rcases inside.derivation with ⟨rightDerivation, rightBound⟩
    exact ⟨.or leftDerivation rightDerivation, Nat.max_le.mpr ⟨leftBound, rightBound⟩⟩
  · rw [List.append_nil]
    exact ⟨.ofConjunction leftDerivation, leftBound⟩

theorem choice_reads : Reads (choice limit inner) (Fits limit .choice) := by
  unfold choice
  refine ((disjunction_reads innerReads).bind fun condition =>
    Reads.ifNext .question ((innerReads .choice).bind fun accepted =>
      (Reads.expect .colon .colon).bind fun _ =>
        (innerReads .choice).map (Expr.select condition accepted))
      (Reads.pure condition)).weaken ?_
  rintro depth word value ⟨condition, first, _, rfl, ⟨conditionDerivation, conditionBound⟩,
    ⟨_, rfl, accepted, second, _, rfl, acceptedInside, _, _, third, rfl, rfl, rejected,
      rejectedInside, rfl⟩ | ⟨rfl, rfl⟩⟩
  · rcases acceptedInside.derivation with ⟨acceptedDerivation, acceptedBound⟩
    rcases rejectedInside.derivation with ⟨rejectedDerivation, rejectedBound⟩
    exact ⟨.select conditionDerivation acceptedDerivation rejectedDerivation,
      Nat.max_le.mpr ⟨conditionBound, Nat.max_le.mpr ⟨acceptedBound, rejectedBound⟩⟩⟩
  · rw [List.append_nil]
    exact ⟨.ofDisjunction conditionDerivation, conditionBound⟩

theorem ranked_reads (rank : Rank) :
    Reads (ranked limit inner rank) (Fits limit rank.category) := by
  cases rank with
  | choice => exact choice_reads innerReads
  | disjunction => exact disjunction_reads innerReads
  | conjunction => exact conjunction_reads innerReads
  | negation => exact negation_reads innerReads

end

theorem within_reads (limit levels : Nat) (rank : Rank) :
    Reads (within limit levels rank) (FitsInside limit rank.category) := by
  induction levels generalizing rank with
  | zero =>
      intro cursor value after run
      cases run
  | succ levels inductionHypothesis => exact (ranked_reads inductionHypothesis rank).nested limit

theorem ofRank_reads (limit : Nat) (rank : Rank) :
    Reads (ofRank limit rank) (FitsInside limit rank.category) := by
  intro cursor value after run
  unfold ofRank at run
  rw [get_bind] at run
  exact within_reads limit _ rank cursor value after run

theorem expression_reads (limit : Nat) :
    Reads (expression limit) (FitsInside limit .choice) :=
  ofRank_reads limit .choice

end Slate.Grammar
