import Slate.Proofs.Grammar.Soundness

/-!
Whatever has a derivation is accepted. Behind a phrase there may stand any token that cannot
continue it, and the limit must leave as many levels as the derivation takes.

A chain is read from its first operand on, so its parser is followed link by link: after any number
of links it stands in the middle of its loop, with the value of the links so far.
-/

set_option autoImplicit false

namespace Slate.Grammar

variable {α β : Type}

/-- The tokens that continue a phrase of the category when they stand behind it. -/
def Category.continuations : Category → List Token
  | .index => []
  | .reference | .primary => [.at]
  | .product => [.at, .star, .slash, .percent]
  | .sum => [.at, .star, .slash, .percent, .plus, .minus]
  | .comparison | .negation =>
      [.at, .star, .slash, .percent, .plus, .minus, .less, .greater, .lessEqual, .greaterEqual,
        .equal, .notEqual]
  | .conjunction =>
      [.at, .star, .slash, .percent, .plus, .minus, .less, .greater, .lessEqual, .greaterEqual,
        .equal, .notEqual, .and]
  | .disjunction =>
      [.at, .star, .slash, .percent, .plus, .minus, .less, .greater, .lessEqual, .greaterEqual,
        .equal, .notEqual, .and, .or]
  | .choice =>
      [.at, .star, .slash, .percent, .plus, .minus, .less, .greater, .lessEqual, .greaterEqual,
        .equal, .notEqual, .and, .or, .question]

/-- Nothing at the head of the tokens continues a phrase of the category. -/
def Stops (category : Category) (rest : List Token) : Prop :=
  ∀ token ∈ rest.head?, token ∉ category.continuations

theorem Stops.cons
    {category : Category} {token : Token} (rest : List Token)
    (foreign : token ∉ category.continuations) : Stops category (token :: rest) := by
  intro head isHead
  cases isHead
  exact foreign

theorem Stops.tighter
    {loose tight : Category} {rest : List Token} (stops : Stops loose rest)
    (fewer : tight.continuations ⊆ loose.continuations) : Stops tight rest :=
  fun token isHead continues => stops token isHead (fewer continues)

theorem Stops.head?_ne
    {category : Category} {rest : List Token} {token : Token} (stops : Stops category rest)
    (continues : token ∈ category.continuations) : rest.head? ≠ some token :=
  fun isHead => stops token isHead continues

/-- No token at the head is one that the table gives an operator for. -/
theorem Stops.bind_eq_none
    {category : Category} {rest : List Token} {table : Token → Option α}
    (stops : Stops category rest)
    (covers : ∀ token, table token ≠ none → token ∈ category.continuations) :
    rest.head?.bind table = none := by
  rw [Option.bind_eq_none_iff]
  intro token isHead
  cases found : table token with
  | none => rfl
  | some operator => exact absurd (covers token (by simp [found])) (stops token isHead)

theorem comparisonOp?_sign
    {op : BinaryOp} (compares : op.category = .comparison) : comparisonOp? op.sign = some op := by
  revert compares
  cases op <;> decide

theorem sumOp?_sign
    {op : BinaryOp} (adds : op.category = .sum) : sumOp? op.sign = some op := by
  revert adds
  cases op <;> decide

theorem productOp?_sign
    {op : BinaryOp} (multiplies : op.category = .product) : productOp? op.sign = some op := by
  revert multiplies
  cases op <;> decide

theorem sign_mem_continuations (op : BinaryOp) : op.sign ∈ op.category.continuations := by
  cases op <;> decide

/-- A sign does not continue the operands of its own operator. -/
theorem sign_notMem_continuations (op : BinaryOp) :
    (op.category = .comparison → op.sign ∉ Category.sum.continuations) ∧
      (op.category = .sum → op.sign ∉ Category.product.continuations) ∧
        (op.category = .product → op.sign ∉ Category.primary.continuations) := by
  cases op <;> decide

/-- A table of signs for one category covers only tokens that continue the category. -/
theorem mem_continuations_of_table
    {table : Token → Option BinaryOp} {category : Category}
    (signs : ∀ {token op}, table token = some op → op.category = category ∧ token = op.sign)
    (token : Token) (found : table token ≠ none) : token ∈ category.continuations := by
  rcases Option.ne_none_iff_exists'.mp found with ⟨op, isOp⟩
  rcases signs isOp with ⟨rfl, rfl⟩
  exact sign_mem_continuations op

/-- The parsers for what stands one level further in accept every phrase that takes fewer than
`levels` levels, before everything that does not continue it. -/
def Accepts (limit : Nat) (inner : Rank → Parser Expr) (levels : Nat) : Prop :=
  ∀ rank {category word value} (derivation : Derivation category word value) depth rest,
    rank.category = category → derivation.need < levels → derivation.need < limit - depth →
      Stops category rest → inner rank ⟨word ++ rest, depth⟩ = .ok value ⟨rest, depth⟩

theorem Accepts.mono
    {limit levels fewer : Nat} {inner : Rank → Parser Expr} (accepts : Accepts limit inner levels)
    (bound : fewer ≤ levels) : Accepts limit inner fewer :=
  fun rank _ _ _ derivation depth rest same below =>
    accepts rank derivation depth rest same (Nat.lt_of_lt_of_le below bound)

/-- With `need` levels left, the parser passes the word and returns the value, at every depth and
before everything that does not continue the category. -/
def Completes (limit : Nat) (parser : (Rank → Parser Expr) → Parser α) (category : Category)
    (word : List Token) (value : α) (need : Nat) : Prop :=
  ∀ inner depth rest, Accepts limit inner need → need ≤ limit - depth → Stops category rest →
    parser inner ⟨word ++ rest, depth⟩ = .ok value ⟨rest, depth⟩

section

variable {limit : Nat} {link? : Token → Option (α → β → α)}
  {operand : (Rank → Parser Expr) → Parser β} {operandCategory : Category}

/-- Once the parser has passed the word, it stands in the loop of its chain, with the links and the
value of the word. -/
def Resumes (limit : Nat) (parser : (Rank → Parser Expr) → Parser α)
    (link? : Token → Option (α → β → α)) (operand : (Rank → Parser Expr) → Parser β)
    (operandCategory : Category) (word : List Token) (value : α) (links need : Nat) : Prop :=
  links ≤ need ∧
    ∀ inner depth rest, Accepts limit inner need → need ≤ limit - depth →
      Stops operandCategory rest →
        parser inner ⟨word ++ rest, depth⟩ =
          chain limit link? (operand inner) (limit - depth - links + 1) links value
            ⟨rest, depth + links⟩

theorem Resumes.first
    {first : (Rank → Parser Expr) → Parser α} {word : List Token} {value : α} {need : Nat}
    (completes : Completes limit first operandCategory word value need) :
    Resumes limit (fun inner => do leftChain limit link? (operand inner) (← first inner)) link?
      operand operandCategory word value 0 need := by
  refine ⟨Nat.zero_le _, ?_⟩
  intro inner depth rest accepts room stops
  exact bind_of_ok (completes inner depth rest accepts room stops)

theorem Resumes.link
    {parser : (Rank → Parser Expr) → Parser α} {word further : List Token} {left : α} {right : β}
    {token : Token} {extend : α → β → α} {links need operandNeed : Nat}
    (resumes : Resumes limit parser link? operand operandCategory word left links need)
    (linkToken : link? token = some extend) (foreign : token ∉ operandCategory.continuations)
    (completes : Completes limit operand operandCategory further right operandNeed) :
    Resumes limit parser link? operand operandCategory (word ++ token :: further)
      (extend left right) (links + 1) (max need (links + 1 + operandNeed)) := by
  refine ⟨by omega, ?_⟩
  intro inner depth rest accepts room stops
  have before := resumes.2 inner depth (token :: (further ++ rest)) (accepts.mono (by omega))
    (by omega) (.cons _ foreign)
  have last := completes inner (depth + links + 1) rest (accepts.mono (by omega)) (by omega) stops
  have fuel : limit - depth - links + 1 = limit - depth - (links + 1) + 1 + 1 := by omega
  rw [List.append_assoc, List.cons_append, before, fuel, chain, peek_bind]
  simp only [List.head?_cons, Option.bind_some, linkToken, advance_bind, List.tail_cons]
  rw [descend_bind _ (by simp only; omega), bind_of_ok last]
  rfl

/-- Where nothing continues the chain, its loop ends and gives the levels back. -/
theorem Resumes.completes
    {parser : (Rank → Parser Expr) → Parser α} {category : Category} {word : List Token}
    {value : α} {links need : Nat}
    (resumes : Resumes limit parser link? operand operandCategory word value links need)
    (fewer : operandCategory.continuations ⊆ category.continuations)
    (covers : ∀ token, link? token ≠ none → token ∈ category.continuations) :
    Completes limit parser category word value need := by
  intro inner depth rest accepts room stops
  rw [resumes.2 inner depth rest accepts room (stops.tighter fewer), chain, peek_bind,
    stops.bind_eq_none covers]
  simp only [ascend_bind, pure_run, Nat.add_sub_cancel]

end

section

variable {limit need leftNeed rightNeed : Nat} {word first second third : List Token}
  {value left right : Expr}

theorem Completes.ofDisjunction
    (completes : Completes limit (disjunction limit) .disjunction word value need) :
    Completes limit (choice limit) .choice word value need := by
  intro inner depth rest accepts room stops
  unfold choice
  rw [bind_of_ok (completes inner depth rest accepts room (stops.tighter (by decide))),
    ifNext_run_of_ne _ _ (stops.head?_ne (by decide)), pure_run]

theorem Completes.select
    {condition accepted rejected : Expr} {conditionNeed : Nat}
    (conditionCompletes : Completes limit (disjunction limit) .disjunction first condition
      conditionNeed)
    (acceptedPart : Derivation .choice second accepted)
    (rejectedPart : Derivation .choice third rejected) :
    Completes limit (choice limit) .choice (first ++ .question :: (second ++ .colon :: third))
      (.select condition accepted rejected)
      (max conditionNeed (max (acceptedPart.need + 1) (rejectedPart.need + 1))) := by
  intro inner depth rest accepts room stops
  have conditionRun := conditionCompletes inner depth
    (.question :: (second ++ .colon :: (third ++ rest))) (accepts.mono (by omega)) (by omega)
    (.cons _ (by decide))
  have acceptedRun := accepts .choice acceptedPart depth (.colon :: (third ++ rest)) rfl
    (by omega) (by omega) (.cons _ (by decide))
  have rejectedRun := accepts .choice rejectedPart depth rest rfl (by omega) (by omega) stops
  unfold choice
  simp only [List.append_assoc, List.cons_append]
  rw [bind_of_ok conditionRun, ifNext_run, bind_of_ok acceptedRun, expect_bind,
    bind_of_ok rejectedRun, pure_run]

theorem Completes.ofConjunction
    (completes : Completes limit (conjunction limit) .conjunction word value need) :
    Completes limit (disjunction limit) .disjunction word value need := by
  intro inner depth rest accepts room stops
  unfold disjunction
  rw [bind_of_ok (completes inner depth rest accepts room (stops.tighter (by decide))),
    ifNext_run_of_ne _ _ (stops.head?_ne (by decide)), pure_run]

theorem Completes.or
    (leftCompletes : Completes limit (conjunction limit) .conjunction first left leftNeed)
    (rightPart : Derivation .disjunction second right) :
    Completes limit (disjunction limit) .disjunction (first ++ .or :: second)
      (.binary .or left right) (max leftNeed (rightPart.need + 1)) := by
  intro inner depth rest accepts room stops
  have leftRun := leftCompletes inner depth (.or :: (second ++ rest)) (accepts.mono (by omega))
    (by omega) (.cons _ (by decide))
  have rightRun := accepts .disjunction rightPart depth rest rfl (by omega) (by omega) stops
  unfold disjunction
  rw [List.append_assoc, List.cons_append, bind_of_ok leftRun, ifNext_run, bind_of_ok rightRun,
    pure_run]

theorem Completes.ofNegation
    (completes : Completes limit (negation limit) .negation word value need) :
    Completes limit (conjunction limit) .conjunction word value need := by
  intro inner depth rest accepts room stops
  unfold conjunction
  rw [bind_of_ok (completes inner depth rest accepts room (stops.tighter (by decide))),
    ifNext_run_of_ne _ _ (stops.head?_ne (by decide)), pure_run]

theorem Completes.and
    (leftCompletes : Completes limit (negation limit) .negation first left leftNeed)
    (rightPart : Derivation .conjunction second right) :
    Completes limit (conjunction limit) .conjunction (first ++ .and :: second)
      (.binary .and left right) (max leftNeed (rightPart.need + 1)) := by
  intro inner depth rest accepts room stops
  have leftRun := leftCompletes inner depth (.and :: (second ++ rest)) (accepts.mono (by omega))
    (by omega) (.cons _ (by decide))
  have rightRun := accepts .conjunction rightPart depth rest rfl (by omega) (by omega) stops
  unfold conjunction
  rw [List.append_assoc, List.cons_append, bind_of_ok leftRun, ifNext_run, bind_of_ok rightRun,
    pure_run]

theorem Completes.not (operandPart : Derivation .negation word value) :
    Completes limit (negation limit) .negation (.bang :: word) (.unary .not value)
      (operandPart.need + 1) := by
  intro inner depth rest accepts room stops
  have operandRun := accepts .negation operandPart depth rest rfl (by omega) (by omega) stops
  unfold negation
  rw [List.cons_append, ifNext_run, bind_of_ok operandRun, pure_run]

theorem Completes.ofComparison
    (notBang : ∀ rest, (word ++ rest).head? ≠ some .bang)
    (completes : Completes limit (comparison limit) .comparison word value need) :
    Completes limit (negation limit) .negation word value need := by
  intro inner depth rest accepts room stops
  unfold negation
  rw [ifNext_run_of_ne _ _ (notBang rest)]
  exact completes inner depth rest accepts room stops

theorem Completes.ofSum
    (completes : Completes limit (sum limit) .sum word value need) :
    Completes limit (comparison limit) .comparison word value need := by
  intro inner depth rest accepts room stops
  have noSign : rest.head?.bind comparisonOp? = none :=
    stops.bind_eq_none (mem_continuations_of_table comparisonOp?_eq_some)
  unfold comparison
  rw [bind_of_ok (completes inner depth rest accepts room (stops.tighter (by decide))), peek_bind]
  simp only [noSign, pure_run]

theorem Completes.compare
    {op : BinaryOp} (compares : op.category = .comparison)
    (leftCompletes : Completes limit (sum limit) .sum first left leftNeed)
    (rightCompletes : Completes limit (sum limit) .sum second right rightNeed) :
    Completes limit (comparison limit) .comparison (first ++ op.sign :: second)
      (.binary op left right) (max leftNeed rightNeed) := by
  intro inner depth rest accepts room stops
  have leftRun := leftCompletes inner depth (op.sign :: (second ++ rest))
    (accepts.mono (by omega)) (by omega) (.cons _ ((sign_notMem_continuations op).1 compares))
  have rightRun := rightCompletes inner depth rest (accepts.mono (by omega)) (by omega)
    (stops.tighter (by decide))
  unfold comparison
  rw [List.append_assoc, List.cons_append, bind_of_ok leftRun, peek_bind]
  simp only [List.head?_cons, Option.bind_some, comparisonOp?_sign compares, advance_bind,
    List.tail_cons]
  rw [bind_of_ok rightRun, pure_run]

theorem Completes.number (number : Word) :
    Completes limit (primary limit) .primary [.number number] (.literal number) 0 := by
  intro inner depth rest _ _ _
  rw [primary_run]
  rfl

theorem Completes.indexNumber (number : Word) :
    Completes limit index .index [.number number] (.literal number) 0 := by
  intro inner depth rest _ _ _
  rw [index_run]
  rfl

theorem Completes.indexVariable (name : String) :
    Completes limit index .index [.identifier name] (.reference (.plain name)) 0 := by
  intro inner depth rest _ _ _
  rw [index_run]
  rfl

theorem parenthesized_run
    {inner : Rank → Parser Expr} (part : Derivation .choice word value)
    (accepts : Accepts limit inner (part.need + 1)) (depth : Nat) (rest : List Token)
    (room : part.need + 1 ≤ limit - depth) :
    parenthesized inner ⟨.leftParen :: (word ++ [.rightParen]) ++ rest, depth⟩ =
      .ok value ⟨rest, depth⟩ := by
  have insideRun := accepts .choice part depth (.rightParen :: rest) rfl (by omega) (by omega)
    (.cons _ (by decide))
  unfold parenthesized
  rw [List.cons_append, List.append_assoc, List.singleton_append, expect_bind,
    bind_of_ok insideRun, expect_bind, pure_run]

theorem Completes.parenthesized (part : Derivation .choice word value) :
    Completes limit (primary limit) .primary (.leftParen :: (word ++ [.rightParen])) value
      (part.need + 1) := by
  intro inner depth rest accepts room _
  rw [primary_run]
  exact parenthesized_run part accepts depth rest room

theorem Completes.indexParenthesized (part : Derivation .choice word value) :
    Completes limit index .index (.leftParen :: (word ++ [.rightParen])) value
      (part.need + 1) := by
  intro inner depth rest accepts room _
  rw [index_run]
  exact parenthesized_run part accepts depth rest room

end

/-- What the parser of a category does with a phrase of it. For a chain this leaves open whether
further links follow. -/
def Accepted (limit : Nat) (word : List Token) (links need : Nat) : Category → Expr → Prop
  | .choice, value => Completes limit (choice limit) .choice word value need
  | .disjunction, value => Completes limit (disjunction limit) .disjunction word value need
  | .conjunction, value => Completes limit (conjunction limit) .conjunction word value need
  | .negation, value => Completes limit (negation limit) .negation word value need
  | .comparison, value => Completes limit (comparison limit) .comparison word value need
  | .sum, value =>
      Resumes limit (sum limit) (fun token => (sumOp? token).map .binary) (product limit) .product
        word value links need
  | .product, value =>
      Resumes limit (product limit) (fun token => (productOp? token).map .binary) (primary limit)
        .primary word value links need
  | .primary, value => Completes limit (primary limit) .primary word value need
  | .reference, value => ∃ ref, value = .reference ref ∧
      Resumes limit (reference limit) (fun token => if token = .at then some .indexed else none)
        index .index word ref links need
  | .index, value => Completes limit index .index word value need

section

variable {limit links need : Nat} {word : List Token}

theorem Completes.ofSumChain
    {value : Expr} (resumes : Accepted limit word links need .sum value) :
    Completes limit (sum limit) .sum word value need := by
  apply Resumes.completes resumes (by decide)
  intro token found
  exact mem_continuations_of_table sumOp?_eq_some token (by simpa using found)

theorem Completes.ofProductChain
    {value : Expr} (resumes : Accepted limit word links need .product value) :
    Completes limit (product limit) .product word value need := by
  apply Resumes.completes resumes (by decide)
  intro token found
  exact mem_continuations_of_table productOp?_eq_some token (by simpa using found)

theorem Completes.ofReferenceChain
    {ref : Ref} (resumes : Accepted limit word links need .reference (.reference ref)) :
    Completes limit (reference limit) .reference word ref need := by
  rcases resumes with ⟨_, same, resumes⟩
  cases same
  apply Resumes.completes resumes (by decide)
  intro token found
  split at found
  next isAt => simp [isAt, Category.continuations]
  next => exact absurd rfl found

theorem Completes.ofReference
    {ref : Ref} (name : String) (further : List Token) (shape : word = .identifier name :: further)
    (completes : Completes limit (reference limit) .reference word ref need) :
    Completes limit (primary limit) .primary word (.reference ref) need := by
  intro inner depth rest accepts room stops
  have run := completes inner depth rest accepts room stops
  subst shape
  rw [primary_run]
  exact bind_of_ok run

end

/-- A parser accepts every phrase of its category. -/
theorem Derivation.accepted
    {category : Category} {word : List Token} {value : Expr}
    (derivation : Derivation category word value) (limit : Nat) :
    Accepted limit word derivation.links derivation.need category value := by
  induction derivation with
  | ofDisjunction _ accepted => exact Completes.ofDisjunction accepted
  | select _ accepted rejected condition => exact Completes.select condition accepted rejected
  | ofConjunction _ accepted => exact Completes.ofConjunction accepted
  | or _ right left => exact Completes.or left right
  | ofNegation _ accepted => exact Completes.ofNegation accepted
  | and _ right left => exact Completes.and left right
  | ofComparison part accepted =>
      rcases part.begins with ⟨token, further, rfl, opens⟩
      refine Completes.ofComparison ?_ accepted
      rintro rest isBang
      cases isBang
      cases opens
  | not operand => exact Completes.not operand
  | ofSum _ accepted => exact Completes.ofSum (Completes.ofSumChain accepted)
  | compare op compares _ _ left right =>
      exact Completes.compare compares (Completes.ofSumChain left) (Completes.ofSumChain right)
  | ofProduct _ accepted => exact Resumes.first (Completes.ofProductChain accepted)
  | add op adds _ _ left right =>
      refine Resumes.link left ?_ ((sign_notMem_continuations op).2.1 adds)
        (Completes.ofProductChain right)
      simp only [sumOp?_sign adds, Option.map_some]
  | ofPrimary _ accepted => exact Resumes.first accepted
  | multiply op multiplies _ _ left right =>
      refine Resumes.link left ?_ ((sign_notMem_continuations op).2.2 multiplies) right
      simp only [productOp?_sign multiplies, Option.map_some]
  | number number => exact Completes.number number
  | parenthesized inside => exact Completes.parenthesized inside
  | ofReference part accepted =>
      rcases part.begins with ⟨token, further, shape, opens⟩
      rcases accepted with ⟨ref, rfl, resumes⟩
      cases token with
      | identifier name =>
          exact Completes.ofReference name further shape
            (Completes.ofReferenceChain ⟨ref, rfl, resumes⟩)
      | _ => cases opens
  | plain name =>
      refine ⟨.plain name, rfl, Resumes.first ?_⟩
      intro inner depth rest _ _ _
      rfl
  | indexed _ _ base index =>
      rcases base with ⟨ref, same, resumes⟩
      cases same
      exact ⟨_, rfl, Resumes.link resumes rfl (by decide) index⟩
  | indexNumber number => exact Completes.indexNumber number
  | indexParenthesized inside => exact Completes.indexParenthesized inside
  | indexVariable name => exact Completes.indexVariable name

theorem within_accepts (limit levels : Nat) : Accepts limit (within limit levels) levels := by
  induction levels with
  | zero =>
      intro rank category word value derivation depth rest _ below
      cases below
  | succ levels inductionHypothesis =>
      intro rank category word value derivation depth rest same below room stops
      have accepted := derivation.accepted limit
      have inside := inductionHypothesis.mono (Nat.le_of_lt_succ below)
      apply nested_run (by simp only; omega)
      subst same
      cases rank with
      | choice => exact accepted _ (depth + 1) rest inside (by omega) stops
      | disjunction => exact accepted _ (depth + 1) rest inside (by omega) stops
      | conjunction => exact accepted _ (depth + 1) rest inside (by omega) stops
      | negation => exact accepted _ (depth + 1) rest inside (by omega) stops

theorem ofRank_accepts (limit levels : Nat) : Accepts limit (ofRank limit) levels := by
  intro rank category word value derivation depth rest same _ room stops
  exact within_accepts limit _ rank derivation depth rest same room room stops

/-- An expression that fits below the limit is read, whatever stands behind it. -/
theorem expression_run
    {limit depth : Nat} {word rest : List Token} {value : Expr}
    (derivation : Derivation .choice word value) (room : derivation.need < limit - depth)
    (stops : Stops .choice rest) :
    expression limit ⟨word ++ rest, depth⟩ = .ok value ⟨rest, depth⟩ :=
  ofRank_accepts limit _ .choice derivation depth rest rfl (Nat.lt_succ_self _) room stops

theorem reference_run
    {limit depth : Nat} {word rest : List Token} {ref : Ref}
    (derivation : Derivation .reference word (.reference ref))
    (room : derivation.need ≤ limit - depth) (stops : Stops .reference rest) :
    reference limit (ofRank limit) ⟨word ++ rest, depth⟩ = .ok ref ⟨rest, depth⟩ :=
  Completes.ofReferenceChain (derivation.accepted limit) _ depth rest (ofRank_accepts limit _) room
    stops

/-- The word is an expression with the given tree. -/
def Derives (word : List Token) (value : Expr) : Prop :=
  Nonempty (Derivation .choice word value)

theorem Derives.expression_run
    {limit : Nat} {word rest : List Token} {value : Expr} (derives : Derives word value)
    (stops : Stops .choice rest) (room : word.length < limit) :
    expression limit ⟨word ++ rest, 0⟩ = .ok value ⟨rest, 0⟩ := by
  rcases derives with ⟨derivation⟩
  have bound := derivation.need_le_length
  exact Grammar.expression_run derivation (by omega) stops

/-- The parser of expressions accepts the expressions and nothing else. What it passes is an
expression with the tree that it returns. Conversely it returns the tree of every expression, where
nothing behind the expression continues it and the limit is beyond the number of tokens. In
particular an expression has only one tree. -/
theorem expression_exact :
    (∀ limit tokens depth value after,
      expression limit ⟨tokens, depth⟩ = .ok value after →
        ∃ word, tokens = word ++ after.rest ∧ Derives word value) ∧
    (∀ word value rest, Derives word value → Stops .choice rest →
      ∀ limit, word.length < limit →
        expression limit ⟨word ++ rest, 0⟩ = .ok value ⟨rest, 0⟩) ∧
    (∀ word value other, Derives word value → Derives word other → value = other) := by
  refine ⟨?_, ?_, ?_⟩
  · intro limit tokens depth value after run
    rcases expression_reads limit _ _ _ run with ⟨_, word, shape, _, derivation, _⟩
    exact ⟨word, shape, ⟨derivation⟩⟩
  · intro word value rest derives stops limit room
    exact derives.expression_run stops room
  · intro word value other derives otherDerives
    have nothing : Stops .choice [] := fun token isHead => nomatch isHead
    have run := derives.expression_run nothing (Nat.lt_succ_self _)
    have otherRun := otherDerives.expression_run nothing (Nat.lt_succ_self _)
    rw [run] at otherRun
    cases otherRun
    rfl

/-- `a - 1 - 2` groups to the left, and a semicolon ends it. -/
theorem expression_exact_difference :
    Derives [.identifier "a", .minus, .number 1, .minus, .number 2]
        (.binary .subtract (.binary .subtract (.reference (.plain "a")) (.literal 1))
          (.literal 2)) ∧
      Stops .choice [.semicolon] ∧
      expression 6 ⟨[.identifier "a", .minus, .number 1, .minus, .number 2, .semicolon], 0⟩ =
        .ok (.binary .subtract (.binary .subtract (.reference (.plain "a")) (.literal 1))
          (.literal 2)) ⟨[.semicolon], 0⟩ := by
  have difference : Derivation .sum [.identifier "a", .minus, .number 1, .minus, .number 2]
      (.binary .subtract (.binary .subtract (.reference (.plain "a")) (.literal 1))
        (.literal 2)) :=
    .add .subtract rfl
      (.add .subtract rfl (.ofProduct (.ofPrimary (.ofReference (.plain "a"))))
        (.ofPrimary (.number 1)))
      (.ofPrimary (.number 2))
  have derives : Derives _ _ :=
    ⟨.ofDisjunction (.ofConjunction (.ofNegation (.ofComparison (.ofSum difference))))⟩
  have stops : Stops .choice [.semicolon] := .cons _ (by decide)
  exact ⟨derives, stops, expression_exact.2.1 _ _ _ derives stops 6 (by decide)⟩

end Slate.Grammar
