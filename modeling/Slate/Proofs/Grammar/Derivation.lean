import Slate.Proofs.Grammar.Step

/-!
The grammar of expressions as derivation trees. A derivation of a category shows how a word of
tokens is put together and which expression it stands for. The rules are those of the language:

* `choice := disjunction ['?' choice ':' choice]`
* `disjunction := conjunction ['||' disjunction]`
* `conjunction := negation ['&&' conjunction]`
* `negation := '!' negation | comparison`
* `comparison := sum [comparison sign sum]`
* `sum := product (('+' | '-') product)*`, grouped to the left
* `product := primary (('*' | '/' | '%') primary)*`, grouped to the left
* `primary := number | '(' choice ')' | reference`
* `reference := identifier ('@' index)*`, grouped to the left
* `index := number | '(' choice ')' | identifier`

A chain is derived from its left part and its last link, so its tree groups to the left.
-/

set_option autoImplicit false

namespace Slate

namespace Grammar

inductive Category
  | choice
  | disjunction
  | conjunction
  | negation
  | comparison
  | sum
  | product
  | primary
  | reference
  | index
deriving DecidableEq

def Rank.category : Rank → Category
  | .choice => .choice
  | .disjunction => .disjunction
  | .conjunction => .conjunction
  | .negation => .negation

end Grammar

namespace BinaryOp

/-- The token between the operands. -/
def sign : BinaryOp → Token
  | .add => .plus
  | .subtract => .minus
  | .multiply => .star
  | .divide => .slash
  | .modulo => .percent
  | .less => .less
  | .greater => .greater
  | .equal => .equal
  | .notEqual => .notEqual
  | .lessEqual => .lessEqual
  | .greaterEqual => .greaterEqual
  | .and => .and
  | .or => .or

/-- The category whose phrases the operator builds. -/
def category : BinaryOp → Grammar.Category
  | .add | .subtract => .sum
  | .multiply | .divide | .modulo => .product
  | .less | .greater | .equal | .notEqual | .lessEqual | .greaterEqual => .comparison
  | .and => .conjunction
  | .or => .disjunction

end BinaryOp

namespace Grammar

/-- `Derivation category word value`: the word is a phrase of the category, and its tree is the
value. -/
inductive Derivation : Category → List Token → Expr → Type
  | ofDisjunction {word value} : Derivation .disjunction word value → Derivation .choice word value
  | select {first second third condition accepted rejected} :
      Derivation .disjunction first condition →
      Derivation .choice second accepted →
      Derivation .choice third rejected →
      Derivation .choice (first ++ .question :: (second ++ .colon :: third))
        (.select condition accepted rejected)
  | ofConjunction {word value} :
      Derivation .conjunction word value → Derivation .disjunction word value
  | or {first second left right} :
      Derivation .conjunction first left →
      Derivation .disjunction second right →
      Derivation .disjunction (first ++ .or :: second) (.binary .or left right)
  | ofNegation {word value} : Derivation .negation word value → Derivation .conjunction word value
  | and {first second left right} :
      Derivation .negation first left →
      Derivation .conjunction second right →
      Derivation .conjunction (first ++ .and :: second) (.binary .and left right)
  | ofComparison {word value} : Derivation .comparison word value → Derivation .negation word value
  | not {word operand} :
      Derivation .negation word operand →
      Derivation .negation (.bang :: word) (.unary .not operand)
  | ofSum {word value} : Derivation .sum word value → Derivation .comparison word value
  | compare {first second left right} (op : BinaryOp) (compares : op.category = .comparison) :
      Derivation .sum first left →
      Derivation .sum second right →
      Derivation .comparison (first ++ op.sign :: second) (.binary op left right)
  | ofProduct {word value} : Derivation .product word value → Derivation .sum word value
  | add {first second left right} (op : BinaryOp) (adds : op.category = .sum) :
      Derivation .sum first left →
      Derivation .product second right →
      Derivation .sum (first ++ op.sign :: second) (.binary op left right)
  | ofPrimary {word value} : Derivation .primary word value → Derivation .product word value
  | multiply {first second left right} (op : BinaryOp) (multiplies : op.category = .product) :
      Derivation .product first left →
      Derivation .primary second right →
      Derivation .product (first ++ op.sign :: second) (.binary op left right)
  | number (value : Word) : Derivation .primary [.number value] (.literal value)
  | parenthesized {word value} :
      Derivation .choice word value →
      Derivation .primary (.leftParen :: (word ++ [.rightParen])) value
  | ofReference {word value} : Derivation .reference word value → Derivation .primary word value
  | plain (name : String) :
      Derivation .reference [.identifier name] (.reference (.plain name))
  | indexed {first second base index} :
      Derivation .reference first (.reference base) →
      Derivation .index second index →
      Derivation .reference (first ++ .at :: second) (.reference (.indexed base index))
  | indexNumber (value : Word) : Derivation .index [.number value] (.literal value)
  | indexParenthesized {word value} :
      Derivation .choice word value →
      Derivation .index (.leftParen :: (word ++ [.rightParen])) value
  | indexVariable (name : String) :
      Derivation .index [.identifier name] (.reference (.plain name))

namespace Derivation

/-- The links of a chain that the derivation ends in. -/
def links {category : Category} {word : List Token} {value : Expr} :
    Derivation category word value → Nat
  | .add _ _ left _ => left.links + 1
  | .multiply _ _ left _ => left.links + 1
  | .indexed base _ => base.links + 1
  | _ => 0

/-- The nesting levels that reading the word takes. A part behind a sign that opens a level takes
one more than it needs by itself, and an operand behind a link of a chain stands as many levels
further in as there are links so far. -/
def need {category : Category} {word : List Token} {value : Expr} :
    Derivation category word value → Nat
  | .ofDisjunction part => part.need
  | .select condition accepted rejected =>
      max condition.need (max (accepted.need + 1) (rejected.need + 1))
  | .ofConjunction part => part.need
  | .or left right => max left.need (right.need + 1)
  | .ofNegation part => part.need
  | .and left right => max left.need (right.need + 1)
  | .ofComparison part => part.need
  | .not operand => operand.need + 1
  | .ofSum part => part.need
  | .compare _ _ left right => max left.need right.need
  | .ofProduct part => part.need
  | .add _ _ left right => max left.need (left.links + 1 + right.need)
  | .ofPrimary part => part.need
  | .multiply _ _ left right => max left.need (left.links + 1 + right.need)
  | .number _ => 0
  | .parenthesized inside => inside.need + 1
  | .ofReference part => part.need
  | .plain _ => 0
  | .indexed base index => max base.need (base.links + 1 + index.need)
  | .indexNumber _ => 0
  | .indexParenthesized inside => inside.need + 1
  | .indexVariable _ => 0

variable {category : Category} {word : List Token} {value : Expr}

/-- A primary is a phrase of every looser rank as well. -/
def loosen (part : Derivation .primary word value) :
    (rank : Rank) → Derivation rank.category word value
  | .negation => .ofComparison (.ofSum (.ofProduct (.ofPrimary part)))
  | .conjunction => .ofNegation (.ofComparison (.ofSum (.ofProduct (.ofPrimary part))))
  | .disjunction =>
      .ofConjunction (.ofNegation (.ofComparison (.ofSum (.ofProduct (.ofPrimary part)))))
  | .choice =>
      .ofDisjunction
        (.ofConjunction (.ofNegation (.ofComparison (.ofSum (.ofProduct (.ofPrimary part))))))

theorem links_le_length (derivation : Derivation category word value) :
    derivation.links ≤ word.length := by
  induction derivation with
  | add op adds left right leftBound _ =>
      simp only [links, List.length_append, List.length_cons]
      omega
  | multiply op multiplies left right leftBound _ =>
      simp only [links, List.length_append, List.length_cons]
      omega
  | indexed base index baseBound _ =>
      simp only [links, List.length_append, List.length_cons]
      omega
  | _ => exact Nat.zero_le _

/-- Every level has a token of its own that opens it. -/
theorem need_le_length (derivation : Derivation category word value) :
    derivation.need ≤ word.length := by
  induction derivation with
  | add op adds left right leftBound rightBound =>
      have linksBound := left.links_le_length
      simp only [need, List.length_append, List.length_cons]
      omega
  | multiply op multiplies left right leftBound rightBound =>
      have linksBound := left.links_le_length
      simp only [need, List.length_append, List.length_cons]
      omega
  | indexed base index baseBound indexBound =>
      have linksBound := base.links_le_length
      simp only [need, List.length_append, List.length_cons]
      omega
  | _ =>
      simp only [need, List.length_append, List.length_cons, List.length_nil]
      omega

end Derivation

/-- The tokens that a phrase of the category may begin with. -/
def Category.opens (category : Category) : Token → Bool
  | .identifier _ => true
  | .number _ | .leftParen => category != .reference
  | .bang => category ∈ [.choice, .disjunction, .conjunction, .negation]
  | _ => false

theorem Category.opens_of_tighter
    {tight loose : Category} {token : Token}
    (reference : loose = .reference → tight = .reference)
    (negative : tight ∈ [.choice, .disjunction, .conjunction, .negation] →
      loose ∈ [.choice, .disjunction, .conjunction, .negation])
    (opens : tight.opens token = true) : loose.opens token = true := by
  cases token with
  | identifier name => rfl
  | number value => exact bne_iff_ne.mpr fun same => bne_iff_ne.mp opens (reference same)
  | leftParen => exact bne_iff_ne.mpr fun same => bne_iff_ne.mp opens (reference same)
  | bang => exact decide_eq_true (negative (of_decide_eq_true opens))
  | _ => cases opens

theorem Derivation.begins
    {category : Category} {word : List Token} {value : Expr}
    (derivation : Derivation category word value) :
    ∃ token rest, word = token :: rest ∧ category.opens token = true := by
  induction derivation with
  | number _ | parenthesized _ _ | plain _ | indexNumber _ | indexParenthesized _ _
  | indexVariable _ | not _ _ => exact ⟨_, _, rfl, rfl⟩
  | ofDisjunction _ begins | ofConjunction _ begins | ofNegation _ begins | ofComparison _ begins
  | ofSum _ begins | ofProduct _ begins | ofPrimary _ begins | ofReference _ begins =>
      rcases begins with ⟨token, rest, rfl, opens⟩
      exact ⟨token, rest, rfl, Category.opens_of_tighter (by decide) (by decide) opens⟩
  | select _ _ _ begins _ _ | or _ _ begins _ | and _ _ begins _ | compare _ _ _ _ begins _
  | add _ _ _ _ begins _ | multiply _ _ _ _ begins _ | indexed _ _ begins _ =>
      rcases begins with ⟨token, rest, rfl, opens⟩
      exact ⟨token, rest ++ _, rfl, Category.opens_of_tighter (by decide) (by decide) opens⟩

end Grammar

end Slate
