import Mathlib.Algebra.Group.Nat.Defs
import Slate.Proofs.Execution.Step

/-!
Polynomials. An expression that is put together from literals and slots by sums, differences,
products and changes of sign has an exact value among the integers, where nothing wraps around.
Taking integers to words respects each of these operators. So evaluation gives the word of the exact
value, wherever a word wrapped around on the way to it. Nothing in such an expression takes input or
can fail, down to the indices of its slots, and so evaluation changes nothing.
-/

set_option autoImplicit false

namespace Slate

mutual

/-- Literals and references, put together by sums, differences, products and changes of sign. The
variables that take input are left out where they stand by themselves. -/
inductive Expr.IsPolynomial : Expr → Prop
  | literal (value : Word) : Expr.IsPolynomial (.literal value)
  | negate {operand : Expr} :
      operand.IsPolynomial → Expr.IsPolynomial (.unary .negate operand)
  | add {left right : Expr} :
      left.IsPolynomial → right.IsPolynomial → Expr.IsPolynomial (.binary .add left right)
  | subtract {left right : Expr} :
      left.IsPolynomial → right.IsPolynomial → Expr.IsPolynomial (.binary .subtract left right)
  | multiply {left right : Expr} :
      left.IsPolynomial → right.IsPolynomial → Expr.IsPolynomial (.binary .multiply left right)
  | plain {name : String} :
      name ≠ readName → name ≠ getName → Expr.IsPolynomial (.reference (.plain name))
  | indexed {base : Ref} {index : Expr} :
      base.IndexedByPolynomials → index.IsPolynomial →
        Expr.IsPolynomial (.reference (.indexed base index))

/-- All indices are polynomials. The variable may be any. -/
inductive Ref.IndexedByPolynomials : Ref → Prop
  | plain (name : String) : Ref.IndexedByPolynomials (.plain name)
  | indexed {base : Ref} {index : Expr} :
      base.IndexedByPolynomials → index.IsPolynomial →
        Ref.IndexedByPolynomials (.indexed base index)

end

/-- The exact value of a polynomial by the values of the references in it. -/
def Expr.exactValue? (value : Ref → Int) : Expr → Option Int
  | .literal word => some word.toInt
  | .unary .negate operand => return -(← operand.exactValue? value)
  | .binary .add left right => return (← left.exactValue? value) + (← right.exactValue? value)
  | .binary .subtract left right => return (← left.exactValue? value) - (← right.exactValue? value)
  | .binary .multiply left right => return (← left.exactValue? value) * (← right.exactValue? value)
  | .reference ref => some (value ref)
  | _ => none

/-- The word in the slot of a reference, if its indices have values. -/
def Ref.word (store : Store) (input : Input) (ref : Ref) : Word :=
  match ref.slot store input with
  | .ok slot _ => store.get slot
  | .error _ _ => 0

theorem Ref.word_of_slot
    {store : Store} {input after : Input} {ref : Ref} {slot : String}
    (run : ref.slot store input = .ok slot after) : ref.word store input = store.get slot := by
  rw [word, run]

theorem Ref.slot_of_parts
    {store : Store} {input middle after : Input} {base : Ref} {index : Expr} {slot : String}
    {value : Word} (baseRun : base.slot store input = .ok slot middle)
    (indexRun : index.eval store middle = .ok value after) :
    (Ref.indexed base index).slot store input = .ok (slotAt slot value) after := by
  rw [Ref.slot, bind_of_ok baseRun, bind_of_ok indexRun]
  rfl

theorem Expr.eval_indexed (store : Store) (base : Ref) (index : Expr) :
    (Expr.reference (.indexed base index)).eval store =
      (do return store.get (← (Ref.indexed base index).slot store)) := by
  simp [Expr.eval, Ref.slot]

/-- The expression has this exact value, and it is evaluated to the word of that value without
taking input. -/
def Expr.Wraps (store : Store) (input : Input) (expr : Expr) (exact : Int) : Prop :=
  expr.exactValue? (fun ref => (ref.word store input).toInt) = some exact ∧
    expr.eval store input = .ok (Int64.ofInt exact) input

namespace Expr.Wraps

variable {store : Store} {input : Input}

theorem literal (value : Word) : Wraps store input (.literal value) value.toInt := by
  refine ⟨rfl, ?_⟩
  rw [Int64.ofInt_toInt]
  rfl

theorem negate {operand : Expr} {exact : Int} (wraps : Wraps store input operand exact) :
    Wraps store input (.unary .negate operand) (-exact) := by
  constructor
  · rw [exactValue?, wraps.1]
    rfl
  · rw [eval, bind_of_ok wraps.2, Int64.ofInt_neg]
    rfl

/-- Taking integers to words respects the operator. -/
theorem binary
    {op : BinaryOp} {left right : Expr} {first second : Int} (combine : Int → Int → Int)
    (isExact : ∀ value, (Expr.binary op left right).exactValue? value =
      (do return combine (← left.exactValue? value) (← right.exactValue? value)))
    (respected : op.apply (Int64.ofInt first) (Int64.ofInt second) =
      .ok (Int64.ofInt (combine first second)))
    (leftWraps : Wraps store input left first) (rightWraps : Wraps store input right second) :
    Wraps store input (.binary op left right) (combine first second) := by
  constructor
  · rw [isExact, leftWraps.1, rightWraps.1]
    rfl
  · rw [eval, bind_of_ok leftWraps.2, bind_of_ok rightWraps.2, respected]
    rfl

theorem reference
    {ref : Ref} {slot : String} (slotRun : ref.slot store input = .ok slot input)
    (evalRun : (Expr.reference ref).eval store input = .ok (store.get slot) input) :
    Wraps store input (.reference ref) (store.get slot).toInt := by
  constructor
  · rw [exactValue?, Ref.word_of_slot slotRun]
  · rw [evalRun, Int64.ofInt_toInt]

end Expr.Wraps

mutual

theorem Expr.IsPolynomial.wraps (store : Store) (input : Input) {expr : Expr} :
    expr.IsPolynomial → ∃ exact, expr.Wraps store input exact
  | .literal value => ⟨_, .literal value⟩
  | .negate operand => by
      obtain ⟨exact, wraps⟩ := operand.wraps store input
      exact ⟨_, wraps.negate⟩
  | .add left right => by
      obtain ⟨first, leftWraps⟩ := left.wraps store input
      obtain ⟨second, rightWraps⟩ := right.wraps store input
      refine ⟨_, .binary (· + ·) (fun _ => rfl) ?_ leftWraps rightWraps⟩
      rw [Int64.ofInt_add]
      rfl
  | .subtract left right => by
      obtain ⟨first, leftWraps⟩ := left.wraps store input
      obtain ⟨second, rightWraps⟩ := right.wraps store input
      refine ⟨_, .binary (· - ·) (fun _ => rfl) ?_ leftWraps rightWraps⟩
      rw [Int64.ofInt_sub]
      rfl
  | .multiply left right => by
      obtain ⟨first, leftWraps⟩ := left.wraps store input
      obtain ⟨second, rightWraps⟩ := right.wraps store input
      refine ⟨_, .binary (· * ·) (fun _ => rfl) ?_ leftWraps rightWraps⟩
      rw [Int64.ofInt_mul]
      rfl
  | .plain noRead noGet => by
      refine ⟨_, .reference rfl ?_⟩
      rw [Expr.eval, if_neg noRead, if_neg noGet]
      rfl
  | .indexed base index => by
      obtain ⟨slot, slotRun⟩ := base.exists_slot store input
      obtain ⟨exact, wraps⟩ := index.wraps store input
      have run := Ref.slot_of_parts slotRun wraps.2
      refine ⟨_, .reference run ?_⟩
      rw [Expr.eval_indexed, bind_of_ok run]
      rfl

theorem Ref.IndexedByPolynomials.exists_slot (store : Store) (input : Input) {ref : Ref} :
    ref.IndexedByPolynomials → ∃ slot, ref.slot store input = .ok slot input
  | .plain name => ⟨name, rfl⟩
  | .indexed base index => by
      obtain ⟨slot, slotRun⟩ := base.exists_slot store input
      obtain ⟨exact, wraps⟩ := index.wraps store input
      exact ⟨_, Ref.slot_of_parts slotRun wraps.2⟩

end

namespace Machine

/-- The word that a machine has in the slot of a reference. -/
def wordAt (machine : Machine) (ref : Ref) : Word :=
  ref.word machine.store machine.input

/-- Words wrap around only in the end. A polynomial is evaluated on every machine, which stays as it
is, and its value is its exact value by the words in its slots, reduced to sixty-four bits. Every
slot in question has a name, whatever happened to the values of its indices. -/
theorem evaluate_polynomial (machine : Machine) :
    (∀ ref : Ref, ref.IndexedByPolynomials →
      ∃ slot, slotOf ref machine = .ok slot machine ∧
        machine.wordAt ref = machine.store.get slot) ∧
    ∀ expr : Expr, expr.IsPolynomial →
      ∃ exact value, expr.exactValue? (fun ref => (machine.wordAt ref).toInt) = some exact ∧
        evaluate expr machine = .ok value machine ∧ value.toInt = exact.bmod (2 ^ 64) := by
  constructor
  · intro ref indexed
    obtain ⟨slot, slotRun⟩ := indexed.exists_slot machine.store machine.input
    exact ⟨slot, reading_eq_ok_iff.2 ⟨_, slotRun, rfl⟩, Ref.word_of_slot slotRun⟩
  · intro expr polynomial
    obtain ⟨exact, isExact, run⟩ := polynomial.wraps machine.store machine.input
    exact ⟨exact, _, isExact, reading_eq_ok_iff.2 ⟨_, run, rfl⟩, Int64.toInt_ofInt⟩

/-- A product, a change of sign and an index wrap around, the index being that of a variable which
takes input where it has none. -/
theorem evaluate_polynomial_wrapping :
    ∃ machine : Machine, machine.store.get "read.-9223372036854775808" = 5 ∧
      slotOf
          (.indexed (.plain "read") (.binary .add (.literal Int64.maxValue) (.literal 1)))
          machine =
        .ok "read.-9223372036854775808" machine ∧
      evaluate
          (.binary .add
            (.binary .subtract (.binary .multiply (.literal 0x4000000000000000) (.literal 4))
              (.unary .negate (.literal Int64.minValue)))
            (.reference
              (.indexed (.plain "read") (.binary .add (.literal Int64.maxValue) (.literal 1)))))
          machine =
        .ok (Int64.minValue + 5) machine := by
  have named : slotAt "read" (Int64.maxValue + 1) = "read.-9223372036854775808" := by
    decide +kernel
  have index : Expr.IsPolynomial (.binary .add (.literal Int64.maxValue) (.literal 1)) :=
    .add (.literal _) (.literal _)
  let machine : Machine :=
    { start 1 ⟨['7'], []⟩ .unlimited with
      store := Store.empty.set "read.-9223372036854775808" 5 }
  have stored : machine.store.get "read.-9223372036854775808" = 5 := by
    rw [Store.get_set, if_pos rfl]
  obtain ⟨slot, slotRun, isWord⟩ :=
    (evaluate_polynomial machine).1 _ (.indexed (.plain "read") index)
  have isSlot : slot = "read.-9223372036854775808" := by
    rw [← named]
    cases slotRun
    rfl
  subst isSlot
  obtain ⟨exact, value, isExact, run, reduced⟩ := (evaluate_polynomial machine).2 _
    (.add (.subtract (.multiply (.literal 0x4000000000000000) (.literal 4))
      (.negate (.literal Int64.minValue))) (.indexed (.plain "read") index))
  simp only [Expr.exactValue?, isWord, stored] at isExact
  have isValue : value = Int64.minValue + 5 := by
    rw [← Int64.toInt_inj, reduced, ← Option.some.inj isExact]
    rfl
  subst isValue
  exact ⟨machine, stored, slotRun, run⟩

end Machine

end Slate
