import Slate.Proofs.Execution.Laps
import Slate.Proofs.Execution.Step

/-!
What a program sees of the store. It looks at a slot only by its value, so a slot that was never set
is to it like one that holds zero. The variables `read` and `get` ask the input, so it never sees a
value that is stored under these names: the name of a slot with an index is neither of them. Two
machines that differ in nothing else do the same and go on differing in nothing else.
-/

set_option autoImplicit false

namespace Slate

/-- The stores give the same value for every name but `read` and `get`. -/
def Store.Alike (store other : Store) : Prop :=
  ∀ name, name ≠ readName → name ≠ getName → store.get name = other.get name

namespace Store.Alike

variable {store other : Store}

theorem symm (alike : store.Alike other) : other.Alike store :=
  fun name noRead noGet => (alike name noRead noGet).symm

/-- A value that is stored in both is seen in both. -/
theorem set (alike : store.Alike other) (slot : String) (value : Word) :
    (store.set slot value).Alike (other.set slot value) := by
  intro name noRead noGet
  rw [get_set, get_set, alike name noRead noGet]

end Store.Alike

/-- The name of a slot with an index has a point in it. -/
theorem slotAt_ne {name : String} (noPoint : '.' ∉ name.toList) (base : String) (index : Word) :
    slotAt base index ≠ name := by
  rintro rfl
  apply noPoint
  simp [slotAt]

section

variable {store other : Store}

mutual

theorem Expr.eval_alike (alike : store.Alike other) :
    (expr : Expr) → expr.eval store = expr.eval other
  | .literal _ => rfl
  | .unary _ operand => by
      rw [Expr.eval, Expr.eval, operand.eval_alike alike]
  | .binary _ left right => by
      rw [Expr.eval, Expr.eval, left.eval_alike alike, right.eval_alike alike]
  | .select condition accepted rejected => by
      rw [Expr.eval, Expr.eval, condition.eval_alike alike, accepted.eval_alike alike,
        rejected.eval_alike alike]
  | .reference (.plain name) => by
      by_cases isRead : name = readName
      · simp only [Expr.eval, if_pos isRead]
      by_cases isGet : name = getName
      · simp only [Expr.eval, if_pos isGet]
      rw [Expr.eval, Expr.eval, alike name isRead isGet]
  | .reference (.indexed base index) => by
      have sameValue (slot : String) (value : Word) :
          store.get (slotAt slot value) = other.get (slotAt slot value) :=
        alike _ (slotAt_ne (by decide) slot value) (slotAt_ne (by decide) slot value)
      simp only [Expr.eval, base.slot_alike alike, index.eval_alike alike, sameValue]

theorem Ref.slot_alike (alike : store.Alike other) :
    (ref : Ref) → ref.slot store = ref.slot other
  | .plain _ => rfl
  | .indexed base index => by
      rw [Ref.slot, Ref.slot, base.slot_alike alike, index.eval_alike alike]

end

end

namespace Machine

variable {α β ε : Type}

/-- The machines differ at most in their stores, and these are alike. -/
structure Alike (machine twin : Machine) : Prop where
  store : machine.store.Alike twin.store
  input : machine.input = twin.input
  sink : machine.sink = twin.sink
  limit : machine.limit = twin.limit
  depth : machine.depth = twin.depth

theorem Alike.symm {machine twin : Machine} (alike : Alike machine twin) : Alike twin machine :=
  ⟨alike.store.symm, alike.input.symm, alike.sink.symm, alike.limit.symm, alike.depth.symm⟩

/-- The results are the same, and the machines in which they are reached are alike. -/
inductive EndAlike : EStateM.Result ε Machine α → EStateM.Result ε Machine α → Prop
  | ok (value : α) {after other : Machine} :
      Alike after other → EndAlike (.ok value after) (.ok value other)
  | error (cause : ε) {after other : Machine} :
      Alike after other → EndAlike (.error cause after) (.error cause other)

/-- From machines that are alike, the two actions end alike. -/
def Blind (action other : Action α) : Prop :=
  ∀ {machine twin : Machine}, Alike machine twin → EndAlike (action machine) (other twin)

namespace Blind

theorem pure (value : α) : Blind (Pure.pure value) (Pure.pure value) :=
  fun alike => .ok value alike

theorem stop (cause : Stop) : Blind (throw cause : Action α) (throw cause) :=
  fun alike => .error cause alike

theorem bind
    {first other : Action α} {next otherNext : α → Action β} (blind : Blind first other)
    (nextBlind : ∀ value, Blind (next value) (otherNext value)) :
    Blind (first >>= next) (other >>= otherNext) := by
  intro machine twin alike
  have step := blind alike
  generalize run : first machine = outcome at step
  generalize twinRun : other twin = twinOutcome at step
  cases step with
  | ok value alikeAfter =>
      rw [bind_of_ok run, bind_of_ok twinRun]
      exact nextBlind value alikeAfter
  | error cause alikeAfter =>
      rw [bind_of_error run, bind_of_error twinRun]
      exact .error cause alikeAfter

theorem reading
    {step : Store → EStateM Fault Input α}
    (sees : ∀ {store other : Store}, store.Alike other → step store = step other) :
    Blind (Machine.reading step) (Machine.reading step) := by
  rintro ⟨store, input, sink, limit, depth⟩ ⟨other, _, _, _, _⟩ ⟨alike, ⟨⟩, ⟨⟩, ⟨⟩, ⟨⟩⟩
  simp only [Machine.reading, sees alike]
  cases step other input with
  | ok value input => exact .ok value ⟨alike, rfl, rfl, rfl, rfl⟩
  | error fault input => exact .error _ ⟨alike, rfl, rfl, rfl, rfl⟩

theorem sinking (step : EStateM Trouble Sink Unit) :
    Blind (Machine.sinking step) (Machine.sinking step) := by
  rintro ⟨store, input, sink, limit, depth⟩ ⟨other, _, _, _, _⟩ ⟨alike, ⟨⟩, ⟨⟩, ⟨⟩, ⟨⟩⟩
  simp only [Machine.sinking]
  cases step sink with
  | ok _ sink => exact .ok () ⟨alike, rfl, rfl, rfl, rfl⟩
  | error trouble sink => exact .error _ ⟨alike, rfl, rfl, rfl, rfl⟩

theorem deliver (slot : String) (value : Word) :
    Blind (Machine.deliver slot value) (Machine.deliver slot value) := by
  rcases deliver_cases slot value with ⟨bytes, written⟩ | refused | stored
  · rw [written]
    exact sinking (Sink.write bytes)
  · rw [refused]
    exact stop _
  · rw [stored]
    intro machine twin alike
    exact .ok () ⟨alike.store.set slot value, alike.input, alike.sink, alike.limit, alike.depth⟩

theorem nested {action other : Action α} (blind : Blind action other) :
    Blind (Machine.nested action) (Machine.nested other) := by
  rintro ⟨store, input, sink, limit, depth⟩ ⟨twin, _, _, _, _⟩ ⟨alike, ⟨⟩, ⟨⟩, ⟨⟩, ⟨⟩⟩
  by_cases met : limit ≤ depth
  · rw [nested_of_met met, nested_of_met met]
    exact .error _ ⟨alike, rfl, rfl, rfl, rfl⟩
  have inside :
      Alike ⟨store, input, sink, limit, depth + 1⟩ ⟨twin, input, sink, limit, depth + 1⟩ :=
    ⟨alike, rfl, rfl, rfl, rfl⟩
  have step := blind inside
  generalize run : action _ = outcome at step
  generalize twinRun : other _ = twinOutcome at step
  cases step with
  | ok value after =>
      rw [nested_of_ok met run, nested_of_ok met twinRun]
      exact .ok value ⟨after.store, after.input, after.sink, after.limit,
        congrArg (· - 1) after.depth⟩
  | error cause after =>
      rw [nested_of_error met run, nested_of_error met twinRun]
      exact .error cause ⟨after.store, after.input, after.sink, after.limit,
        congrArg (· - 1) after.depth⟩

theorem congruence : Congruence (fun _ => Blind) where
  pure := pure
  bind := bind
  evaluate expr := reading fun alike => expr.eval_alike alike
  slotOf ref := reading fun alike => ref.slot_alike alike
  deliver := deliver
  nested := nested
  unfinished := stop _

end Blind

theorem execute_blind (laps : Nat) (statement : Stmt) :
    Blind (execute laps statement) (execute laps statement) :=
  Blind.congruence.execute (Nat.le_refl laps) (.inl rfl) statement

/-- What ends on a machine ends alike on its twin. -/
theorem Ends.alike
    {statement : Stmt} {machine twin : Machine} {outcome : EStateM.Result Failure Machine Unit}
    (ends : Ends statement machine outcome) (alike : Alike machine twin) :
    ∃ other, Ends statement twin other ∧ EndAlike outcome other := by
  obtain ⟨laps, run⟩ := ends
  have step := execute_blind laps statement alike
  rw [run] at step
  generalize twinRun : execute laps statement twin = twinOutcome at step
  cases outcome with
  | ok value after =>
      cases step with
      | ok _ alikeAfter => exact ⟨.ok value _, ⟨laps, twinRun⟩, .ok value alikeAfter⟩
  | error cause after =>
      cases step with
      | error _ alikeAfter => exact ⟨.error cause _, ⟨laps, twinRun⟩, .error cause alikeAfter⟩

/-- A program cannot tell a slot that was never set from one that holds zero, and never sees what is
stored under `read` or `get`. On machines that differ in nothing else it ends or it does not, and if
it ends, then with the same result, output and input, and with stores that again differ in nothing
else. -/
theorem execute_cannot_tell
    {machine twin : Machine} (alike : Alike machine twin) (statement : Stmt) :
    ((∃ outcome, Ends statement machine outcome) ↔ ∃ other, Ends statement twin other) ∧
      ∀ outcome other, Ends statement machine outcome → Ends statement twin other →
        EndAlike outcome other := by
  refine ⟨⟨?_, ?_⟩, ?_⟩
  · rintro ⟨outcome, ends⟩
    obtain ⟨other, endsToo, _⟩ := ends.alike alike
    exact ⟨other, endsToo⟩
  · rintro ⟨other, ends⟩
    obtain ⟨outcome, endsToo, _⟩ := ends.alike alike.symm
    exact ⟨outcome, endsToo⟩
  · intro outcome other ends endsToo
    obtain ⟨twinOutcome, twinEnds, endAlike⟩ := ends.alike alike
    rw [endsToo.unique twinEnds]
    exact endAlike

/-- Writes the sum of a variable and of a number from the input. -/
def addingRead : Stmt :=
  .assign (.plain "write") (.binary .add (.reference (.plain "x")) (.reference (.plain "read")))

/-- A machine that has taken and written as much as this, with the given store. -/
def keeping (store : Store) (ahead : List Char) (written : String) : Machine :=
  { start 1 ⟨ahead, []⟩ ⟨written.toUTF8, none, false⟩ with store }

/-- A store in which `x` holds zero and a value is stored under `read`, beside one in which nothing
was ever set. -/
theorem execute_cannot_tell_addingRead :
    Alike (keeping ((Store.empty.set "read" 7).set "x" 0) ['4'] "") (keeping .empty ['4'] "") ∧
      Ends addingRead (keeping ((Store.empty.set "read" 7).set "x" 0) ['4'] "")
        (.ok () (keeping ((Store.empty.set "read" 7).set "x" 0) [] "4")) ∧
      Ends addingRead (keeping .empty ['4'] "") (.ok () (keeping .empty [] "4")) ∧
      Alike (keeping ((Store.empty.set "read" 7).set "x" 0) [] "4") (keeping .empty [] "4") := by
  have alike : Alike (keeping ((Store.empty.set "read" 7).set "x" 0) ['4'] "")
      (keeping .empty ['4'] "") := by
    refine ⟨fun name noRead _ => ?_, rfl, rfl, rfl, rfl⟩
    simp only [keeping, Store.get_set, if_neg (Ne.symm noRead : "read" ≠ name)]
    exact ite_eq_right_iff.2 fun _ => (Store.get_empty name).symm
  have ends : Ends addingRead (keeping ((Store.empty.set "read" 7).set "x" 0) ['4'] "")
      (.ok () (keeping ((Store.empty.set "read" 7).set "x" 0) [] "4")) := ⟨1, rfl⟩
  have twinEnds : Ends addingRead (keeping .empty ['4'] "") (.ok () (keeping .empty [] "4")) :=
    ⟨1, rfl⟩
  refine ⟨alike, ends, twinEnds, ?_⟩
  cases (execute_cannot_tell alike addingRead).2 _ _ ends twinEnds with
  | ok _ after => exact after

end Machine

end Slate
