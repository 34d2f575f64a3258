import Slate.Proofs.Execution.Congruence
import Slate.Proofs.Sequence

/-!
The number of laps. A run that ends within some laps is the same with more of them, so how a
statement ends does not depend on the laps.
-/

set_option autoImplicit false

namespace Slate.Machine

variable {α β : Type}

/-- The second action does the same as the first wherever the first is not unfinished. -/
def Persists (action other : Action α) : Prop :=
  ∀ machine, (∃ stopped, action machine = .error .unfinished stopped) ∨
    other machine = action machine

namespace Persists

theorem refl (action : Action α) : Persists action action :=
  fun _ => .inr rfl

theorem bind
    {first other : Action α} {next otherNext : α → Action β} (persists : Persists first other)
    (nextPersists : ∀ value, Persists (next value) (otherNext value)) :
    Persists (first >>= next) (other >>= otherNext) := by
  intro machine
  rcases persists machine with ⟨stopped, unfinished⟩ | same
  · exact .inl ⟨stopped, bind_of_error unfinished⟩
  · cases run : first machine with
    | ok value after =>
        rw [run] at same
        rw [bind_of_ok run, bind_of_ok same]
        exact nextPersists value after
    | error stop after =>
        rw [run] at same
        rw [bind_of_error run, bind_of_error same]
        exact .inr rfl

theorem nested {action other : Action α} (persists : Persists action other) :
    Persists (Machine.nested action) (Machine.nested other) := by
  intro machine
  unfold Machine.nested
  split
  next => exact .inr rfl
  next =>
    rcases persists { machine with depth := machine.depth + 1 } with ⟨stopped, unfinished⟩ | same
    · rw [unfinished]
      exact .inl ⟨_, rfl⟩
    · rw [same]
      exact .inr rfl

theorem congruence : Congruence (fun _ => Persists) where
  pure _ := refl _
  bind := bind
  evaluate _ := refl _
  slotOf _ := refl _
  deliver _ _ := refl _
  nested := nested
  unfinished := refl _

end Persists

theorem execute_persists {fewer laps : Nat} (noMore : fewer ≤ laps) (statement : Stmt) :
    Persists (execute fewer statement) (execute laps statement) :=
  Persists.congruence.execute noMore (.inr fun _ _ => .inl ⟨_, rfl⟩) statement

/-- How a run ends that is not unfinished, as a result of an action. -/
def ended : EStateM.Result Failure Machine Unit → EStateM.Result Stop Machine Unit
  | .ok value after => .ok value after
  | .error cause after => .error (.failure cause) after

/-- The statement, executed on the machine, ends in this way, after however many laps. -/
def Ends (statement : Stmt) (machine : Machine)
    (outcome : EStateM.Result Failure Machine Unit) : Prop :=
  ∃ laps, execute laps statement machine = ended outcome

theorem ended_injective {outcome other : EStateM.Result Failure Machine Unit}
    (same : ended outcome = ended other) : outcome = other := by
  cases outcome <;> cases other <;> cases same <;> rfl

/-- What a run came to within some laps, it comes to within more of them. -/
theorem ended_of_more
    {action : Nat → Action Unit}
    (persists : ∀ {fewer laps}, fewer ≤ laps → Persists (action fewer) (action laps))
    {laps more : Nat} (enough : laps ≤ more) {machine : Machine}
    {outcome : EStateM.Result Failure Machine Unit} (run : action laps machine = ended outcome) :
    action more machine = ended outcome := by
  rcases persists enough machine with ⟨stopped, unfinished⟩ | same
  · rw [run] at unfinished
    cases outcome <;> cases unfinished
  · rw [same, run]

namespace Ends

variable {statement : Stmt} {machine : Machine} {outcome : EStateM.Result Failure Machine Unit}

theorem eventually (ends : Ends statement machine outcome) :
    ∃ laps, ∀ more, laps ≤ more → execute more statement machine = ended outcome := by
  obtain ⟨laps, run⟩ := ends
  exact ⟨laps, fun more enough =>
    ended_of_more (fun enough => execute_persists enough statement) enough run⟩

theorem unique
    {other : EStateM.Result Failure Machine Unit} (ends : Ends statement machine outcome)
    (endsToo : Ends statement machine other) : outcome = other := by
  obtain ⟨laps, run⟩ := ends.eventually
  obtain ⟨others, otherRun⟩ := endsToo.eventually
  apply ended_injective
  rw [← run (max laps others) (Nat.le_max_left _ _), otherRun _ (Nat.le_max_right _ _)]

end Ends

end Slate.Machine
